import Mathlib.Algebra.Order.Ring.Int
import Mathlib.Tactic.Common

/-! The steps a move checkpoint goes through, on either side. -/
namespace Entorhinal

inductive MoveSide
  | source
  | receiver
deriving DecidableEq, Repr, Inhabited

inductive MoveStep
  | preparing
  | exported
  | sealed
  | published
  | releasing
  | released
  | aborted
  | pickedUp
  | imported
  | staged
  | claimed
  | activating
  | activated
  | done
  | takenOver
deriving DecidableEq, Repr, Inhabited

def MoveSide.text : MoveSide → String
  | .source => "source"
  | .receiver => "receiver"

namespace MoveStep

def text : MoveStep → String
  | .preparing => "preparing"
  | .exported => "exported"
  | .sealed => "sealed"
  | .published => "published"
  | .releasing => "releasing"
  | .released => "released"
  | .aborted => "aborted"
  | .pickedUp => "picked_up"
  | .imported => "imported"
  | .staged => "staged"
  | .claimed => "claimed"
  | .activating => "activating"
  | .activated => "activated"
  | .done => "done"
  | .takenOver => "taken_over"

def beforeBoundary (step : MoveStep) : MoveSide → Bool
  | .source => (step matches .preparing | .exported | .sealed | .published)
  | .receiver => (step matches .pickedUp | .imported | .staged | .claimed)

def isTerminal (step : MoveStep) : Bool :=
  (step matches .released | .aborted | .done | .takenOver)

end MoveStep
end Entorhinal
