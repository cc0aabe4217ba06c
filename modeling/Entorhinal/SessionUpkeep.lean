import Entorhinal.Liveness
import Entorhinal.Refusal
import Entorhinal.Transition

/-! Ends, reopenings and retention over every order of steps. A `gone` report
waits in an in-memory queue; the writer drains it and commits the stamps later;
each call reads the clock before its transaction commits. -/
namespace Entorhinal.SessionUpkeep
open Session Transition

/-- The most stamps queued while the writer is behind. -/
def pendingCap : Nat := 8192

/-- A queued stamp with the step at which its report was received. -/
structure Report where
  stamp : GoneSession
  received : Nat
deriving DecidableEq, Repr

/-- A call that has read the clock and not committed yet. -/
inductive Call
  | registering (request : SessionRegistration)
  | ending (harness sessionId : String) (runner : Option String) (nowMs : Int)
  | pruning (nowMs : Int)
deriving DecidableEq

/-- `ticks` counts steps, `registeredAt` is the step at which a binding was last
registered, and `applied` lists the feed entries applied so far. -/
structure World where
  store : SessionStore
  mirror : LivenessState
  foreign : Bool
  clock : Int
  pending : List Report
  writing : List Report
  calls : Table Nat Call
  ticks : Nat
  registeredAt : RefKey → Nat
  applied : List (Nat × LivenessSession)

inductive Label
  | tick (now : Int)
  | routeLost
  | liveness (batch : LivenessBatch) (route : Nat) (principal : String) (readings : List Int) (now : Int)
  | take
  | stamp
  | dropStamps
  | register (id : Nat) (request : SessionRegistration)
  | endSession (id : Nat) (harness sessionId : String) (runner : Option String)
  | startPrune (id : Nat)
  | commit (id : Nat)
  | prune (id : Nat) (selected : List RefKey)
  | outside (cutOver : Bool) (agents : Table String AgentPresence) (moves : Table String OpenMove)
      (claims : Table String ClaimCache.CachedClaim) (self : Option String)

def push (pending reports : List Report) : List Report :=
  pending ++ reports.take (pendingCap - pending.length)

def World.begin (w : World) (id : Nat) (call : Call) : Option World :=
  if w.foreign || w.calls.has id then none else some { w with calls := w.calls.insert id call }

def World.commit (w : World) (id : Nat) : Call → World
  | .registering request =>
    match registerSession w.store request w.clock with
    | .error _ => { w with calls := w.calls.erase id }
    | .ok store => { w with
        calls := w.calls.erase id
        store := store
        registeredAt := Function.update w.registeredAt request.key w.ticks }
  | .ending harness sessionId runner nowMs => { w with
      calls := w.calls.erase id
      store := (Session.endSession w.store harness sessionId runner nowMs).1 }
  | .pruning _ => w

/-- A batch is handled: the mirror, the queue, and what was applied. -/
def World.receive (w : World) (batch : LivenessBatch) (route : Nat) (principal : String)
    (readings : List Int) (now : Int) : World :=
  let outcome := sessionLiveness w.mirror batch route principal fun i => (readings[i]?).getD now
  let reports := outcome.ended.map fun stamp => Report.mk stamp w.ticks
  { w with
    mirror := outcome.state
    clock := now
    pending := if w.foreign then w.pending else push w.pending reports
    applied := if outcome.applied then batch.sessions.map (w.ticks,·) ++ w.applied else w.applied }

def World.act (w : World) : Label → Option World
  | .tick now => if w.clock ≤ now ∧ now ≤ i64Max then some { w with clock := now } else none
  | .routeLost => some { w with mirror := { w.mirror with stale := true } }
  | .liveness batch route principal readings now =>
    if w.clock ≤ now ∧ now ≤ i64Max ∧ readings.Pairwise (· ≤ ·) ∧
        (∀ r ∈ readings, w.clock ≤ r ∧ r ≤ now) then
      some (w.receive batch route principal readings now)
    else none
  | .take => if w.writing = [] then some { w with writing := w.pending, pending := [] } else none
  | .stamp => if w.foreign then none else some { w with
      store := stampGoneSessions w.store (w.writing.map (·.stamp))
      writing := [] }
  | .dropStamps => some { w with writing := [] }
  | .register id request => w.begin id (.registering { request with nowMs := w.clock })
  | .endSession id harness sessionId runner => w.begin id (.ending harness sessionId runner w.clock)
  | .startPrune id => w.begin id (.pruning w.clock)
  | .commit id => (w.calls.get? id).map (w.commit id)
  | .prune id selected => match w.calls.get? id with
    | some (.pruning nowMs) => (pruneEndedSessions w.store nowMs selected).map fun store =>
      let calls := if selected.length < pruneBatch then w.calls.erase id else w.calls
      { w with store := store, calls := calls }
    | _ => none
  | .outside cutOver agents moves claims self => some { w with store := { w.store with
      cutOver := cutOver
      agents := agents
      moves := moves
      claims := claims
      selfAuthor := self } }

def next (w : World) (label : Label) : Option World :=
  (w.act label).map fun w' => { w' with ticks := w.ticks + 1 }

/-- A report was received as an applied `gone` entry. -/
def Reported (w : World) (report : Report) : Prop :=
  ∃ entry, (report.received,entry) ∈ w.applied ∧ entry.state = "gone" ∧
    entry.harness = report.stamp.harness ∧ entry.sessionId = report.stamp.sessionId ∧
    entry.runner = report.stamp.runner

/-- The step ends this open binding at this time: by an `end_session` of its
session, or by a report received since it was last registered, neither naming
another runner. -/
def EndedBy (w : World) (label : Label) (key : RefKey) (row : SessionBinding) (t : Int) : Prop :=
  (∃ id harness sessionId runner, label = .commit id ∧
    w.calls.get? id = some (.ending harness sessionId runner t) ∧
    hasSession harness sessionId row = true ∧ contradicts runner row.runner = false) ∨
  (label = .stamp ∧ ∃ report ∈ w.writing, Reported w report ∧ report.stamp.covers row = true ∧
    report.stamp.endedAtMs = t ∧ w.registeredAt key ≤ report.received)

/-- What one step may do to ends: an end stands from then on or is made by the
step, and a deletion of retention is due. -/
structure StepLaw (w : World) (label : Label) (w' : World) : Prop where
  ends : ∀ key row' t, w'.store.bindings.get? key = some row' → row'.endedAtMs = some t →
    ∃ row, w.store.bindings.get? key = some row ∧
      (row.endedAtMs = some t ∨ row.endedAtMs = none ∧ EndedBy w label key row t)
  prunes : ∀ id selected key row, label = .prune id selected →
    w.store.bindings.get? key = some row → w'.store.bindings.get? key = none →
    ∃ now ended, w.calls.get? id = some (.pruning now) ∧ row.endedAtMs = some ended ∧
      row.registeredAtMs ≤ ended ∧ ended < now - sessionRetentionMs ∧
      w.store.openMoveOf row.agentId = false

/-- Every ended binding ended at or after its registration. -/
def EndsAfterRegistration (w : World) : Prop :=
  ∀ key row t, w.store.bindings.get? key = some row → row.endedAtMs = some t → row.registeredAtMs ≤ t

/-- The step ends no registration that its report or its clock reading has not
seen. -/
def observed (w : World) : Label → Bool
  | .stamp => w.writing.all fun report => w.store.bindings.rows.all fun x =>
    !report.stamp.covers x.2 || decide (w.registeredAt x.1 ≤ report.received)
  | .commit id => match w.calls.get? id with
    | some (.ending harness sessionId runner nowMs) => w.store.bindings.rows.all fun x =>
      !(hasSession harness sessionId x.2 && x.2.endedAtMs.isNone && !contradicts runner x.2.runner) ||
        decide (x.2.registeredAtMs ≤ nowMs)
    | _ => true
  | _ => true

def Observed (w : World) (label : Label) : Prop := observed w label = true

end Entorhinal.SessionUpkeep
