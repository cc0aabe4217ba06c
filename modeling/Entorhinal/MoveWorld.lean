import Entorhinal.MoveStore
import Entorhinal.Program
import Entorhinal.RecordClient

/-! The world of one cut: the move record and the agent's claim record, the
checkpoints of both machines, the writes that were sent and not answered, and
what was sent to participants. Answers that the drivers only branch on
(participants, the door, local checks, the clock) are the environment's to
choose. -/
namespace Entorhinal.Move

open RecordClient (RecordError RecordReply)

inductive DriverAction
  | retryWithinStep
  | retry
  | retryLater
  | retryAfterOperator
  | abort
  | terminalForStep
deriving DecidableEq, Repr

/-- What is fixed for a cut. `participantAction` is the participant contract's
table from an operation and a refusal code to the driver's action. Admission
refuses this machine as the target. -/
structure Cut where
  cutId : String
  agentId : String
  fromMachine : String
  toMachine : String
  encoding : Encoding
  participantAction : String → String → Option DriverAction
  distinct : fromMachine ≠ toMachine

def Cut.machine (cut : Cut) : MoveSide → String
  | .source => cut.fromMachine
  | .receiver => cut.toMachine

structure CasRequest (β : Type) where
  expected : Nat
  body : β
  writeId : WriteId
deriving DecidableEq, Repr

/-- A write that was sent and may still take effect. -/
structure Flight (β : Type) where
  side : MoveSide
  request : CasRequest β
deriving DecidableEq, Repr

inductive Event
  | saved (side : MoveSide) (step : MoveStep)
  | sent (side : MoveSide) (moduleId : String) (op : ParticipantOp)
  | observed (side : MoveSide) (write : Written WriteId String MoveRecord)
deriving DecidableEq, Repr

structure World where
  moves : Register WriteId String MoveRecord
  claims : Register WriteId String AgentClaim
  moveFlights : List (Flight MoveRecord)
  claimFlights : List (Flight AgentClaim)
  source : AgentMove
  receiver : Option AgentMove
  trace : List Event

/-- The register after a request reached the service. -/
def applied {β : Type} [DecidableEq β] (r : Register WriteId String β) (author : String)
    (request : CasRequest β) (fresh : Nat) : Register WriteId String β :=
  (r.cas request.expected fresh request.writeId author request.body).1

/-- What the service answers. A receipt that has aged out answers as a moved
version. -/
def answered {β : Type} [DecidableEq β] (r : Register WriteId String β) (author : String)
    (request : CasRequest β) (fresh : Nat) (forgotten : Bool) : Except RecordError Nat :=
  match (r.cas request.expected fresh request.writeId author request.body).2 with
  | .stored version =>
    if forgotten && r.writes.any fun w => w.writeId == request.writeId
    then .error (.refused "version_moved") else .ok version
  | .versionMoved => .error (.refused "version_moved")
  | .idReused => .error (.refused "id_reused")

theorem answered_ok {β : Type} [DecidableEq β] {r : Register WriteId String β} {author : String}
    {request : CasRequest β} {fresh version : Nat} {forgotten : Bool}
    (answer : answered r author request fresh forgotten = .ok version) :
    ⟨version,request.writeId,author,request.body⟩ ∈ (applied r author request fresh).writes := by
  refine Register.cas_stored ?_
  unfold answered at answer
  split at answer
  next v stored =>
    split at answer
    next => cases answer
    next => cases answer; exact stored
  next => cases answer
  next => cases answer

inductive ClientError
  | refused (code : String)
  | contractViolation (code : String)
  | outcomeUnknown
  | invalidReply
deriving DecidableEq, Repr

inductive DivergedState
  | clean
  | advanced
  | unknown
deriving DecidableEq, Repr

structure ParticipantReply where
  external : List ExternalRef
  items : List CutItem
  diverged : List DivergedState
deriving DecidableEq, Repr

inductive DoorError
  | refused (code : String)
  | outcomeUnknown
  | invalidReply
deriving DecidableEq, Repr

def DoorError.code : DoorError → String
  | .refused code => code
  | .outcomeUnknown => "unavailable"
  | .invalidReply => "unavailable"

inductive TakeoverState
  | notStarted
  | inProgress
  | taken
  | failed
deriving DecidableEq, Repr

/-- A check that a receiver makes of its own machine. -/
inductive LocalCheck
  | authorityCutOver
  | identityLogEnabled
  | catalogPreflight
  | participantReady (moduleId : String)
  | refKindsKnown (moduleId : String)
  | agentPresent
  | localWriters
  | carriedBindings
deriving DecidableEq, Repr

/-- Why a check did not pass; with a reason it aborts the move. -/
structure Obstacle where
  code : String
  reason : Option MoveReason
  detail : Option Detail
  violation : Bool
deriving DecidableEq, Repr

structure PendingMove where
  fromMachine : String
  agentId : String
deriving DecidableEq, Repr

inductive Question
  | gauges
  | clock
  | pollDue
  | route (moduleId : String)
  | seal (items : List CutItem)
  | sealStatus
  | doorAbort
  | handoff
  | handoffStatus
  | takeover
  | takeoverStatus
  | doorRead
  | inboxRead
  | inboxCas
  | removeInbox
  | cacheClaims
  | presentModules
  | guard (check : LocalCheck)
  | inboxEntry
  | freeSlot
deriving DecidableEq, Repr

def Question.Reply : Question → Type
  | .gauges => Except String Unit
  | .clock => Int
  | .pollDue => Bool
  | .route _ => Except String Unit
  | .seal _ => Except DoorError SealState
  | .sealStatus => Except DoorError SealState
  | .doorAbort => Except DoorError Unit
  | .handoff => Except DoorError (HandoffState × Option String)
  | .handoffStatus => Except DoorError (Option HandoffState)
  | .takeover => Except DoorError TakeoverState
  | .takeoverStatus => Except DoorError (Option TakeoverState)
  | .doorRead => Except DoorError String
  | .inboxRead => Except String (List String)
  | .inboxCas => Except RecordError Nat
  | .removeInbox => Except String Unit
  | .cacheClaims => Except String Unit
  | .presentModules => Except Obstacle (List String)
  | .guard _ => Except Obstacle Unit
  | .inboxEntry => Option PendingMove
  | .freeSlot => Except String Bool

inductive Effect
  | row
  | consumeRetry
  | checkpoint (row : AgentMove) (clearAbort : Bool)
  | activation (row : AgentMove)
  | admission (row : AgentMove)
  | readMove
  | readClaim
  | casMove (request : CasRequest MoveRecord)
  | casClaim (request : CasRequest AgentClaim)
  | call (moduleId : String) (op : ParticipantOp)
  | ask (question : Question)

def Effect.Answer : Effect → Type
  | .row => Except String (Option AgentMove)
  | .consumeRetry => Except String Bool
  | .checkpoint _ _ => Except String AgentMove
  | .activation _ => Except String AgentMove
  | .admission _ => Except String AgentMove
  | .readMove => Except RecordError (RecordReply MoveRecord)
  | .readClaim => Except RecordError (RecordReply AgentClaim)
  | .casMove _ => Except RecordError Nat
  | .casClaim _ => Except RecordError Nat
  | .call _ _ => Except ClientError ParticipantReply
  | .ask question => question.Reply

/-- The outcomes the environment chooses among. A write may be served, or sent
and left without a settled answer; a read is fresh, served from a cache, or
fails; a local transaction commits or fails. -/
inductive Choice
  | commit (flag : Bool)
  | storage (code : String)
  | served (fresh : Nat) (forgotten : Bool)
  | unanswered (error : RecordError)
  | fresh
  | cachedMove (reply : RecordReply MoveRecord)
  | cachedClaim (reply : RecordReply AgentClaim)
  | unread (error : RecordError)
  | called (answer : Except ClientError ParticipantReply)
  | answered (question : Question) (reply : question.Reply)

inductive Party
  | source
  | receiver
  | inbox
deriving DecidableEq, Repr

def Party.side : Party → MoveSide
  | .source => .source
  | .receiver => .receiver
  | .inbox => .receiver

namespace World

def row (w : World) : MoveSide → Option AgentMove
  | .source => some w.source
  | .receiver => w.receiver

def withRow (w : World) (side : MoveSide) (row : AgentMove) : World :=
  match side with
  | .source => { w with source := row }
  | .receiver => { w with receiver := some row }

def record (w : World) (event : Event) : World := { w with trace := event :: w.trace }

/-- A driver's fresh read settles the writes it sent to the subject; the inbox
poller sends none. -/
def settles (p : Party) {β : Type} (flights : List (Flight β)) : List (Flight β) :=
  match p with
  | .inbox => flights
  | _ => flights.filter fun f => f.side ≠ p.side

end World

/-- An answer of `version_moved` says that the write did not take effect now, so
it is never the answer of a write left open. -/
def leftOpen (error : RecordError) : Bool := error != .refused "version_moved"

open World in
def act (cut : Cut) (p : Party) (w : World) : (e : Effect) → Choice → Option (e.Answer × World)
  | .row, .commit _ => some (.ok (w.row p.side),w)
  | .row, .storage code => some (.error code,w)
  | .consumeRetry, .commit _ => match w.row p.side with
    | none => some (.ok false,w)
    | some row =>
      let consumed := consumeMoveAbortRetry row
      some (.ok consumed.2,w.withRow p.side consumed.1)
  | .consumeRetry, .storage code => some (.error code,w)
  | .checkpoint row clearAbort, .commit _ => match w.row p.side with
    | none => some (.error "storage_error",w)
    | some current =>
      let next := checkpointAgentMove current row clearAbort
      some (.ok next,(w.withRow p.side next).record (.saved p.side next.step))
  | .checkpoint _ _, .storage code => some (.error code,w)
  | .activation row, .commit boundElsewhere => match w.row p.side with
    | none => some (.error "storage_error",w)
    | some current => match activateAgentMove current row boundElsewhere with
      | .error code => some (.error code,w)
      | .ok next => some (.ok next,(w.withRow p.side next).record (.saved p.side next.step))
  | .activation _, .storage code => some (.error code,w)
  | .admission row, .commit slotFree => match admitReceivedMove w.receiver row slotFree with
    | .error code => some (.error code,w)
    | .ok next => some (.ok next,{ w with receiver := some next })
  | .admission _, .storage code => some (.error code,w)
  | .readMove, .fresh =>
    let read := { w with moveFlights := settles p w.moveFlights }
    some (.ok (.shows w.moves.current (cut.machine p.side) false),match w.moves.current with
      | none => read
      | some write => read.record (.observed p.side write))
  | .readMove, .cachedMove reply => some (.ok { reply with stale := true },w)
  | .readMove, .unread error => some (.error error,w)
  | .readClaim, .fresh => some (.ok (.shows w.claims.current (cut.machine p.side) false),
      { w with claimFlights := settles p w.claimFlights })
  | .readClaim, .cachedClaim reply => some (.ok { reply with stale := true },w)
  | .readClaim, .unread error => some (.error error,w)
  | .casMove request, .served fresh forgotten =>
    let author := cut.machine p.side
    some (answered w.moves author request fresh forgotten,
      { w with moves := applied w.moves author request fresh })
  | .casMove request, .unanswered error =>
    if leftOpen error then some (.error error,{ w with moveFlights := ⟨p.side,request⟩ :: w.moveFlights })
    else none
  | .casClaim request, .served fresh forgotten =>
    let author := cut.machine p.side
    some (answered w.claims author request fresh forgotten,
      { w with claims := applied w.claims author request fresh })
  | .casClaim request, .unanswered error =>
    if leftOpen error then some (.error error,{ w with claimFlights := ⟨p.side,request⟩ :: w.claimFlights })
    else none
  | .call moduleId op, .called answer => some (answer,w.record (.sent p.side moduleId op))
  | .ask question, .answered asked reply =>
    if same : asked = question then some (same ▸ reply,w) else none
  | _, _ => none

theorem act_row {cut : Cut} {p : Party} {w w' : World} {choice : Choice}
    {answer : Except String (Option AgentMove)} (taken : act cut p w .row choice = some (answer,w')) :
    w' = w ∧ ∀ found, answer = .ok found → found = w.row p.side := by
  cases choice <;> simp only [act,reduceCtorEq] at taken
  next => cases taken; exact ⟨rfl,fun _ same => by cases same; rfl⟩
  next => cases taken; exact ⟨rfl,fun _ same => by cases same⟩

/-- What happens beside the drivers: an unanswered write takes effect, another
machine writes the claim, an operator asks for an abort. -/
inductive Outside
  | moveLands (index fresh : Nat)
  | claimLands (index fresh : Nat)
  | claimWritten (author : String) (body : AgentClaim) (id fresh : Nat)
  | abortRequested (side : MoveSide)

/-- Other machines claim an agent for themselves or return it to the source of
their own move; none of them writes in the receiver's name or for it. -/
def outside (cut : Cut) (w : World) : Outside → Option World
  | .moveLands index fresh => w.moveFlights[index]?.map fun flight =>
    { w with
      moves := applied w.moves (cut.machine flight.side) flight.request fresh
      moveFlights := w.moveFlights.eraseIdx index }
  | .claimLands index fresh => w.claimFlights[index]?.map fun flight =>
    { w with
      claims := applied w.claims (cut.machine flight.side) flight.request fresh
      claimFlights := w.claimFlights.eraseIdx index }
  | .claimWritten author body id fresh =>
    if author ≠ cut.toMachine ∧ body.holder ≠ some cut.toMachine then
      some { w with
        claims := applied w.claims author ⟨w.claims.version,body,.other id⟩ fresh }
    else none
  | .abortRequested side => (w.row side).map fun row => match requestAgentMoveAbort row with
    | .error _ => w
    | .ok row' => w.withRow side row'

/-- What a driver keeps from one pass to the next; a restart forgets it. -/
structure Memory where
  resumed : Bool
  abortHeld : Bool
deriving DecidableEq, Repr

/-- A driver's variables during a pass: its copy of the row, and its memory. -/
structure Local where
  row : AgentMove
  memory : Memory
deriving DecidableEq, Repr

abbrev Driver (φ α : Type) : Type := Task Effect Effect.Answer Local φ α

section Calls

variable {φ : Type}

def loadRow : Driver φ (Except String (Option AgentMove)) := Task.effect Effect.row

def checkpoint (row : AgentMove) (clearAbort : Bool) : Driver φ (Except String AgentMove) :=
  Task.effect (Effect.checkpoint row clearAbort)

def activation (row : AgentMove) : Driver φ (Except String AgentMove) := Task.effect (Effect.activation row)

def readMoveRecord : Driver φ (Except RecordError (RecordReply MoveRecord)) := Task.effect Effect.readMove

def readClaimRecord : Driver φ (Except RecordError (RecordReply AgentClaim)) := Task.effect Effect.readClaim

def sendMove (request : CasRequest MoveRecord) : Driver φ (Except RecordError Nat) :=
  Task.effect (Effect.casMove request)

def sendClaim (request : CasRequest AgentClaim) : Driver φ (Except RecordError Nat) :=
  Task.effect (Effect.casClaim request)

def call (moduleId : String) (op : ParticipantOp) : Driver φ (Except ClientError ParticipantReply) :=
  Task.effect (Effect.call moduleId op)

def ask (question : Question) : Driver φ question.Reply := Task.effect (Effect.ask question)

def clock : Driver φ Int := ask .clock

def editRow (change : AgentMove → AgentMove) : Driver φ Unit :=
  Task.edit fun l => { l with row := change l.row }

def editMemory (change : Memory → Memory) : Driver φ Unit :=
  Task.edit fun l => { l with memory := change l.memory }

def row : Driver φ AgentMove := do
  let l ← Task.look
  return l.row

def memory : Driver φ Memory := do
  let l ← Task.look
  return l.memory

/-- One write, resent once as it was when no answer came. -/
def cas {β : Type} (send : CasRequest β → Driver φ (Except RecordError Nat)) (request : CasRequest β) :
    Driver φ (Except RecordError Nat) := do
  match ← send request with
  | .error .noReply => send request
  | answer => return answer

/-- Settles a write by its answer, or by a read of the subject where the answer
leaves it open. -/
def casSettled {β γ : Type} [DecidableEq γ] (send : CasRequest β → Driver φ (Except RecordError Nat))
    (read : Driver φ (Except RecordError (RecordReply β))) (author : String)
    (decode : β → Except String γ) (request : CasRequest β) :
    Driver φ (Except RecordError (RecordClient.CasSettlement β)) := do
  let answer ← cas send request
  if RecordClient.unsettled answer then
    let reply ← read
    return RecordClient.casSettled answer reply author request.body decode
  else return RecordClient.casSettled answer (.error .noReply) author request.body decode

/-- Saves the row as the worker does: the stored row becomes the driver's, and
then the gauges are read. -/
def save (failure : String → φ) (clearAbort : Bool) : Driver φ Unit := do
  let current ← row
  match ← checkpoint current clearAbort with
  | .error code => Task.fail (failure code)
  | .ok saved =>
    editRow fun _ => saved
    match ← ask .gauges with
    | .error code => Task.fail (failure code)
    | .ok () => return ()

/-- The wait before another attempt, in milliseconds. -/
def backoff (attempts : Nat) : Int := min (2 ^ min (attempts - 1) 9) 300 * 1000

end Calls
end Entorhinal.Move
