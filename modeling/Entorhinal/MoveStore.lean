import Entorhinal.MoveRecord
import Entorhinal.RoleCache

/-! The local checkpoint of a move and the transactions that change it. -/
namespace Entorhinal.Move

structure AgentClaim where
  v : Nat
  agentId : String
  holder : Option String
  epoch : Int
  cutId : Option String
  reason : Option String
deriving DecidableEq, Repr

def AgentClaim.decode (id : String) (claim : AgentClaim) : Except String AgentClaim :=
  if claim.v ≠ 1 then .error "claim_version_unknown"
  else if claim.epoch < i64Min ∨ i64Max < claim.epoch then .error "claim_malformed"
  else if claim.agentId ≠ id then .error "claim_subject_mismatch"
  else if claim.epoch < 0 ∨ (1 ≤ claim.epoch ∧ claim.holder.isNone) ∨
      claim.holder.any (fun holder => !RoleCache.validAuthor holder) then .error "claim_malformed"
  else .ok claim

/-- A reply without a body reads as empty bytes. -/
def decodeClaim (id : String) : Option AgentClaim → Except String AgentClaim
  | none => .error "claim_malformed"
  | some body => AgentClaim.decode id body

theorem AgentClaim.decode_ok {id : String} {body claim : AgentClaim}
    (decoded : AgentClaim.decode id body = .ok claim) : claim = body := by
  unfold AgentClaim.decode at decoded
  split at decoded
  next => cases decoded
  split at decoded
  next => cases decoded
  split at decoded
  next => cases decoded
  split at decoded
  next => cases decoded
  next => cases decoded; rfl

theorem decodeClaim_ok {id : String} {body : Option AgentClaim} {claim : AgentClaim}
    (decoded : decodeClaim id body = .ok claim) : body = some claim := by
  cases body with
  | none => cases decoded
  | some found => rw [AgentClaim.decode_ok decoded]

theorem decodeClaim_epoch {id : String} {body : Option AgentClaim} {claim : AgentClaim}
    (decoded : decodeClaim id body = .ok claim) : 0 ≤ claim.epoch := by
  cases body with
  | none => cases decoded
  | some found =>
    have same := AgentClaim.decode_ok decoded
    subst same
    simp only [decodeClaim,AgentClaim.decode] at decoded
    split at decoded
    next => cases decoded
    split at decoded
    next => cases decoded
    split at decoded
    next => cases decoded
    split at decoded
    next => cases decoded
    next valid => exact not_lt.mp fun negative => valid (.inl negative)

inductive ParticipantOp
  | describe
  | busy
  | prepare
  | export
  | status
  | diverged
  | import
  | activate
  | abort
  | release
deriving DecidableEq, Repr

def ParticipantOp.method : ParticipantOp → String
  | .describe => "agent_data.describe"
  | .busy => "agent_data.busy"
  | .prepare => "agent_data.prepare"
  | .export => "agent_data.export"
  | .status => "agent_data.status"
  | .diverged => "agent_data.diverged"
  | .import => "agent_data.import"
  | .activate => "agent_data.activate"
  | .abort => "agent_data.abort"
  | .release => "agent_data.release"

structure PendingCall where
  moduleId : String
  op : ParticipantOp
deriving DecidableEq, Repr

structure CutItem where
  sessionRef : String
  stream : String
  endOffset : Nat
  digest : String
deriving DecidableEq, Repr

inductive SealState
  | pending
  | published
  | failed
  | aborted
deriving DecidableEq, Repr

inductive HandoffState
  | notStarted
  | inProgress
  | released
  | takenOver
  | aborted
  | failed
deriving DecidableEq, Repr

structure SourceProgress where
  aborted : List String
  prepared : Bool
  items : List CutItem
  pending : Option PendingCall
  retryAtMs : Int
  sealState : Option SealState
  handoffState : Option HandoffState
  contractViolation : Option Detail
  sealRefused : Option String
deriving DecidableEq, Repr, Inhabited

def SourceProgress.default : SourceProgress := ⟨[],false,[],none,0,none,none,none,none⟩

structure ReceiverProgress where
  aborted : List String
  touched : List String
  retryAtMs : Int
  pending : Option PendingCall
  takeFailed : Bool
  contractViolation : Option Detail
  activationFork : Option Detail
  takeoverSent : Bool
  skippedAbsent : Option (List String)
deriving DecidableEq, Repr, Inhabited

def ReceiverProgress.default : ReceiverProgress := ⟨[],[],0,none,false,none,none,false,none⟩

structure AbortRequest where
  reason : Option MoveReason
  detail : Option Detail
  retryPending : Bool
deriving DecidableEq, Repr

/-- A call that another task repeats after the move: its state and schedule. -/
structure Background where
  state : String
  attempts : Nat
  retryAtMs : Int
deriving DecidableEq, Repr

def Background.pending : Background := ⟨"pending",0,0⟩

/-- A durable move checkpoint. The plan is one JSON object; the progress of the
side that drives it and the release's schedule stand inside it. -/
structure AgentMove where
  cutId : String
  agentId : String
  side : MoveSide
  step : MoveStep
  plan : MovePlan
  source : SourceProgress
  receiver : ReceiverProgress
  cutRelease : Option Background
  recordVersion : Nat
  claimTakeBody : Option AgentClaim
  claimTakeVersion : Option Nat
  claimLandedVersion : Option Nat
  sealSent : Bool
  abortRequested : Option AbortRequest
  hold : Option Detail
  cutAccept : Option Background
  reason : Option MoveReason
  detail : Option Detail
  attempts : Nat
  activatedAtMs : Option Int
deriving DecidableEq, Repr, Inhabited

def AgentMove.abortStuck (row : AgentMove) : Bool :=
  row.abortRequested.isSome && row.hold.any fun h =>
    h.state == some "stuck" && h.op == some ParticipantOp.abort.method

/-- Takes over what other tasks keep in the row. -/
def AgentMove.keepBackground (next current : AgentMove) : AgentMove :=
  { next with
    cutAccept := current.cutAccept
    cutRelease := match current.cutRelease with
      | some release => some release
      | none =>
        if next.side = .source ∧ next.step = .aborted ∧ next.sealSent ∧ next.source.sealRefused.isNone
        then some .pending else next.cutRelease }

/-- Writes a driver's row over the stored one. An accepted abort wins the race
with entry into the irreversible boundary. -/
def checkpointAgentMove (current row : AgentMove) (clearAbort : Bool) : AgentMove :=
  if row.step = .activating ∧ current.step = .claimed ∧ current.abortRequested.isSome then current
  else
    let abort :=
      if clearAbort then none
      else if current.abortRequested.isSome then current.abortRequested
      else row.abortRequested
    AgentMove.keepBackground { row with abortRequested := abort } current

def requestAgentMoveAbort (row : AgentMove) : Except String AgentMove :=
  if row.step = .aborted then .ok row
  else if !row.step.beforeBoundary row.side then .error "invalid_state"
  else if row.abortStuck then .ok { row with
    abortRequested := row.abortRequested.map fun request => { request with retryPending := true } }
  else if row.abortRequested.isSome then .ok row
  else .ok { row with abortRequested := some ⟨some .operator,none,false⟩ }

def consumeMoveAbortRetry (row : AgentMove) : AgentMove × Bool :=
  match row.abortRequested with
  | some request => if request.retryPending then
      ({ row with abortRequested := some { request with retryPending := false } },true)
    else (row,false)
  | none => (row,false)

/-- The activation checkpoint. Whether another agent owns one of the references
is the store's to say. -/
def activateAgentMove (current row : AgentMove) (boundElsewhere : Bool) : Except String AgentMove :=
  if current.side ≠ .receiver ∨ current.step ≠ .activating ∨ row.step ≠ .activated ∨
      row.activatedAtMs.isNone then .error "invalid_state"
  else if boundElsewhere then .error "ref_bound_elsewhere"
  else .ok { row with
    abortRequested := current.abortRequested
    cutAccept := some .pending
    cutRelease := some .pending }

/-- A row from the inbox is inserted once; a second one for the cut returns the
first. -/
def admitReceivedMove (stored : Option AgentMove) (row : AgentMove) (slotFree : Bool) :
    Except String AgentMove :=
  if row.side ≠ .receiver ∨ (row.step ≠ .pickedUp ∧ row.step ≠ .aborted) then .error "invalid_request"
  else match stored with
    | some existing => .ok existing
    | none => if slotFree then .ok row else .error "move_in_progress"

/-- What a checkpoint leaves in the store: the row that was there, where the
boundary was refused, or the driver's row with the abort that stands. -/
theorem checkpointAgentMove_cases (current row : AgentMove) (clearAbort : Bool) :
    (row.step = .activating ∧ current.step = .claimed ∧ current.abortRequested.isSome = true ∧
      checkpointAgentMove current row clearAbort = current) ∨
    (¬ (row.step = .activating ∧ current.step = .claimed ∧ current.abortRequested.isSome = true) ∧
      ∃ abort, checkpointAgentMove current row clearAbort =
        AgentMove.keepBackground { row with abortRequested := abort } current ∧
      (clearAbort = true → abort = none) ∧
      (clearAbort = false → (current.abortRequested.isSome = true ∨ row.abortRequested.isSome = true ↔
        abort.isSome = true))) := by
  unfold checkpointAgentMove
  split
  next refused => exact .inl ⟨refused.1,refused.2.1,refused.2.2,rfl⟩
  next allowed =>
    refine .inr ⟨allowed,_,rfl,fun clear => by simp [clear],fun keep => ?_⟩
    cases current.abortRequested <;> simp [keep]

/-- An abort request changes the abort column alone, and never empties it. -/
theorem requestAgentMoveAbort_ok {row row' : AgentMove} (requested : requestAgentMoveAbort row = .ok row') :
    row' = row ∨ (row.step.beforeBoundary row.side = true ∧ ∃ request,
      row' = { row with abortRequested := some request }) := by
  unfold requestAgentMoveAbort at requested
  split at requested
  next => cases requested; exact .inl rfl
  split at requested
  next => cases requested
  next before =>
    have boundary : row.step.beforeBoundary row.side = true := by simpa using before
    split at requested
    next stuck =>
      cases requested
      cases asked : row.abortRequested with
      | none => simp [AgentMove.abortStuck,asked] at stuck
      | some request => exact .inr ⟨boundary,_,rfl⟩
    split at requested
    next => cases requested; exact .inl rfl
    next => cases requested; exact .inr ⟨boundary,_,rfl⟩

theorem consumeMoveAbortRetry_cases (row : AgentMove) :
    (consumeMoveAbortRetry row).1 = row ∨ (row.abortRequested.isSome = true ∧ ∃ request,
      (consumeMoveAbortRetry row).1 = { row with abortRequested := some request }) := by
  unfold consumeMoveAbortRetry
  split
  next request asked =>
    split
    next => exact .inr ⟨by simp [asked],_,rfl⟩
    next => exact .inl rfl
  next => exact .inl rfl

end Entorhinal.Move
