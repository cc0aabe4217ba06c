import Entorhinal.MoveWorld

/-! The receiver's half of a move: one pass of its driver, and the pickup of an
inbox entry. -/
namespace Entorhinal.Move.Receiver

open RecordClient (RecordError RecordReply CasSettlement)

structure Failure where
  code : String
  detail : Detail
  reason : Option MoveReason
  diagnostic : Bool
  violation : Bool
  action : Option DriverAction
deriving DecidableEq, Repr

namespace Failure

def hold (code : String) (detail : Detail) : Failure := ⟨code,detail,none,false,false,none⟩

def abort (reason : MoveReason) (detail : Detail) : Failure := { hold "abort" detail with reason := some reason }

def store (code : String) : Failure := hold code ⟨none,none,none,none,none,false⟩

def record (e : RecordError) : Failure := hold e.code ⟨some "record",none,none,none,none,false⟩

def obstacle (o : Obstacle) : Failure :=
  { hold o.code (o.detail.getD ⟨none,none,none,none,none,false⟩) with
    reason := o.reason
    violation := o.violation }

def errorCode : ClientError → String
  | .refused code => code
  | .contractViolation code => code
  | .outcomeUnknown => "unavailable"
  | .invalidReply => "invalid_reply"

/-- A refusal that the contract maps to an abort or to the end of the step
carries the reason the move aborts with. -/
def participant (cut : Cut) (moduleId : String) (op : ParticipantOp) (e : ClientError) : Failure :=
  let code := errorCode e
  let violation := e matches .contractViolation _ | .invalidReply
  let action := cut.participantAction op.method code
  let reason : MoveReason :=
    if code = "local_advanced" ∧ op = .import then .diverged
    else if code = "incompatible_version" then .incompatibleVersion
    else .participantRefused
  { hold code { Detail.of op.method code with moduleId := some moduleId } with
    violation := violation
    action := action
    reason := if !violation ∧ (action = some .abort ∨ action = some .terminalForStep) then some reason
      else none }

def door (e : DoorError) : Failure := hold e.code (Detail.of "cut.takeover" e.code)

end Failure

abbrev Act (α : Type) : Type := Driver Failure α

def editProgress (change : ReceiverProgress → ReceiverProgress) : Act Unit :=
  editRow fun row => { row with receiver := change row.receiver }

def changeStep (step : MoveStep) : Act Unit :=
  editRow fun row => { row with
    step := step
    attempts := 0
    hold := none
    receiver := { row.receiver with retryAtMs := 0 } }

def save : Act Unit := Move.save Failure.store false

def guard (check : LocalCheck) : Act Unit := do
  match ← ask (.guard check) with
  | .error o => Task.fail (.obstacle o)
  | .ok () => return ()

def checkedVersion (version : Nat) : Act Nat :=
  if i64Max < version then Task.fail (.store "record_version_unknown") else return version

def readMove (cut : Cut) : Act (MoveRecord × Nat) := do
  match ← readMoveRecord with
  | .error e => Task.fail (.record e)
  | .ok reply =>
    if reply.stale ∨ reply.absent then
      Task.fail (.hold "unavailable" ⟨some "record.read",none,none,none,none,false⟩)
    else
      let version ← checkedVersion reply.version
      let current ← row
      match verifyRecord cut.encoding cut.cutId current.plan reply.body reply.author with
      | .error e => Task.fail { Failure.hold e.code (Detail.of "record.read" e.code) with diagnostic := true }
      | .ok record => return (record,version)

def client (moduleId : String) : Act Unit := do
  match ← ask (.route moduleId) with
  | .error _ => Task.fail (.hold "participant_unavailable" ⟨some "route.open",none,some moduleId,none,none,false⟩)
  | .ok () => return ()

def skips (p : ReceiverProgress) (moduleId : String) : Bool := p.skippedAbsent.any (·.contains moduleId)

/-- The participants this move calls. -/
def called (row : AgentMove) : List MoveParticipant :=
  row.plan.participants.filter fun p => !skips row.receiver p.moduleId

def absentWithoutRefs (plan : MovePlan) (present : List String) : List String :=
  (plan.participants.filter fun p => p.refs.isEmpty && !present.contains p.moduleId).map (·.moduleId)

def presentModules : Act (List String) := do
  match ← ask .presentModules with
  | .error o => Task.fail (.obstacle o)
  | .ok present => return present

/-- Decides once which absent participants the move leaves out. -/
def decideSkipped (present : List String) : Act Unit := do
  let current ← row
  if current.receiver.skippedAbsent.isNone then
    editProgress fun p => { p with skippedAbsent := some (absentWithoutRefs current.plan present) }
    save
  else return ()

def checkReady (cut : Cut) (participant : MoveParticipant) : Act Unit := do
  guard (.participantReady participant.moduleId)
  client participant.moduleId
  match ← call participant.moduleId .describe with
  | .error e => Task.fail (.participant cut participant.moduleId .describe e)
  | .ok _ => guard (.refKindsKnown participant.moduleId)

def preconditions (cut : Cut) : Act Unit := do
  guard .authorityCutOver
  guard .identityLogEnabled
  guard .catalogPreflight
  let present ← presentModules
  decideSkipped present
  let current ← row
  Task.each (called current) (checkReady cut)
  guard .agentPresent
  guard .localWriters

def clearPending : Act Unit := do
  editProgress fun p => { p with pending := none }
  save

/-- Repeats the call that a restart found pending. -/
def settlePending (cut : Cut) : Act Unit := do
  let current ← row
  match current.receiver.pending with
  | none => return ()
  | some pending =>
    if skips current.receiver pending.moduleId then clearPending
    else if current.plan.participants.any fun p => p.moduleId == pending.moduleId then
      client pending.moduleId
      match ← call pending.moduleId .status with
      | .error e => Task.fail (.participant cut pending.moduleId .status e)
      | .ok _ =>
        if pending.op matches .import | .diverged | .abort | .activate then
          match ← call pending.moduleId pending.op with
          | .error e => Task.fail (.participant cut pending.moduleId pending.op e)
          | .ok _ =>
            editProgress fun p => { p with
              aborted := if pending.op = .abort then p.aborted ++ [pending.moduleId] else p.aborted }
            clearPending
        else clearPending
    else Task.fail (.store "plan_malformed")

/-- Makes a call that is persisted first. Its outcome unknown, it stays pending. -/
def callPersisted (cut : Cut) (moduleId : String) (op : ParticipantOp) : Act ParticipantReply := do
  client moduleId
  editProgress fun p => { p with
    pending := some ⟨moduleId,op⟩
    touched := if op = .diverged ∧ moduleId ∉ p.touched then p.touched ++ [moduleId] else p.touched }
  save
  match ← call moduleId op with
  | .error .outcomeUnknown => Task.fail (.participant cut moduleId op .outcomeUnknown)
  | .error e =>
    clearPending
    Task.fail (.participant cut moduleId op e)
  | .ok reply =>
    clearPending
    return reply

def checkDiverged (cut : Cut) (participant : MoveParticipant) : Act Unit := do
  let reply ← callPersisted cut participant.moduleId .diverged
  if (participant.refs.zip reply.diverged).any fun r => r.2 != .clean then
    Task.fail (.abort .diverged ⟨none,none,some participant.moduleId,none,none,false⟩)
  else return ()

def importData (cut : Cut) (participant : MoveParticipant) : Act Unit := do
  let _ ← callPersisted cut participant.moduleId .import
  return ()

def advancePickedUp (cut : Cut) : Act Unit := do
  settlePending cut
  preconditions cut
  let checked ← row
  Task.each (called checked) (checkDiverged cut)
  -- A host can write while a participant answers, so its writers are checked again.
  guard .localWriters
  guard .catalogPreflight
  let current ← row
  Task.each (called current) (importData cut)
  guard .carriedBindings
  changeStep .imported
  save

def decodeMove (cut : Cut) (body : MoveRecord) : Except String MoveRecord :=
  (decodeMoveRecord cut.encoding cut.cutId body).mapError CodecError.code

/-- The record a transition writes: the plan, and an abort's reason. -/
def moveBody (cut : Cut) (row : AgentMove) (state : MoveRecordState) : MoveRecord :=
  if state = .aborted then ⟨cut.cutId,row.plan,state,row.reason,row.detail.map (boundedDetail cut.encoding)⟩
  else ⟨cut.cutId,row.plan,state,none,none⟩

def casMove (cut : Cut) (before after : MoveRecordState) : Act Unit := do
  match checkTransition (some before) after .receiver with
  | .error e => Task.fail (.store e.code)
  | .ok () =>
    let current ← row
    match encodeMoveRecord cut.encoding cut.cutId (moveBody cut current after) with
    | .error e => Task.fail (.store e.code)
    | .ok encoded =>
      match ← casSettled sendMove readMoveRecord current.plan.toMachine (decodeMove cut)
          ⟨current.recordVersion,encoded,.move cut.cutId .receiver after⟩ with
      | .error e => Task.fail (.record e)
      | .ok (.landed version) =>
        let checked ← checkedVersion version
        editRow fun row => { row with recordVersion := checked }
      | .ok (.moved _) => Task.fail (.hold "version_moved" ⟨some "record.cas",none,none,none,none,false⟩)

def claimMoved (op code : String) : Failure := .abort .claimMoved (Detail.of op code)

def takeFailed {α : Type} (failure : Failure) : Act α := do
  editProgress fun p => { p with takeFailed := true }
  Task.fail failure

/-- The body that takes the claim from what the record holds: none while nobody
holds it, else the source's. -/
def takeBody (cut : Cut) (row : AgentMove) (held : Option AgentClaim) : Except Failure AgentClaim :=
  let epoch := match held with
    | none => 0
    | some claim => claim.epoch
  if i64Max < epoch + 1 then .error (claimMoved "claim.read" "epoch_overflow")
  else .ok ⟨1,row.agentId,some row.plan.toMachine,epoch + 1,some cut.cutId,none⟩

/-- Persists the body and version of the take before it is sent. -/
def persistTake (cut : Cut) (held : Option AgentClaim) : Act Unit := do
  let current ← row
  match takeBody cut current held with
  | .error f => Task.fail f
  | .ok take =>
    let version ← checkedVersion current.plan.claimVersion
    editRow fun row => { row with claimTakeBody := some take, claimTakeVersion := some version }
    save

def prepareTake (cut : Cut) : Act Unit := do
  match ← readClaimRecord with
  | .error e => Task.fail (.record e)
  | .ok reply =>
    let current ← row
    if reply.stale then Task.fail (.hold "unavailable" ⟨some "claim.read",none,none,none,none,false⟩)
    else if reply.version ≠ current.plan.claimVersion then
      takeFailed (claimMoved "claim.read" "claim_moved")
    else if reply.absent then persistTake cut none
    else match decodeClaim current.agentId reply.body with
      | .error code => Task.fail (claimMoved "claim.read" code)
      | .ok claim =>
        if 1 ≤ claim.epoch ∧ claim.holder ≠ some current.plan.fromMachine then
          takeFailed (claimMoved "claim.read" "claim_moved")
        else persistTake cut (some claim)

def holds (agentId machine : String) (body : Option AgentClaim) : Bool :=
  match decodeClaim agentId body with
  | .ok claim => claim.holder == some machine
  | .error _ => false

/-- Sends the persisted take. -/
def sendTake (cut : Cut) : Act Unit := do
  let current ← row
  match current.claimTakeVersion, current.claimTakeBody with
  | none, _ => Task.fail (claimMoved "claim.cas" "take_version_missing")
  | some _, none => Task.fail (.store "take_body_missing")
  | some version, some body =>
    match ← casSettled sendClaim readClaimRecord current.plan.toMachine
        (AgentClaim.decode current.agentId) ⟨version,body,.claim cut.cutId .take⟩ with
    | .error e => Task.fail (.record e)
    | .ok (.landed version) =>
      let landed ← checkedVersion version
      editRow fun row => { row with claimLandedVersion := some landed }
      save
    | .ok (.moved reply) =>
      if holds current.agentId current.plan.toMachine reply.body then
        Task.fail { Failure.hold "claim_moved" ⟨some "claim.cas",none,none,none,none,false⟩ with
          diagnostic := true }
      else takeFailed (claimMoved "claim.cas" "claim_moved")

def takeClaim (cut : Cut) : Act Unit := do
  let current ← row
  if current.claimLandedVersion.isSome then return ()
  else if current.claimTakeBody.isNone then
    prepareTake cut
    sendTake cut
  else sendTake cut

def returned (plan : MovePlan) (take : AgentClaim) : AgentClaim :=
  { take with
    holder := some plan.fromMachine
    cutId := none
    epoch := take.epoch + 1 }

def returnClaim (cut : Cut) : Act Unit := do
  let current ← row
  match current.claimLandedVersion, current.claimTakeBody with
  | none, _ => return ()
  | some _, none => Task.fail (.store "take_body_missing")
  | some version, some take =>
    if i64Max < take.epoch + 1 then Task.fail (.store "epoch_overflow")
    else
      match ← casSettled sendClaim readClaimRecord current.plan.toMachine
          (AgentClaim.decode current.agentId)
          ⟨version,returned current.plan take,.claim cut.cutId .return⟩ with
      | .error e => Task.fail (.record e)
      | .ok (.landed _) => return ()
      | .ok (.moved reply) =>
        if !reply.stale ∧ holds current.agentId current.plan.fromMachine reply.body then return ()
        else Task.fail (.hold "claim_moved" ⟨some "claim.return",none,none,none,none,false⟩)

def applyClaim : Act Unit := do
  match ← readClaimRecord with
  | .error e => Task.fail (.record e)
  | .ok reply =>
    let current ← row
    if reply.stale then Task.fail (.hold "unavailable" ⟨some "claim.read",none,none,none,none,false⟩)
    else if reply.absent then cache
    else match decodeClaim current.agentId reply.body with
      | .error code => Task.fail (.hold code ⟨some "claim.read",none,none,none,none,false⟩)
      | .ok _ => do
        let _ ← checkedVersion reply.version
        cache
where
  cache : Act Unit := do
    match ← ask .cacheClaims with
    | .error code => Task.fail (.store code)
    | .ok () => return ()

def removeInbox : Act Unit := do
  match ← ask .removeInbox with
  | .error code => Task.fail (.store code)
  | .ok () => return ()

def advanceImported (cut : Cut) (observed : MoveRecord) : Act Unit := do
  guard .catalogPreflight
  if observed.state = .published then
    casMove cut .published .staged
    changeStep .staged
    save
  else if observed.state = .staged then
    changeStep .staged
    save
  else Task.fail (.store "invalid_state")

def advanceStaged (cut : Cut) (observed : MoveRecord) : Act Unit := do
  guard .catalogPreflight
  takeClaim cut
  -- This write can lose to an abort; cleanup then returns the claim.
  if observed.state ≠ .claimed then
    casMove cut .staged .claimed
    finish
  else finish
where
  finish : Act Unit := do
    changeStep .claimed
    save
    applyClaim

def advanceClaimed : Act Unit := do
  applyClaim
  guard .localWriters
  changeStep .activating
  save

def activateParticipant (cut : Cut) (participant : MoveParticipant) : Act Unit := do
  let _ ← callPersisted cut participant.moduleId .activate
  return ()

def finishActivation : Act Unit := do
  let now ← clock
  let current ← row
  let next := { current with
    step := .activated
    attempts := 0
    hold := none
    receiver := { current.receiver with retryAtMs := 0 }
    activatedAtMs := some now }
  guard .carriedBindings
  match ← activation next with
  | .error code => Task.fail (.store code)
  | .ok activated =>
    editRow fun _ => activated
    match ← ask .gauges with
    | .error code => Task.fail (.store code)
    | .ok () => removeInbox

def advanceActivating (cut : Cut) (observed : MoveRecord) : Act Unit := do
  settlePending cut
  let current ← row
  Task.each (called current) (activateParticipant cut)
  -- The participants are called again even when the write landed before a crash.
  if observed.state = .claimed then
    casMove cut .claimed .activated
    finishActivation
  else if observed.state = .activated ∨ observed.state = .released then finishActivation
  else Task.fail (.store "invalid_state")

def takeoverState : Act TakeoverState := do
  let current ← row
  if current.receiver.takeoverSent then
    match ← ask .takeoverStatus with
    | .error e => Task.fail (.door e)
    | .ok state => return state.getD .notStarted
  else return .notStarted

def takeover (state : TakeoverState) : Act TakeoverState := do
  if state = .notStarted ∨ state = .failed then
    editProgress fun p => { p with takeoverSent := true }
    save
    match ← ask .takeover with
    | .error e => Task.fail (.door e)
    | .ok state => return state
  else return state

def advanceActivated : Act Unit := do
  removeInbox
  let current ← row
  match current.activatedAtMs with
  | none => Task.fail (.store "activated_time_missing")
  | some activated =>
    let now ← clock
    if now < activated + 600000 then return ()
    else
      let before ← takeoverState
      let after ← takeover before
      match after with
      | .taken =>
        changeStep .takenOver
        save
      | .failed => Task.fail (.hold "failed" ⟨some "cut.takeover",none,none,none,none,false⟩)
      | _ => return ()

def advance (cut : Cut) (observed : MoveRecord) : Act Unit := do
  let current ← row
  match current.step with
  | .pickedUp => advancePickedUp cut
  | .imported => advanceImported cut observed
  | .staged => advanceStaged cut observed
  | .claimed => advanceClaimed
  | .activating => advanceActivating cut observed
  | .activated => advanceActivated
  | _ => return ()

/-- The participants' absence is decided before any call of the cleanup. -/
def decideAbsent : Act Unit := do
  let current ← row
  if current.receiver.skippedAbsent.isNone then
    let present ← presentModules
    decideSkipped present
  else return ()

/-- A take without a known outcome is settled first. The persisted failure flag
does not prove that an unanswered take lost. -/
def reconcileTake (cut : Cut) : Act Unit := do
  let current ← row
  if current.claimTakeBody.isSome ∧ current.claimLandedVersion.isNone then
    match ← (takeClaim cut).attempt with
    | .ok () => return ()
    | .error f =>
      let after ← row
      if f.reason ≠ some .claimMoved ∨ !after.receiver.takeFailed then Task.fail f else return ()
  else return ()

/-- Refuses to finish an abort while the record names this machine as holder. -/
def checkReturned : Act Unit := do
  match ← readClaimRecord with
  | .error e => Task.fail (.record e)
  | .ok reply =>
    let current ← row
    if reply.stale then Task.fail (.hold "unavailable" ⟨some "claim.cleanup.read",none,none,none,none,false⟩)
    else if reply.absent then return ()
    else match decodeClaim current.agentId reply.body with
      | .error code => Task.fail (.hold code ⟨some "claim.cleanup.read",none,none,none,none,false⟩)
      | .ok claim =>
        if claim.holder = some current.plan.toMachine then
          Task.fail (.hold "claim_moved" ⟨some "claim.cleanup.read",none,none,none,none,false⟩)
        else return ()

/-- A participant that was never called for this cut, because it is missing or
does not know a reference kind, is not asked to abort. -/
def neverCalled (row : AgentMove) (moduleId : String) : Bool :=
  !row.receiver.touched.contains moduleId && row.detail.any fun d =>
    d.moduleId == some moduleId &&
      (d.absent || (d.code == some "participant_unavailable" && d.refKind.isSome))

def abortParticipant (cut : Cut) (participant : MoveParticipant) : Act Unit := do
  let current ← row
  if participant.moduleId ∈ current.receiver.aborted ∨ neverCalled current participant.moduleId then
    return ()
  else
    client participant.moduleId
    editProgress fun p => { p with pending := some ⟨participant.moduleId,.abort⟩ }
    save
    match ← call participant.moduleId .abort with
    | .error e => Task.fail (.participant cut participant.moduleId .abort e)
    | .ok _ =>
      editProgress fun p => { p with pending := none, aborted := p.aborted ++ [participant.moduleId] }
      save

def publishAborted (cut : Cut) : Act Unit := do
  let (record,version) ← readMove cut
  editRow fun row => { row with recordVersion := version }
  if record.state ≠ .aborted then casMove cut record.state .aborted else return ()

def adoptRequest : Act Unit := do
  let current ← row
  match current.abortRequested with
  | none => Task.fail (.store "abort_request_missing")
  | some request => editRow fun row => { row with reason := request.reason, detail := request.detail }

def cleanup (cut : Cut) : Act Unit := do
  decideAbsent
  settlePending cut
  adoptRequest
  reconcileTake cut
  returnClaim cut
  checkReturned
  let current ← row
  Task.each (called current) (abortParticipant cut)
  -- The source may unfreeze as soon as it reads the abort, so it is written last.
  publishAborted cut
  applyClaim
  removeInbox
  changeStep .aborted
  save

def beforeBoundary (row : AgentMove) : Bool := row.step.beforeBoundary .receiver

/-- Records a pass that failed. Past the boundary a failure never aborts. -/
def failed (cleaning : Bool) (f : Failure) : Act Unit := do
  let current ← row
  if !f.violation ∧ f.detail.op = some ParticipantOp.abort.method ∧ f.action = some .retryAfterOperator then
    editMemory fun m => { m with abortHeld := true }
    let stuck := { f.detail with state := some "stuck" }
    editRow fun row => { row with
      detail := some stuck
      hold := some stuck
      receiver := { row.receiver with retryAtMs := 0 } }
    save
  else
    let reason := if beforeBoundary current then f.reason else none
    if !beforeBoundary current ∧ f.action = some .terminalForStep then
      editRow fun row => { row with
        detail := some f.detail
        receiver := { row.receiver with activationFork := some f.detail } }
      record reason
    else record reason
where
  record (reason : Option MoveReason) : Act Unit := do
    editProgress fun p => { p with
      contractViolation := if f.violation then some f.detail else p.contractViolation }
    let now ← clock
    match reason with
    | some reason =>
      editRow fun row => { row with
        reason := some reason
        detail := some f.detail
        abortRequested := some ⟨some reason,some f.detail,false⟩
        attempts := if cleaning then row.attempts + 1 else row.attempts
        receiver := { row.receiver with
          retryAtMs := if cleaning then now + backoff (row.attempts + 1) else 0 } }
      save
    | none =>
      editRow fun row => { row with
        attempts := row.attempts + 1
        hold := some { f.detail with code := some f.code }
        receiver := { row.receiver with retryAtMs := now + backoff (row.attempts + 1) } }
      save

/-- Reads the record and takes over an abort it shows. None ends the pass here. -/
def observe (cut : Cut) : Act (Option MoveRecord) := do
  let (observed,version) ← readMove cut
  editRow fun row => { row with recordVersion := version }
  noticeAborted observed
  let current ← row
  let kept ← memory
  if current.receiver.contractViolation.isSome ∨ current.receiver.activationFork.isSome ∨ kept.abortHeld then
    return none
  else if current.step = .activated ∧ observed.state = .released then
    changeStep .done
    save
    return none
  else
    let now ← clock
    if now < current.receiver.retryAtMs then return none else return some observed
where
  noticeAborted (observed : MoveRecord) : Act Unit := do
    let current ← row
    if observed.state = .aborted ∧ beforeBoundary current ∧ current.abortRequested.isNone then
      editRow fun row => { row with
        reason := observed.reason
        detail := observed.detail
        abortRequested := some ⟨observed.reason,observed.detail,false⟩ }
      save
    else return ()

def tick (cut : Cut) : Act Unit := do
  let loaded ← row
  if loaded.step.isTerminal then return ()
  else
    match ← (observe cut).attempt with
    | .error f => failed false f
    | .ok none => return ()
    | .ok (some observed) =>
      let current ← row
      let cleaning := current.abortRequested.isSome && beforeBoundary current
      let work := if cleaning then cleanup cut else advance cut observed
      match ← work.attempt with
      | .ok () => return ()
      | .error f => failed cleaning f

section Pickup

def pickupRow (record : MoveRecord) (entry : PendingMove) (version : Nat) : AgentMove where
  cutId := record.cutId
  agentId := entry.agentId
  side := .receiver
  step := .pickedUp
  plan := record.plan
  source := .default
  receiver := .default
  cutRelease := none
  recordVersion := version
  claimTakeBody := none
  claimTakeVersion := none
  claimLandedVersion := none
  sealSent := false
  abortRequested := none
  hold := none
  cutAccept := none
  reason := none
  detail := none
  attempts := 0
  activatedAtMs := none

/-- The row of an entry whose names do not agree is stored as aborted. -/
def admittedRow (record : MoveRecord) (entry : PendingMove) (reply : RecordReply MoveRecord)
    (doorAuthor : String) : AgentMove :=
  let row := pickupRow record entry reply.version
  if reply.author ≠ some entry.fromMachine ∨ record.plan.fromMachine ≠ entry.fromMachine ∨
      doorAuthor ≠ entry.fromMachine ∨ record.plan.agentId ≠ entry.agentId then
    { row with step := .aborted, reason := some .cutAuthorMismatch }
  else row

def admission (row : AgentMove) : Act (Except String AgentMove) := Task.effect (Effect.admission row)

def admitEntry (record : MoveRecord) (entry : PendingMove) (reply : RecordReply MoveRecord) : Act Unit := do
  match ← ask .freeSlot with
  | .error code => Task.fail (.store code)
  | .ok false => return ()
  | .ok true => match ← ask .doorRead with
    | .error (.refused code) =>
      if ["not_found","cut_aborted","invalid_request","id_reused"].contains code then removeInbox
      else Task.fail (.store code)
    | .error e => Task.fail (.store e.code)
    | .ok author =>
      if i64Max < record.plan.claimVersion ∨ i64Max < reply.version then removeInbox
      else match ← admission (admittedRow record entry reply author) with
        | .ok row => if row.step = .aborted then removeInbox else return ()
        | .error code =>
          if code = "move_in_progress" ∨ code = "move_cap" then return () else Task.fail (.store code)

def readEntry (cut : Cut) (entry : PendingMove) (existing : Option AgentMove) : Act Unit := do
  match ← readMoveRecord with
  | .error e => Task.fail (.record e)
  | .ok reply =>
    if reply.stale then return ()
    else if reply.absent then removeInbox
    else match decodeBody cut.encoding cut.cutId reply.body with
      | .error _ => removeInbox
      | .ok record =>
        if record.plan.toMachine ≠ cut.toMachine ∨ record.state = .aborted ∨ record.state = .released then
          removeInbox
        else if existing.isSome ∨ record.state ≠ .published then return ()
        else admitEntry record entry reply

/-- Handles one inbox entry that names this cut. -/
def pollEntry (cut : Cut) (entry : PendingMove) : Act Unit := do
  match ← loadRow with
  | .error code => Task.fail (.store code)
  | .ok existing =>
    if existing.any fun row => row.step.isTerminal || row.step == .activated then removeInbox
    else readEntry cut entry existing

end Pickup
end Entorhinal.Move.Receiver
