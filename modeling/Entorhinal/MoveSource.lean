import Entorhinal.MoveWorld

/-! The source's half of a move: one pass of its driver. -/
namespace Entorhinal.Move.Source

open RecordClient (RecordError CasSettlement)

structure Failure where
  code : String
  op : String
  moduleId : Option String
  diagnostic : Bool
  unknown : Bool
  contractViolation : Bool
  refused : Bool
deriving DecidableEq, Repr

namespace Failure

def new (op code : String) : Failure := ⟨code,op,none,false,false,false,false⟩

def participant (op : ParticipantOp) (moduleId : String) : ClientError → Failure
  | .refused code => ⟨code,op.method,some moduleId,false,false,false,true⟩
  | .contractViolation code => ⟨code,op.method,some moduleId,false,false,true,true⟩
  | .outcomeUnknown => ⟨"unavailable",op.method,some moduleId,false,true,false,false⟩
  | .invalidReply => ⟨"unavailable",op.method,some moduleId,false,true,false,false⟩

def door (op : String) : DoorError → Failure
  | .refused code => { new op code with refused := true }
  | .outcomeUnknown => { new op "unavailable" with unknown := true }
  | .invalidReply => { new op "unavailable" with unknown := true }

def store (code : String) : Failure := { new "store" code with diagnostic := true }

def record (e : RecordError) : Failure := { new "record.read" e.code with diagnostic := true }

def detail (f : Failure) : Detail := { Detail.of f.op f.code with moduleId := f.moduleId }

def action (cut : Cut) (f : Failure) : Option DriverAction :=
  f.moduleId.bind fun _ => cut.participantAction f.op f.code

def retryable (cut : Cut) (f : Failure) : Bool :=
  !f.contractViolation && match f.moduleId with
    | some _ => f.action cut == some .retryWithinStep || f.action cut == some .retry
    | none => ["cut_not_ready","unavailable","handoff_not_covered"].contains f.code

/-- The reason an abort is recorded under. -/
def reason (f : Failure) : MoveReason :=
  if f.op.startsWith "cut." then .doorRefused
  else if f.code = "move_too_large" then .moveTooLarge
  else if f.code = "inbox_full" then .receiverInboxFull
  else .participantRefused

end Failure

abbrev Act (α : Type) : Type := Driver Failure α

def planRecord (cut : Cut) (row : AgentMove) : MoveRecord := ⟨cut.cutId,row.plan,.published,none,none⟩

def editProgress (change : SourceProgress → SourceProgress) : Act Unit :=
  editRow fun row => { row with source := change row.source }

def changeStep (step : MoveStep) : Act Unit :=
  editRow fun row => { row with
    step := step
    attempts := 0
    hold := none
    source := { row.source with retryAtMs := 0 } }

def save (clear : Bool) : Act Unit := Move.save Failure.store clear

def readMove (cut : Cut) : Act (Option (MoveRecord × Nat)) := do
  match ← readMoveRecord with
  | .error e => Task.fail (.record e)
  | .ok reply =>
    if reply.stale then Task.fail (.record (.refused "unavailable"))
    else if i64Max < reply.version then
      Task.fail { Failure.new "record.read" "record_version_unknown" with diagnostic := true }
    else if reply.absent then return none
    else
      let current ← row
      match verifyRecord cut.encoding cut.cutId current.plan reply.body reply.author with
      | .error e => Task.fail { Failure.new "record.read" e.code with diagnostic := true }
      | .ok record => return some (record,reply.version)

def client (moduleId : String) : Act Unit := do
  match ← ask (.route moduleId) with
  | .error code => Task.fail { Failure.new "route.open" code with moduleId := some moduleId }
  | .ok () => return ()

/-- Persists the call about to be made. -/
def begin (moduleId : String) (op : ParticipantOp) : Act Unit := do
  client moduleId
  editProgress fun p => { p with pending := some ⟨moduleId,op⟩ }
  save false

def clearPending : Act Unit := do
  editProgress fun p => { p with pending := none }
  save false

/-- A call whose outcome is known is no longer pending. -/
def settled (op : ParticipantOp) (moduleId : String) :
    Except ClientError ParticipantReply → Act ParticipantReply
  | .ok reply => do
    clearPending
    return reply
  | .error e => do
    let failure := Failure.participant op moduleId e
    if failure.unknown then Task.fail failure
    else
      clearPending
      Task.fail failure

def abortAsked : Act Bool := do
  let current ← row
  return current.abortRequested.isSome

/-- Prepares the participants one after the other; none when an abort was asked
for on the way. -/
def prepareAll : List MoveParticipant → List MoveParticipant → List CutItem →
    Act (Option (List MoveParticipant × List CutItem))
  | [], participants, items => return some (participants,items)
  | participant :: rest, participants, items => do
    begin participant.moduleId .prepare
    let answer ← call participant.moduleId .prepare
    let reply ← settled .prepare participant.moduleId answer
    if ← abortAsked then return none
    else
      let prepared := { participant with external := reply.external }
      prepareAll rest (participants ++ [prepared]) (items ++ reply.items)

def exportAll : List MoveParticipant → Act Unit
  | [] => return ()
  | participant :: rest => do
    begin participant.moduleId .export
    let answer ← call participant.moduleId .export
    let _ ← settled .export participant.moduleId answer
    if ← abortAsked then return ()
    else exportAll rest

def freezeExport (cut : Cut) : Act Unit := do
  let before ← row
  match ← prepareAll before.plan.participants [] [] with
  | none => return ()
  | some (participants,items) =>
    let current ← row
    if current.source.prepared ∧ (participants ≠ current.plan.participants ∨ items ≠ current.source.items)
    then Task.fail { Failure.new "agent_data.prepare" "plan_mismatch" with diagnostic := true }
    else
      editRow fun row => { row with
        plan := { row.plan with participants := participants }
        source := { row.source with items := items, prepared := true } }
      save false
      let prepared ← row
      match encodeMoveRecord cut.encoding cut.cutId (planRecord cut prepared) with
      | .error e => Task.fail (Failure.new "move.encode" e.code)
      | .ok _ => exportAll prepared.plan.participants

def doorSeal : Act SealState := do
  let current ← row
  match ← ask (.seal current.source.items) with
  | .error e => Task.fail (.door "cut.seal" e)
  | .ok state => return state

def doorStatus : Act SealState := do
  match ← ask .sealStatus with
  | .error e => Task.fail (.door "cut.status" e)
  | .ok state => return state

def resealIfSent : Act Unit := do
  let current ← row
  if current.sealSent then
    let _ ← doorSeal
    return ()
  else return ()

/-- A restarted driver repeats the frozen export and the seal before it goes on.
False when an abort was asked for meanwhile. -/
def resume (cut : Cut) : Act Bool := do
  let current ← row
  let kept ← memory
  if !kept.resumed ∧ (current.step = .exported ∨ current.step = .sealed) then
    freezeExport cut
    if ← abortAsked then return false
    else
      resealIfSent
      editMemory fun m => { m with resumed := true }
      return true
  else return true

/-- `seal_sent` is durable before the send. A resend repeats the same seal. -/
def sealState : Act SealState := do
  let current ← row
  if !current.sealSent then
    editRow fun row => { row with sealSent := true }
    save false
    doorSeal
  else
    let _ ← doorSeal
    doorStatus

def advanceExported : Act Unit := do
  let status ← sealState
  editRow fun row => { row with
    attempts := if row.source.sealState = some status then row.attempts else 0
    source := { row.source with
      retryAtMs := if row.source.sealState = some status then row.source.retryAtMs else 0
      sealState := some status } }
  match status with
  | .published =>
    changeStep .sealed
    save false
  | .pending =>
    let now ← clock
    editRow fun row => { row with
      attempts := row.attempts + 1
      source := { row.source with retryAtMs := now + backoff (row.attempts + 1) } }
    save false
  | .failed => Task.fail { Failure.new "cut.status" "failed" with refused := true }
  | .aborted => Task.fail { Failure.new "cut.status" "aborted" with refused := true }

def decodeMove (cut : Cut) (body : MoveRecord) : Except String MoveRecord :=
  (decodeMoveRecord cut.encoding cut.cutId body).mapError CodecError.code

def cas (cut : Cut) (before : Option MoveRecordState) (version : Nat) (body : MoveRecord) :
    Act (CasSettlement MoveRecord) := do
  match checkTransition before body.state .source with
  | .error e => Task.fail (Failure.new "record.cas" e.code)
  | .ok () => match encodeMoveRecord cut.encoding cut.cutId body with
    | .error e => Task.fail (Failure.new "record.cas" e.code)
    | .ok encoded =>
      let current ← row
      match ← casSettled sendMove readMoveRecord current.plan.fromMachine (decodeMove cut)
          ⟨version,encoded,.move cut.cutId .source body.state⟩ with
      | .error e => Task.fail (.record e)
      | .ok settlement => return settlement

/-- A landed write is recorded by its version. -/
def landed : CasSettlement MoveRecord → Act Unit
  | .landed version => do
    editRow fun row => { row with recordVersion := version }
    save false
  | .moved _ => return ()

def inbox : Act (List String) := do
  match ← ask .inboxRead with
  | .error code => Task.fail { Failure.new "inbox.read" code with diagnostic := true }
  | .ok pending => return pending

/-- Re-reads the verified record before each attempt; once the receiver is past
`published` no entry is needed. -/
def appendInbox (cut : Cut) : Nat → Act Unit
  | 0 => Task.fail (.record (.refused "unavailable"))
  | attempts + 1 => do
    match ← readMove cut with
    | none => Task.fail (Failure.new "record.read" "unavailable")
    | some (record,_) =>
      if record.state ≠ .published then return ()
      else
        let pending ← inbox
        if cut.cutId ∈ pending then return ()
        else match Move.appendInbox pending cut.cutId with
          | .error e => Task.fail (Failure.new "inbox.append" e.code)
          | .ok _ => match ← ask .inboxCas with
            | .ok _ => return ()
            | .error e =>
              if e.code = "version_moved" ∨ e.code = "unavailable" then appendInbox cut attempts
              else Task.fail (.record e)

def announce (cut : Cut) : Act Unit := do
  appendInbox cut 8
  changeStep .published
  save false

def publish (cut : Cut) : Act Unit := do
  let pending ← inbox
  if inboxCap ≤ pending.length ∧ cut.cutId ∉ pending then
    editRow fun row => { row with abortRequested := some ⟨some .receiverInboxFull,none,false⟩ }
    save false
  else
    let current ← row
    let settlement ← cas cut none 0 (planRecord cut current)
    landed settlement
    announce cut

def applyClaim (requirePresent : Bool) : Act Unit := do
  match ← readClaimRecord with
  | .error e => Task.fail (.record e)
  | .ok reply =>
    if reply.stale then Task.fail (.record (.refused "unavailable"))
    else
      let current ← row
      if reply.absent ∧ !requirePresent then cache
      else match decodeClaim current.agentId reply.body with
        | .error code => Task.fail { Failure.new "claim.read" code with diagnostic := true }
        | .ok claim =>
          -- Only a claim held here lets this machine resume writes.
          if !requirePresent ∧ 1 ≤ claim.epoch ∧ claim.holder ≠ some reply.selfAuthor then
            Task.fail (Failure.new "claim.read" "claim_moved")
          else if i64Max < reply.version then
            Task.fail (Failure.new "claim.read" "claim_version_unknown")
          else cache
where
  cache : Act Unit := do
    match ← ask .cacheClaims with
    | .error code => Task.fail (.store code)
    | .ok () => return ()

def finishReleased : Act Unit := do
  changeStep .released
  save true

/-- Whether the door's handoff covers the cut, as its reply or its status says. -/
def handoffCovered (state : HandoffState) (code : Option String) : Act Unit := do
  if state = .released ∨ state = .takenOver then return ()
  else match ← ask .handoffStatus with
    | .error e => Task.fail (.door "cut.status" e)
    | .ok status =>
      if status = some .released ∨ status = some .takenOver then return ()
      else Task.fail (Failure.new "cut.handoff" (code.getD "handoff_not_covered"))

def handoff : Act Unit := do
  match ← ask .handoff with
  | .error e => Task.fail (.door "cut.handoff" e)
  | .ok (state,code) =>
    let current ← row
    if current.source.handoffState ≠ some state then
      editRow fun row => { row with
        attempts := 0
        source := { row.source with retryAtMs := 0, handoffState := some state } }
      save false
      handoffCovered state code
    else handoffCovered state code

def releaseParticipant (participant : MoveParticipant) : Act Unit := do
  client participant.moduleId
  match ← call participant.moduleId .release with
  | .error e => Task.fail (.participant .release participant.moduleId e)
  | .ok _ => save false

def release (cut : Cut) : Option (MoveRecord × Nat) → Act Unit
  | none => Task.fail (.record (.refused "unavailable"))
  | some (record,version) => do
    if record.state = .released then finishReleased
    else if record.state ≠ .activated then Task.fail (Failure.new "record.read" "invalid_state")
    else
      applyClaim true
      handoff
      let current ← row
      Task.each current.plan.participants releaseParticipant
      match ← cas cut (some .activated) version { record with state := .released } with
      | .landed version =>
        editRow fun row => { row with recordVersion := version }
        finishReleased
      | .moved _ => return ()

def advance (cut : Cut) (observed : Option (MoveRecord × Nat)) : Act Unit := do
  if ← resume cut then
    let current ← row
    match current.step with
    | .preparing =>
      freezeExport cut
      if ← abortAsked then return ()
      else
        editMemory fun m => { m with resumed := true }
        changeStep .exported
        save false
    | .exported => advanceExported
    | .sealed => match observed with
      | none => publish cut
      | some _ => announce cut
    | .published => match observed with
      | some (record,_) => if record.state = .released then finishReleased else return ()
      | none => return ()
    | .releasing => release cut observed
    | _ => return ()
  else return ()

def refuseAbort (state : MoveRecordState) : Act Unit := do
  editRow fun row => { row with
    abortRequested := none
    reason := none
    detail := some ⟨none,some "invalid_state",none,none,some state.asStr,false⟩ }
  save true

def settlePending : Act Unit := do
  let current ← row
  match current.source.pending with
  | none => return ()
  | some pending =>
    if current.plan.participants.any fun p => p.moduleId == pending.moduleId then
      client pending.moduleId
      match ← call pending.moduleId .status with
      | .error e => Task.fail (.participant .status pending.moduleId e)
      | .ok _ =>
        let op : ParticipantOp := if pending.op = .prepare then .prepare else .export
        match ← call pending.moduleId op with
        | .ok _ => clearPending
        | .error e =>
          let failure := Failure.participant pending.op pending.moduleId e
          if failure.unknown ∨ failure.contractViolation then Task.fail failure
          else clearPending
    else Task.fail (Failure.new "plan.read" "pending_participant_missing")

def abortDoorCut : Act Unit := do
  match ← ask .doorAbort with
  | .ok () => return ()
  | .error (.refused code) =>
    if code = "not_found" then return () else Task.fail (.door "cut.abort" (.refused code))
  | .error e => Task.fail (.door "cut.abort" e)

def abortParticipant (participant : MoveParticipant) : Act Unit := do
  let current ← row
  if participant.moduleId ∈ current.source.aborted then return ()
  else
    client participant.moduleId
    match ← call participant.moduleId .abort with
    | .error e => Task.fail (.participant .abort participant.moduleId e)
    | .ok _ =>
      editProgress fun p => { p with aborted := p.aborted ++ [participant.moduleId] }
      save false

def abortParticipants : Act Unit := do
  let current ← row
  Task.each current.plan.participants abortParticipant

def finishAborted : Act Unit := do
  changeStep .aborted
  save true

/-- Brings the door's cut to a known state and aborts it. A permanent refusal
before the cut was ever reported sealed means that the door never made it. -/
def undoSeal (cut : Cut) : Act Unit := do
  let current ← row
  if current.sealSent ∧ current.source.sealRefused.isNone then
    match ← doorSeal.attempt with
    | .ok _ => abortDoorCut
    | .error failure =>
      if failure.refused ∧ !failure.retryable cut ∧ current.step = .exported then
        editProgress fun p => { p with sealRefused := some failure.code }
        save false
      else Task.fail failure
  else return ()

/-- Undoes a cut that has no shared record. -/
def undoUnpublished (cut : Cut) : Act Unit := do
  abortParticipants
  undoSeal cut
  finishAborted

/-- Undoes a cut whose record reads aborted. -/
def undoAborted : Act Unit := do
  applyClaim false
  let current ← row
  if current.sealSent then
    abortDoorCut
    abortParticipants
    finishAborted
  else
    abortParticipants
    finishAborted

def cleanup (cut : Cut) (observed : Option (MoveRecord × Nat)) : Act Unit := do
  settlePending
  let asked ← row
  let request := asked.abortRequested.getD ⟨some .operator,none,false⟩
  let reason := request.reason.getD .operator
  editRow fun row => { row with reason := some reason, detail := request.detail }
  save false
  let current ← row
  if current.step = .sealed ∨ current.step = .published then
    match observed with
    | some (record,version) =>
      if record.state = .published then
        -- The receiver may stage meanwhile; the next pass reads what stands.
        let settlement ← cas cut (some .published) version
          (abortedRecord cut.encoding record reason current.detail)
        landed settlement
      else if record.state = .aborted then undoAborted
      else refuseAbort record.state
    | none =>
      if current.step = .published then Task.fail (.record (.refused "unavailable"))
      else undoUnpublished cut
  else undoUnpublished cut

/-- Records a pass that failed: a held abort, a broken contract, another try
later, or an abort with its reason. -/
def failed (cut : Cut) (f : Failure) : Act Unit := do
  let current ← row
  let cleaning := current.abortRequested.isSome
  let busyRetry := !f.contractViolation && f.action cut == some .retryLater &&
    f.op == ParticipantOp.prepare.method && decide (current.attempts < 8)
  if !f.contractViolation ∧ f.op = ParticipantOp.abort.method ∧ f.action cut = some .retryAfterOperator then
    editMemory fun m => { m with abortHeld := true }
    let stuck := { f.detail with state := some "stuck" }
    editRow fun row => { row with
      detail := some stuck
      hold := some stuck
      source := { row.source with retryAtMs := 0 } }
    save false
  else if f.contractViolation ∧ (cleaning ∨ current.step = .releasing) then
    editRow fun row => { row with
      detail := some f.detail
      hold := some f.detail
      source := { row.source with contractViolation := some f.detail, retryAtMs := 0 } }
    save false
  else if !f.contractViolation ∧ (f.diagnostic ∨ f.unknown ∨ f.retryable cut ∨ busyRetry ∨ cleaning ∨
      current.step = .releasing) then
    let now ← clock
    editRow fun row => { row with
      attempts := row.attempts + 1
      hold := some f.detail
      source := { row.source with retryAtMs := now + backoff (row.attempts + 1) } }
    save false
  else
    -- Only a seal refused before the door reported the cut proves that it holds none.
    editRow fun row => { row with
      abortRequested := some ⟨some f.reason,some f.detail,false⟩
      reason := some f.reason
      detail := some f.detail
      source := { row.source with sealRefused :=
        if f.op = "cut.seal" ∧ f.refused ∧ row.step = .exported then some f.code
        else row.source.sealRefused } }
    save false

/-- What a fresh record says to a watching pass. -/
def notice (record : MoveRecord) (version : Nat) : Act Unit := do
  editRow fun row => { row with recordVersion := version }
  let current ← row
  if record.state = .aborted ∧ current.step ≠ .releasing then
    editRow fun row =>
      let detail := if row.reason ≠ record.reason ∨ row.abortRequested.isNone then record.detail
        else row.detail
      { row with
        reason := record.reason
        detail := detail
        abortRequested := some ⟨record.reason,detail,false⟩ }
    save false
  else if record.state ≠ .published ∧ current.abortRequested.isSome then refuseAbort record.state
  else return ()

def noticeActivated (record : MoveRecord) : Act Unit := do
  let current ← row
  if record.state = .activated ∧ current.step ≠ .releasing then
    changeStep .releasing
    save true
  else return ()

def watch (watching : Bool) (observed : Option (MoveRecord × Nat)) : Act Unit := do
  match observed with
  | none => return ()
  | some (record,version) =>
    if watching then
      notice record version
      noticeActivated record
    else return ()

def proceed (cut : Cut) (watching : Bool) (observed : Option (MoveRecord × Nat)) : Act Unit := do
  watch watching observed
  let current ← row
  let kept ← memory
  if current.source.contractViolation.isSome then
    match observed with
    | some (record,_) => if record.state = .released then finishReleased else return ()
    | none => return ()
  else if kept.abortHeld then return ()
  else
    let now ← clock
    if now < current.source.retryAtMs then return ()
    else
      let work := if current.abortRequested.isSome ∧ current.step ≠ .releasing
        then cleanup cut observed else advance cut observed
      match ← work.attempt with
      | .ok () => return ()
      | .error f => failed cut f

def tick (cut : Cut) : Act Unit := do
  let current ← row
  if current.step.isTerminal then return ()
  else
    let watching := current.step matches .sealed | .published | .releasing
    let due : Bool ← ask .pollDue
    if watching ∨ due then
      match ← (readMove cut).attempt with
      | .error f => failed cut f
      | .ok observed => proceed cut watching observed
    else proceed cut watching none

end Entorhinal.Move.Source
