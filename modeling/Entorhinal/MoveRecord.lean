import Entorhinal.MoveStep
import Entorhinal.Refusal

/-! The shared record of a move: its states, its fixed plan, which side may write
which state, and what a reader checks before it acts on a body. A body stands
for the bytes of its JSON text; its encoded size is a parameter. -/
namespace Entorhinal.Move

inductive MoveRecordState
  | published
  | staged
  | claimed
  | activated
  | released
  | aborted
deriving DecidableEq, Repr

def MoveRecordState.asStr : MoveRecordState → String
  | .published => "published"
  | .staged => "staged"
  | .claimed => "claimed"
  | .activated => "activated"
  | .released => "released"
  | .aborted => "aborted"

inductive MoveReason
  | operator
  | receiverInboxFull
  | moveTooLarge
  | participantRefused
  | doorRefused
  | cutAuthorMismatch
  | diverged
  | incompatibleVersion
  | claimMoved
  | projectNotCheckedOut
  | gone
  | receiverPrecondition
  | pinDigestMismatch
  | trustMissing
  | other (reason : String)
deriving DecidableEq, Repr

/-- The fields of a JSON diagnostic that a driver reads again. -/
structure Detail where
  op : Option String
  code : Option String
  moduleId : Option String
  refKind : Option String
  state : Option String
  absent : Bool
deriving DecidableEq, Repr

def Detail.of (op code : String) : Detail := ⟨some op,some code,none,none,none,false⟩

structure MoveRef where
  refKind : String
  reference : String
deriving DecidableEq, Repr

structure ExternalRef where
  refKind : String
  reference : String
  note : String
  check : String
deriving DecidableEq, Repr

structure MoveParticipant where
  moduleId : String
  refs : List MoveRef
  external : List ExternalRef
deriving DecidableEq, Repr

/-- The part of a record that no transition changes. -/
structure MovePlan where
  agentId : String
  fromMachine : String
  toMachine : String
  claimVersion : Nat
  participants : List MoveParticipant
  pinDigest : Option String
deriving DecidableEq, Repr, Inhabited

structure MoveRecord where
  cutId : String
  plan : MovePlan
  state : MoveRecordState
  reason : Option MoveReason
  detail : Option Detail
deriving DecidableEq, Repr

inductive CodecError
  | cutIdMismatch
  | participantUnsorted
  | participantDuplicate
  | refUnsorted
  | refDuplicate
  | detailTooLarge
  | malformedBody
  | moveTooLarge
  | bodyTooLarge
  | inboxFull
  | invalidTransition
  | authorMismatch
  | planMismatch
deriving DecidableEq, Repr

def CodecError.code : CodecError → String
  | .cutIdMismatch => "cut_id_mismatch"
  | .participantUnsorted => "participant_unsorted"
  | .participantDuplicate => "participant_duplicate"
  | .refUnsorted => "ref_unsorted"
  | .refDuplicate => "ref_duplicate"
  | .detailTooLarge => "detail_too_large"
  | .malformedBody => "malformed_body"
  | .moveTooLarge => "move_too_large"
  | .bodyTooLarge => "body_too_large"
  | .inboxFull => "inbox_full"
  | .invalidTransition => "invalid_transition"
  | .authorMismatch => "author_mismatch"
  | .planMismatch => "plan_mismatch"

def bodyCap : Nat := 64 * 1024
def abortReserve : Nat := 4096
def moveBodyCap : Nat := bodyCap - abortReserve
def detailCap : Nat := 2048
def inboxCap : Nat := 64

/-- The encoded sizes, and the summary that replaces a diagnostic too large for
the shared record. -/
structure Encoding where
  recordSize : MoveRecord → Nat
  detailSize : Detail → Nat
  summary : Detail → Detail

def boundedDetail (encoding : Encoding) (detail : Detail) : Detail :=
  if encoding.detailSize detail ≤ detailCap then detail else encoding.summary detail

def isHex (length : Nat) (text : String) : Bool :=
  text.length == length && text.toList.all fun c => c.isDigit || ('a' ≤ c && c ≤ 'f')

def MoveRef.le (a b : MoveRef) : Bool :=
  decide (a.refKind < b.refKind) || (a.refKind == b.refKind && decide (a.reference ≤ b.reference))

def checkRefs (refs : List MoveRef) : Except CodecError Unit :=
  if ¬ refs.Nodup then .error .refDuplicate
  else if ¬ refs.Pairwise (MoveRef.le · · = true) then .error .refUnsorted
  else .ok ()

/-- Checks the participants one after the other; `seen` are the modules before. -/
def checkParticipants : List String → List MoveParticipant → Except CodecError Unit
  | _, [] => .ok ()
  | seen, participant :: rest =>
    if participant.moduleId ∈ seen then .error .participantDuplicate
    else match checkRefs participant.refs with
      | .error e => .error e
      | .ok () => checkParticipants (participant.moduleId :: seen) rest

def validateMove (encoding : Encoding) (cutId : String) (record : MoveRecord) : Except CodecError Unit :=
  if cutId ≠ record.cutId then .error .cutIdMismatch
  else if ¬ isHex 32 record.cutId then .error .malformedBody
  else if record.plan.pinDigest.any fun digest => ¬ isHex 64 digest then .error .malformedBody
  else match checkParticipants [] record.plan.participants with
    | .error e => .error e
    | .ok () =>
      if ¬ (record.plan.participants.map (·.moduleId)).Pairwise (· ≤ ·) then .error .participantUnsorted
      else if record.detail.any fun detail => detailCap < encoding.detailSize detail then
        .error .detailTooLarge
      else if (record.state ≠ .aborted ∧ (record.reason.isSome ∨ record.detail.isSome)) ∨
          (record.state = .aborted ∧ record.reason.isNone) then .error .malformedBody
      else .ok ()

def checkMoveSize (encoding : Encoding) (record : MoveRecord) : Except CodecError Unit :=
  if bodyCap < encoding.recordSize record then .error .bodyTooLarge
  else if record.state ≠ .aborted ∧ moveBodyCap < encoding.recordSize record then .error .moveTooLarge
  else .ok ()

def encodeMoveRecord (encoding : Encoding) (cutId : String) (record : MoveRecord) :
    Except CodecError MoveRecord := do
  validateMove encoding cutId record
  checkMoveSize encoding record
  return record

def decodeMoveRecord (encoding : Encoding) (cutId : String) (body : MoveRecord) :
    Except CodecError MoveRecord := do
  validateMove encoding cutId body
  checkMoveSize encoding body
  return body

/-- Adds a cut to an inbox, given by the cuts it lists. -/
def appendInbox (pending : List String) (cutId : String) : Except CodecError (List String) :=
  if cutId ∈ pending then .ok pending
  else if inboxCap < pending.length + 1 then .error .inboxFull
  else .ok (pending ++ [cutId])

/-- The abort a source writes over the record it read. -/
def abortedRecord (encoding : Encoding) (record : MoveRecord) (reason : MoveReason)
    (detail : Option Detail) : MoveRecord :=
  { record with
    state := .aborted
    reason := some reason
    detail := detail.map (boundedDetail encoding) }

/-- Which state may follow which, and who writes it; `none` is no record. -/
def allowed : Option MoveRecordState → MoveRecordState → MoveSide → Bool
  | none, .published, .source => true
  | some .published, .staged, .receiver => true
  | some .staged, .claimed, .receiver => true
  | some .claimed, .activated, .receiver => true
  | some .activated, .released, .source => true
  | some .published, .aborted, _ => true
  | some .staged, .aborted, .receiver => true
  | some .claimed, .aborted, .receiver => true
  | _, _, _ => false

def checkTransition (before : Option MoveRecordState) (after : MoveRecordState) (writer : MoveSide) :
    Except CodecError Unit :=
  if allowed before after writer then .ok () else .error .invalidTransition

inductive RecordWriter
  | source
  | receiver
  | either
deriving DecidableEq, Repr

def requiredWriter : MoveRecordState → RecordWriter
  | .published => .source
  | .released => .source
  | .staged => .receiver
  | .claimed => .receiver
  | .activated => .receiver
  | .aborted => .either

def checkRecordAuthor (record : MoveRecord) (author : String) : Except CodecError Unit :=
  let matching := match requiredWriter record.state with
    | .source => author == record.plan.fromMachine
    | .receiver => author == record.plan.toMachine
    | .either => author == record.plan.fromMachine || author == record.plan.toMachine
  if matching then .ok () else .error .authorMismatch

def checkPinnedPlan (pinned : MovePlan) (current : MoveRecord) : Except CodecError Unit :=
  if pinned = current.plan then .ok () else .error .planMismatch

/-- A reply without a body reads as empty bytes. -/
def decodeBody (encoding : Encoding) (cutId : String) : Option MoveRecord → Except CodecError MoveRecord
  | none => .error .malformedBody
  | some body => decodeMoveRecord encoding cutId body

/-- The author and plan checks behind every read that a driver acts on. -/
def verifyRecord (encoding : Encoding) (cutId : String) (pinned : MovePlan) (body : Option MoveRecord)
    (author : Option String) : Except CodecError MoveRecord := do
  let record ← decodeBody encoding cutId body
  checkRecordAuthor record (author.getD "")
  checkPinnedPlan pinned record
  return record

inductive ClaimWrite
  | take
  | return
deriving DecidableEq, Repr

/-- Write ids are hashes of these; they are taken not to collide. -/
inductive WriteId
  | move (cutId : String) (side : MoveSide) (state : MoveRecordState)
  | claim (cutId : String) (operation : ClaimWrite)
  | other (id : Nat)
deriving DecidableEq, Repr

/-- The side that writes is the one the table names for the state, whatever came
before. -/
theorem allowed_writer {before : Option MoveRecordState} {after : MoveRecordState} {writer : MoveSide}
    (holds : allowed before after writer = true) :
    requiredWriter after = .either ∨
      (requiredWriter after = .source ∧ writer = .source) ∨
      (requiredWriter after = .receiver ∧ writer = .receiver) := by
  cases before with
  | none => cases after <;> cases writer <;> simp_all [allowed,requiredWriter]
  | some state => cases state <;> cases after <;> cases writer <;> simp_all [allowed,requiredWriter]

theorem checkTransition_ok {before : Option MoveRecordState} {after : MoveRecordState}
    {writer : MoveSide} (checked : checkTransition before after writer = .ok ()) :
    allowed before after writer = true := by
  unfold checkTransition at checked
  split at checked
  next holds => exact holds
  next => cases checked

theorem encodeMoveRecord_ok {encoding : Encoding} {cutId : String} {record body : MoveRecord}
    (encoded : encodeMoveRecord encoding cutId record = .ok body) : body = record := by
  obtain ⟨_,_,encoded⟩ := bind_ok encoded
  obtain ⟨_,_,encoded⟩ := bind_ok encoded
  cases encoded
  rfl

theorem decodeMoveRecord_ok {encoding : Encoding} {cutId : String} {body record : MoveRecord}
    (decoded : decodeMoveRecord encoding cutId body = .ok record) : record = body :=
  encodeMoveRecord_ok decoded

theorem checkPinnedPlan_ok {pinned : MovePlan} {current : MoveRecord}
    (checked : checkPinnedPlan pinned current = .ok ()) : current.plan = pinned := by
  unfold checkPinnedPlan at checked
  split at checked
  next same => exact same.symm
  next => cases checked

/-- What a verified read says about the body it was made from. -/
theorem verifyRecord_ok {encoding : Encoding} {cutId : String} {pinned : MovePlan}
    {body : Option MoveRecord} {author : Option String} {record : MoveRecord}
    (verified : verifyRecord encoding cutId pinned body author = .ok record) :
    body = some record ∧ record.plan = pinned ∧ checkRecordAuthor record (author.getD "") = .ok () := by
  unfold verifyRecord at verified
  obtain ⟨found,decoded,verified⟩ := bind_ok verified
  obtain ⟨_,authored,verified⟩ := bind_ok verified
  obtain ⟨_,plan,verified⟩ := bind_ok verified
  cases verified
  cases body with
  | none => cases decoded
  | some body =>
    have same := decodeMoveRecord_ok decoded
    exact ⟨congrArg some same.symm,checkPinnedPlan_ok plan,authored⟩

end Entorhinal.Move
