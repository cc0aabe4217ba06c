import Entorhinal.JsonValue
import Entorhinal.MoveRecord
import Entorhinal.Utf8

/-! The move record as it is written and read: a JSON body of limited size, strict about
its fields, and an abort whose detail is cut down to fit. -/
namespace Entorhinal.Move

/-- The reasons a record names, by their text. -/
def knownReasons : List (String × MoveReason) :=
  [("operator",.operator),("receiver_inbox_full",.receiverInboxFull),("move_too_large",.moveTooLarge),
    ("participant_refused",.participantRefused),("door_refused",.doorRefused),
    ("cut_author_mismatch",.cutAuthorMismatch),("diverged",.diverged),
    ("incompatible_version",.incompatibleVersion),("claim_moved",.claimMoved),
    ("project_not_checked_out",.projectNotCheckedOut),("gone",.gone),
    ("receiver_precondition",.receiverPrecondition),("pin_digest_mismatch",.pinDigestMismatch),
    ("trust_missing",.trustMissing)]

def MoveReason.ofText (reason : String) : MoveReason :=
  (Table.lookup knownReasons reason).getD (.other reason)

def MoveReason.text : MoveReason → String
  | .operator => "operator"
  | .receiverInboxFull => "receiver_inbox_full"
  | .moveTooLarge => "move_too_large"
  | .participantRefused => "participant_refused"
  | .doorRefused => "door_refused"
  | .cutAuthorMismatch => "cut_author_mismatch"
  | .diverged => "diverged"
  | .incompatibleVersion => "incompatible_version"
  | .claimMoved => "claim_moved"
  | .projectNotCheckedOut => "project_not_checked_out"
  | .gone => "gone"
  | .receiverPrecondition => "receiver_precondition"
  | .pinDigestMismatch => "pin_digest_mismatch"
  | .trustMissing => "trust_missing"
  | .other reason => reason

def MoveReason.known : MoveReason → Bool
  | .other _ => false
  | _ => true

def states : List MoveRecordState := [.published,.staged,.claimed,.activated,.released,.aborted]

def MoveRecordState.ofText (text : String) : Option MoveRecordState := states.find? (·.asStr == text)

namespace Wire

open Json (Doubles Value)

structure ExternalRef (F : Type) where
  refKind : String
  reference : String
  note : String
  check : Value F
deriving DecidableEq

structure MoveParticipant (F : Type) where
  moduleId : String
  refs : List MoveRef
  external : List (ExternalRef F)
deriving DecidableEq

structure MoveRecord (F : Type) where
  v : Fin (2 ^ 64)
  cutId : String
  agentId : String
  fromMachine : String
  toMachine : String
  state : MoveRecordState
  claimVersion : Fin (2 ^ 64)
  participants : List (MoveParticipant F)
  pinDigest : Option String
  reason : Option MoveReason
  detail : Option (Value F)
deriving DecidableEq

inductive CodecError
  | unknownVersion
  | cutIdMismatch
  | participantUnsorted
  | participantDuplicate
  | refUnsorted
  | refDuplicate
  | detailTooLarge
  | malformedBody
  | moveTooLarge
  | bodyTooLarge
  | planMismatch
deriving DecidableEq, Repr

def CodecError.code : CodecError → String
  | .unknownVersion => "unknown_version"
  | .cutIdMismatch => "cut_id_mismatch"
  | .participantUnsorted => "participant_unsorted"
  | .participantDuplicate => "participant_duplicate"
  | .refUnsorted => "ref_unsorted"
  | .refDuplicate => "ref_duplicate"
  | .detailTooLarge => "detail_too_large"
  | .malformedBody => "malformed_body"
  | .moveTooLarge => "move_too_large"
  | .bodyTooLarge => "body_too_large"
  | .planMismatch => "plan_mismatch"

variable {F : Type} [Doubles F]

section Fields
omit [Doubles F]

def refJson (reference : MoveRef) : Json F :=
  .object [("ref_kind",.string reference.refKind),("ref",.string reference.reference)]

def externalJson (external : ExternalRef F) : Json F :=
  .object [("ref_kind",.string external.refKind),("ref",.string external.reference),
    ("note",.string external.note),("check",external.check.json)]

def participantJson (participant : MoveParticipant F) : Json F :=
  .object [("module_id",.string participant.moduleId),("refs",.array (participant.refs.map refJson)),
    ("external",.array (participant.external.map externalJson))]

def reasonJson (reason : Option MoveReason) : Json F :=
  (reason.map fun reason => Json.string reason.text).getD .null

def detailJson (detail : Option (Value F)) : Json F := (detail.map Value.json).getD .null

/-- The fields in the order they are declared; a record without pins leaves them out. -/
def recordJson (record : MoveRecord F) : Json F :=
  .object ([("v",.number (.posInt record.v)),("cut_id",.string record.cutId),
    ("agent_id",.string record.agentId),("from",.string record.fromMachine),("to",.string record.toMachine),
    ("state",.string record.state.asStr),("claim_version",.number (.posInt record.claimVersion)),
    ("participants",.array (record.participants.map participantJson))] ++
    ((record.pinDigest.map fun digest => ("pin_digest",Json.string digest)).toList ++
    [("reason",reasonJson record.reason),("detail",detailJson record.detail)]))

def readRef (tree : Json F) : Option MoveRef := do
  match ← tree.structFields ["ref_kind","ref"] with
  | [some kind,some reference] => return ⟨← kind.asStr,← reference.asStr⟩
  | _ => none

def readExternal (tree : Json F) : Option (ExternalRef F) := do
  match ← tree.structFields ["ref_kind","ref","note","check"] with
  | [some kind,some reference,some note,some check] =>
    return ⟨← kind.asStr,← reference.asStr,← note.asStr,.of check⟩
  | _ => none

def readParticipant (tree : Json F) : Option (MoveParticipant F) := do
  match ← tree.structFields ["module_id","refs","external"] with
  | [some moduleId,some refs,some external] =>
    return ⟨← moduleId.asStr,← (← refs.asArray).mapM readRef,← (← external.asArray).mapM readExternal⟩
  | _ => none

/-- An optional field: missing and null are none. -/
def optional {α : Type} (read : Json F → Option α) : Option (Json F) → Option (Option α)
  | none | some .null => some none
  | some tree => (read tree).map some

def readReason (tree : Json F) : Option MoveReason := tree.asStr.map MoveReason.ofText

def readDetail (tree : Json F) : Option (Value F) := some (.of tree)

def recordFields : List String :=
  ["v","cut_id","agent_id","from","to","state","claim_version","participants","pin_digest","reason","detail"]

def readRecord (tree : Json F) : Option (MoveRecord F) := do
  match ← tree.structFields recordFields with
  | [some v,some cutId,some agentId,some fromMachine,some toMachine,some state,some claimVersion,
      some participants,pinDigest,reason,detail] =>
    return ⟨← v.asU64,← cutId.asStr,← agentId.asStr,← fromMachine.asStr,← toMachine.asStr,
      ← state.variant MoveRecordState.ofText,← claimVersion.asU64,← (← participants.asArray).mapM readParticipant,
      ← optional Json.asStr pinDigest,← optional readReason reason,← optional readDetail detail⟩
  | _ => none

end Fields

def checkVersion (v : Fin (2 ^ 64)) : Except CodecError Unit :=
  if v.val = 1 then .ok () else .error .unknownVersion

/-- The value of a body, after the checks of its size and version. -/
def wireValue (body : Utf8.Bytes) : Except CodecError (Json F) :=
  if bodyCap < body.length then .error .bodyTooLarge
  else match Json.parseBytes body with
    | none => .error .malformedBody
    | some tree => match (tree.ordered.get? "v").bind Json.asU64 with
      | none => .error .malformedBody
      | some v => (checkVersion v).map fun _ => tree

def checkRefs (refs : List MoveRef) : Except CodecError Unit :=
  if ¬ refs.Nodup then .error .refDuplicate
  else if ¬ refs.Pairwise (MoveRef.le · · = true) then .error .refUnsorted
  else .ok ()

omit [Doubles F] in
/-- Checks the participants one after the other; `seen` are the modules before. -/
def checkParticipants : List String → List (MoveParticipant F) → Except CodecError Unit
  | _, [] => .ok ()
  | seen, participant :: rest =>
    if participant.moduleId ∈ seen then .error .participantDuplicate
    else match checkRefs participant.refs with
      | .error e => .error e
      | .ok () => checkParticipants (participant.moduleId :: seen) rest

def stripPrefix (before text : String) : Option String :=
  if before.toList.isPrefixOf text.toList then some (String.ofList (text.toList.drop before.length)) else none

def validateMove (subject : String) (record : MoveRecord F) : Except CodecError Unit :=
  match checkVersion record.v with
  | .error e => .error e
  | .ok () =>
    if stripPrefix "move:" subject ≠ some record.cutId then .error .cutIdMismatch
    else if ¬ isHex 32 record.cutId then .error .malformedBody
    else if record.pinDigest.any fun digest => ¬ isHex 64 digest then .error .malformedBody
    else match checkParticipants [] record.participants with
      | .error e => .error e
      | .ok () =>
        if ¬ (record.participants.map (·.moduleId)).Pairwise (· ≤ ·) then .error .participantUnsorted
        else if record.detail.any fun detail => detailCap < detail.json.size then .error .detailTooLarge
        else if (record.state ≠ .aborted ∧ (record.reason.isSome ∨ record.detail.isSome)) ∨
            (record.state = .aborted ∧ record.reason.isNone) then .error .malformedBody
        else .ok ()

def checkMoveSize (state : MoveRecordState) (length : Nat) : Except CodecError Unit :=
  if bodyCap < length then .error .bodyTooLarge
  else if state ≠ .aborted ∧ moveBodyCap < length then .error .moveTooLarge
  else .ok ()

def encodeMoveRecord (subject : String) (record : MoveRecord F) : Except CodecError Utf8.Bytes := do
  validateMove subject record
  let body := (recordJson record).text
  checkMoveSize record.state body.length
  return body

def decodeMoveRecord (subject : String) (body : Utf8.Bytes) : Except CodecError (MoveRecord F) := do
  let tree ← wireValue body
  if (tree.ordered.get? "reason").isNone ∨ (tree.ordered.get? "detail").isNone then .error .malformedBody
  else match readRecord tree with
    | none => .error .malformedBody
    | some record =>
      validateMove subject record
      checkMoveSize record.state body.length
      return record

def quotedSize (text : List Char) : Nat := (Utf8.encode (Json.quoteChars text)).length

/-- Drops characters at the end until the quoted text fits, at most as many as given. -/
def popTo (limit : Nat) : Nat → List Char → List Char
  | 0,text => text
  | n + 1,text => if quotedSize text ≤ limit then text else popTo limit n text.dropLast

def summaryString (value : Option (Json F)) : Json F :=
  match value.bind Json.asStr with
  | none => .null
  | some text => .string (String.ofList (popTo 512 512 (text.toList.take 512)))

def isStr (value : Option (Json F)) : Bool := (value.bind Json.asStr).isSome

/-- A participant found data past the cut, or could not tell. -/
def isDiverged (detail : Json F) : Bool :=
  (detail.get? "state").bind Json.asStr == some "unknown" ||
    (detail.get? "state").bind Json.asStr == some "advanced"

/-- What stands for a detail that is too large for the shared record. The reason of a
diverged participant is copied whole. -/
def summary (detail : Json F) : Json F :=
  let cut := fun (key : String) (built : Json F) =>
    if isStr (detail.get? key) then built.set key (summaryString (detail.get? key)) else built
  let built := cut "module_id" (Json.objectOf [("truncated",.bool true),
    ("op",summaryString (detail.get? "op")),("code",summaryString (detail.get? "code"))])
  if isDiverged detail then
    let built := cut "state" (cut "ref" built)
    if isStr (detail.get? "reason") then built.set "reason" (detail.field "reason") else built
  else built

def boundedDetail (detail : Json F) : Json F :=
  if detail.size ≤ detailCap then detail else summary detail

def boundedValue (detail : Value F) : Value F := .of (boundedDetail detail.json)

def abortedRecord (record : MoveRecord F) (reason : MoveReason) (fullDetail : Option (Value F)) :
    MoveRecord F :=
  { record with
    state := .aborted
    reason := some reason
    detail := fullDetail.map boundedValue }

/-- Compares the plan, not the state or the diagnostics of an abort. -/
def checkPinnedPlan [DecidableEq F] (pinned current : MoveRecord F) : Except CodecError Unit :=
  if pinned.agentId = current.agentId ∧ pinned.fromMachine = current.fromMachine ∧
      pinned.toMachine = current.toMachine ∧ pinned.claimVersion = current.claimVersion ∧
      pinned.participants = current.participants ∧ pinned.pinDigest = current.pinDigest then .ok ()
  else .error .planMismatch

end Wire
end Entorhinal.Move
