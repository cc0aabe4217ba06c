import Entorhinal.JsonLaw
import Entorhinal.MoveWire
import Entorhinal.Refusal

/-! What is encoded for a move record is decoded as that record, and a body is decoded
only if its record passes the checks of the encoder. -/
namespace Entorhinal.Json

variable {F : Type}

variable [Doubles F]

theorem parseBytes_encode (chars : List Char) : parseBytes (F := F) (Utf8.encode chars) = parse chars := by
  rw [parseBytes,Utf8.decode_encode]
  rfl

/-- Bytes written for a value are read as that value. -/
theorem parseBytes_text {value : Json F} (shallow : value.nesting < depthLimit) :
    parseBytes value.text = some value :=
  (parseBytes_encode value.emit).trans (parse_emit shallow)

end Entorhinal.Json

namespace Entorhinal.Move

theorem MoveReason.ofText_text {reason : MoveReason} (known : reason.known = true) :
    MoveReason.ofText reason.text = reason := by
  cases reason with
  | other reason => cases known
  | _ => rfl

theorem MoveRecordState.ofText_asStr (state : MoveRecordState) : ofText state.asStr = some state := by
  cases state <;> rfl

namespace Wire

open Json (Doubles Value)

variable {F : Type}

theorem mapM_read {α : Type} {write : α → Json F} {read : Json F → Option α}
    (back : ∀ a, read (write a) = some a) (items : List α) : (items.map write).mapM read = some items := by
  induction items with
  | nil => rfl
  | cons a items ih => rw [List.map_cons,List.mapM_cons,back,ih]; rfl

theorem readRef_json (reference : MoveRef) : readRef (refJson (F := F) reference) = some reference := rfl

theorem readExternal_json (external : ExternalRef F) : readExternal (externalJson external) = some external := by
  show some (ExternalRef.mk external.refKind external.reference external.note (.of external.check.json)) = _
  rw [Value.of_json]

theorem readParticipant_json (participant : MoveParticipant F) :
    readParticipant (participantJson participant) = some participant := by
  show (do
    let refs ← (participant.refs.map refJson).mapM readRef
    let external ← (participant.external.map externalJson).mapM readExternal
    return MoveParticipant.mk participant.moduleId refs external) = _
  rw [mapM_read readRef_json,mapM_read readExternal_json]
  rfl

/-- The record as it is read again: a detail that is null is none. -/
def settled (record : MoveRecord F) : MoveRecord F :=
  { record with detail := record.detail.filter fun detail => !detail.json.isNull }

theorem optional_reason {reason : Option MoveReason}
    (own : ∀ r ∈ reason, MoveReason.ofText r.text = r) :
    optional readReason (some (reasonJson (F := F) reason)) = some reason := by
  cases reason with
  | none => rfl
  | some reason =>
    show some (some (MoveReason.ofText reason.text)) = _
    rw [own reason rfl]

theorem optional_detail (detail : Option (Value F)) :
    optional readDetail (some (detailJson detail)) = some (detail.filter fun detail => !detail.json.isNull) := by
  cases detail with
  | none => rfl
  | some detail =>
    obtain ⟨json,sorted⟩ := detail
    have back : Value.of json = ⟨json,sorted⟩ := Value.of_json ⟨json,sorted⟩
    cases json with
    | null => rfl
    | _ => exact congrArg (fun value => some (some value)) back

theorem readRecord_json {record : MoveRecord F} (own : ∀ r ∈ record.reason, MoveReason.ofText r.text = r) :
    readRecord (recordJson record) = some (settled record) := by
  have reason := optional_reason (F := F) own
  have detail := optional_detail record.detail
  have participants := mapM_read readParticipant_json record.participants
  obtain ⟨v,cutId,agentId,fromMachine,toMachine,state,claimVersion,listed,pinDigest,given,text⟩ := record
  dsimp only at reason detail participants
  have stated : (Json.string state.asStr : Json F).variant MoveRecordState.ofText = some state :=
    MoveRecordState.ofText_asStr state
  cases pinDigest with
  | none =>
    show (do
      let state ← (Json.string state.asStr : Json F).variant MoveRecordState.ofText
      let participants ← (listed.map participantJson).mapM readParticipant
      let reason ← optional readReason (some (reasonJson (F := F) given))
      let detail ← optional readDetail (some (detailJson text))
      return MoveRecord.mk v cutId agentId fromMachine toMachine state claimVersion participants none reason
        detail) = _
    rw [stated,participants,reason,detail]
    rfl
  | some digest =>
    show (do
      let state ← (Json.string state.asStr : Json F).variant MoveRecordState.ofText
      let participants ← (listed.map participantJson).mapM readParticipant
      let reason ← optional readReason (some (reasonJson (F := F) given))
      let detail ← optional readDetail (some (detailJson text))
      return MoveRecord.mk v cutId agentId fromMachine toMachine state claimVersion participants (some digest)
        reason detail) = _
    rw [stated,participants,reason,detail]
    rfl

/-- What the encoder and the decoder both ask of a record. -/
structure Accepted [Doubles F] (subject : String) (record : MoveRecord F) : Prop where
  version : record.v.val = 1
  cut : stripPrefix "move:" subject = some record.cutId
  cut_hex : isHex 32 record.cutId = true
  pins : ∀ digest ∈ record.pinDigest, isHex 64 digest = true
  participants : checkParticipants [] record.participants = .ok ()
  in_order : (record.participants.map (·.moduleId)).Pairwise (· ≤ ·)
  detail_size : ∀ detail ∈ record.detail, detail.json.size ≤ detailCap
  reasons : if record.state = .aborted then record.reason.isSome else record.reason = none ∧ record.detail = none

section
variable [Doubles F]

theorem checkVersion_ok {v : Fin (2 ^ 64)} : checkVersion v = .ok () ↔ v.val = 1 := by
  unfold checkVersion
  split
  next one => exact iff_of_true rfl one
  next other => exact iff_of_false (fun checked => nomatch checked) other

omit [Doubles F] in
theorem reasons_iff {record : MoveRecord F} :
    ¬ ((record.state ≠ .aborted ∧ (record.reason.isSome ∨ record.detail.isSome)) ∨
        (record.state = .aborted ∧ record.reason.isNone)) ↔
      if record.state = .aborted then record.reason.isSome = true
      else record.reason = none ∧ record.detail = none := by
  by_cases aborted : record.state = .aborted
  · rw [if_pos aborted]
    cases record.reason <;> simp [aborted]
  · rw [if_neg aborted]
    cases record.reason <;> cases record.detail <;> simp [aborted]

theorem validateMove_ok {subject : String} {record : MoveRecord F} :
    validateMove subject record = .ok () ↔ Accepted subject record := by
  unfold validateMove
  constructor
  · intro checked
    split at checked
    next => cases checked
    next version =>
      split at checked
      next => cases checked
      next cut =>
        split at checked
        next => cases checked
        next cutHex =>
          split at checked
          next => cases checked
          next pins =>
            split at checked
            next => cases checked
            next participants =>
              split at checked
              next => cases checked
              next inOrder =>
                split at checked
                next => cases checked
                next detail =>
                  split at checked
                  next => cases checked
                  next reasons =>
                    refine ⟨checkVersion_ok.mp version,not_not.mp cut,not_not.mp cutHex,?_,participants,
                      not_not.mp inOrder,?_,reasons_iff.mp reasons⟩
                    · intro digest given
                      rw [given] at pins
                      simpa using pins
                    · intro found given
                      rw [given] at detail
                      simpa using detail
  · rintro ⟨version,cut,cutHex,pins,participants,inOrder,detail,reasons⟩
    rw [checkVersion_ok.mpr version]
    dsimp only
    rw [if_neg (not_not.mpr cut),if_neg (not_not.mpr cutHex),if_neg,participants]
    · dsimp only
      rw [if_neg (not_not.mpr inOrder),if_neg,if_neg (reasons_iff.mpr reasons)]
      cases given : record.detail with
      | none => simp
      | some found => simpa using detail found given
    · cases given : record.pinDigest with
      | none => simp
      | some digest => simpa using pins digest given

theorem checkMoveSize_ok {state : MoveRecordState} {length : Nat} :
    checkMoveSize state length = .ok () ↔ length ≤ bodyCap ∧ (state ≠ .aborted → length ≤ moveBodyCap) := by
  unfold checkMoveSize
  constructor
  · intro checked
    split at checked
    next => cases checked
    next fits =>
      split at checked
      next => cases checked
      next small => exact ⟨not_lt.mp fits,fun other => not_lt.mp fun large => small ⟨other,large⟩⟩
  · rintro ⟨fits,small⟩
    rw [if_neg (not_lt.mpr fits),if_neg fun both => absurd (small both.1) (not_le.mpr both.2)]

/-- A record is encoded exactly when it is accepted and its body fits. -/
theorem encodeMoveRecord_ok {subject : String} {record : MoveRecord F} {body : Utf8.Bytes} :
    encodeMoveRecord subject record = .ok body ↔
      body = (recordJson record).text ∧ Accepted subject record ∧ body.length ≤ bodyCap ∧
        (record.state ≠ .aborted → body.length ≤ moveBodyCap) := by
  constructor
  · intro encoded
    obtain ⟨_,valid,encoded⟩ := bind_ok encoded
    obtain ⟨_,sized,encoded⟩ := bind_ok encoded
    obtain rfl : (recordJson record).text = body := Except.ok.inj encoded
    exact ⟨rfl,validateMove_ok.mp valid,checkMoveSize_ok.mp sized⟩
  · rintro ⟨rfl,valid,sized⟩
    show (do
      validateMove subject record
      checkMoveSize record.state (recordJson record).text.length
      return (recordJson record).text) = _
    rw [validateMove_ok.mpr valid,checkMoveSize_ok.mpr sized]
    rfl

theorem Accepted.settled {subject : String} {record : MoveRecord F} (accepted : Accepted subject record) :
    Accepted subject (settled record) where
  version := accepted.version
  cut := accepted.cut
  cut_hex := accepted.cut_hex
  pins := accepted.pins
  participants := accepted.participants
  in_order := accepted.in_order
  detail_size detail kept := accepted.detail_size detail (Option.mem_filter_iff.mp kept).1
  reasons := by
    have reasons := accepted.reasons
    show if record.state = .aborted then record.reason.isSome = true
      else record.reason = none ∧ (record.detail.filter fun detail => !detail.json.isNull) = none
    split at reasons
    next aborted => rwa [if_pos aborted]
    next other =>
      rw [if_neg other,reasons.2]
      exact ⟨reasons.1,rfl⟩

omit [Doubles F] in
theorem recordJson_keys (record : MoveRecord F) :
    ∃ fields, recordJson record = .object fields ∧ (fields.map Prod.fst).Nodup ∧
      Table.lookup fields "v" = some (.number (.posInt record.v)) ∧
      Table.lookup fields "reason" = some (reasonJson record.reason) ∧
      Table.lookup fields "detail" = some (detailJson record.detail) := by
  refine ⟨_,rfl,?_⟩
  cases record.pinDigest with
  | none => exact ⟨by simp,rfl,rfl,rfl⟩
  | some digest => exact ⟨by simp,rfl,rfl,rfl⟩

/-- A body decoded is a record that the encoder's checks accept, in a body of a size that
the encoder may write. -/
theorem decodeMoveRecord_ok {subject : String} {body : Utf8.Bytes} {record : MoveRecord F}
    (decoded : decodeMoveRecord subject body = .ok record) :
    Accepted subject record ∧ body.length ≤ bodyCap ∧ (record.state ≠ .aborted → body.length ≤ moveBodyCap) := by
  obtain ⟨tree,_,decoded⟩ := bind_ok decoded
  split at decoded
  next => cases decoded
  next =>
    split at decoded
    next => cases decoded
    next found read =>
      obtain ⟨_,valid,decoded⟩ := bind_ok decoded
      obtain ⟨_,sized,decoded⟩ := bind_ok decoded
      obtain rfl := Except.ok.inj decoded
      exact ⟨validateMove_ok.mp valid,checkMoveSize_ok.mp sized⟩

/-- A body that no value is read from is not decoded. -/
theorem decode_unread {subject : String} {chars : List Char} {record : MoveRecord F}
    (unread : Json.parse (F := F) chars = none) :
    decodeMoveRecord subject (Utf8.encode chars) ≠ .ok record := by
  intro decoded
  obtain ⟨tree,parsed,_⟩ := bind_ok decoded
  unfold wireValue at parsed
  rw [Json.parseBytes_encode,unread] at parsed
  split at parsed <;> cases parsed

/-- The round trip of a body. -/
theorem decode_encode {subject : String} {record : MoveRecord F} {body : Utf8.Bytes}
    (encoded : encodeMoveRecord subject record = .ok body)
    (own : ∀ r ∈ record.reason, MoveReason.ofText r.text = r)
    (shallow : (recordJson record).nesting < Json.depthLimit) :
    decodeMoveRecord subject body = .ok (settled record) := by
  obtain ⟨rfl,accepted,fits,small⟩ := encodeMoveRecord_ok.mp encoded
  obtain ⟨fields,object,distinct,version,reason,detail⟩ := recordJson_keys record
  have ordered : ∀ key, (recordJson record).ordered.get? key = (Table.lookup fields key).map Json.ordered :=
    fun key => by rw [object,Json.get?_ordered distinct]
  have tree : wireValue (recordJson record).text = .ok (recordJson record) := by
    unfold wireValue
    rw [if_neg (not_lt.mpr fits),Json.parseBytes_text shallow]
    dsimp only
    rw [ordered,version]
    show (checkVersion record.v).map (fun _ => recordJson record) = _
    rw [checkVersion_ok.mpr accepted.version]
    rfl
  unfold decodeMoveRecord
  rw [tree]
  show (if ((recordJson record).ordered.get? "reason").isNone = true ∨
    ((recordJson record).ordered.get? "detail").isNone = true then _ else _) = _
  rw [if_neg,readRecord_json own]
  · show (do
      validateMove subject (Wire.settled record)
      checkMoveSize record.state (recordJson record).text.length
      return Wire.settled record) = _
    rw [validateMove_ok.mpr accepted.settled,checkMoveSize_ok.mpr ⟨fits,small⟩]
    rfl
  · rw [ordered,ordered,reason,detail]
    exact fun missing => by rcases missing with none | none <;> cases none

end

end Wire
end Entorhinal.Move
