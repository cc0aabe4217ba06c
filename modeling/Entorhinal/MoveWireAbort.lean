import Entorhinal.MoveWireLaw
import Mathlib.Algebra.Order.BigOperators.Group.List

/-! The room that an abort needs: the sizes of what is written for a summary, and when the
aborted record of a move fits the shared body. -/
namespace Entorhinal.Json

section
variable {F : Type} [Doubles F]

/-- The bytes of the fields of an object, each with its colon and the sign before it. -/
def weight (fields : List (String × Json F)) : Nat :=
  (fields.map fun f => (Utf8.encode (quote f.1)).length + f.2.size + 2).sum

theorem length_emitFields (fields : List (String × Json F)) :
    (Utf8.encode (emitFields fields)).length = weight fields + 1 := by
  induction fields with
  | nil => rfl
  | cons f fields ih =>
    obtain ⟨key,value⟩ := f
    have comma : ','.utf8Size = 1 ∧ ':'.utf8Size = 1 := ⟨rfl,rfl⟩
    rw [emitFields,Utf8.length_encode_cons,Utf8.encode_append,List.length_append,Utf8.length_encode_cons,
      Utf8.encode_append,List.length_append,ih,comma.1,comma.2]
    simp only [weight,List.map_cons,List.sum_cons,size,text]
    omega

theorem size_object {fields : List (String × Json F)} (filled : fields ≠ []) :
    (Json.object fields).size = weight fields + 1 := by
  cases fields with
  | nil => exact absurd rfl filled
  | cons f fields =>
    obtain ⟨key,value⟩ := f
    -- the opening brace takes the place of the comma
    have same : (Json.object ((key,value) :: fields)).size =
        (Utf8.encode (emitFields ((key,value) :: fields))).length := by
      rw [size,text,emit,emitFields,Utf8.length_encode_cons,Utf8.length_encode_cons]
      rfl
    rw [same,length_emitFields]

theorem weight_insertRow {key : String} {value : Json F} {fields : List (String × Json F)}
    (fresh : ∀ f ∈ fields, f.1 ≠ key) :
    weight (Table.insertRow key value fields) =
      weight fields + ((Utf8.encode (quote key)).length + value.size + 2) := by
  induction fields with
  | nil => simp [Table.insertRow,weight]
  | cons f fields ih =>
    obtain ⟨k,v⟩ := f
    have other : k ≠ key := fresh _ List.mem_cons_self
    have rest := ih fun f member => fresh f (List.mem_cons_of_mem _ member)
    simp only [weight] at rest
    rw [Table.insertRow]
    split
    next => simp only [weight,List.map_cons,List.sum_cons]; omega
    next =>
      rw [if_neg (Ne.symm other)]
      simp only [weight,List.map_cons,List.sum_cons,rest]
      omega

omit [Doubles F] in
theorem insertRow_filled (key : String) (value : Json F) (fields : List (String × Json F)) :
    Table.insertRow key value fields ≠ [] := by
  cases fields with
  | nil => exact List.cons_ne_nil _ _
  | cons f fields =>
    rw [Table.insertRow]
    split_ifs <;> exact List.cons_ne_nil _ _

/-- An object with some of the keys, of a known size. -/
def Built (keys : List String) (bytes : Nat) (value : Json F) : Prop :=
  ∃ fields, value = .object fields ∧ fields ≠ [] ∧ (∀ f ∈ fields, f.1 ∈ keys) ∧ value.size = bytes

theorem Built.set {keys : List String} {bytes : Nat} {built : Json F} (known : Built keys bytes built)
    (key : String) (value : Json F) (fresh : key ∉ keys) :
    Built (key :: keys) (bytes + ((Utf8.encode (quote key)).length + value.size + 2)) (built.set key value) := by
  obtain ⟨fields,rfl,filled,listed,size⟩ := known
  refine ⟨_,rfl,insertRow_filled key value fields,?_,?_⟩
  · intro f member
    rcases Table.insertRow_mem member with rfl | inside
    · exact List.mem_cons_self
    · exact List.mem_cons_of_mem _ (listed f inside)
  · rw [size_object filled] at size
    rw [Json.set,size_object (insertRow_filled key value fields),weight_insertRow]
    · omega
    · rintro f member rfl
      exact fresh (listed f member)

theorem Built.weaken {keys more : List String} {bytes : Nat} {built : Json F} (known : Built keys bytes built)
    (within : keys ⊆ more) : Built more bytes built := by
  obtain ⟨fields,same,filled,listed,size⟩ := known
  exact ⟨fields,same,filled,fun f member => within (listed f member),size⟩

end

end Entorhinal.Json

namespace Entorhinal.Move.Wire

open Json (Doubles Value Built)

variable {F : Type} [Doubles F]

theorem size_string (text : String) : (Json.string text : Json F).size = quotedSize text.toList := rfl

theorem quotedSize_le {limit n : Nat} {text : List Char} (fuel : text.length ≤ n) (least : 2 ≤ limit) :
    quotedSize (popTo limit n text) ≤ limit := by
  induction n generalizing text with
  | zero =>
    obtain rfl := List.length_eq_zero_iff.mp (Nat.le_zero.mp fuel)
    exact least
  | succ n ih =>
    rw [popTo]
    split
    next fits => exact fits
    next =>
      apply ih
      rw [List.length_dropLast]
      omega

theorem summaryString_size (value : Option (Json F)) : (summaryString value).size ≤ 512 := by
  unfold summaryString
  split
  next => exact Nat.le_of_ble_eq_true rfl
  next text _ =>
    rw [size_string,String.toList_ofList]
    apply quotedSize_le _ (by decide)
    rw [List.length_take]
    omega

/-- The bytes that a string of the detail takes in a summary. -/
def share (detail : Json F) (key : String) : Nat :=
  if isStr (detail.get? key) then (Utf8.encode (Json.quote key)).length + (summaryString (detail.get? key)).size + 2
  else 0

def reasonShare (detail : Json F) : Nat :=
  if isStr (detail.get? "reason") then
    (Utf8.encode (Json.quote "reason")).length + (detail.field "reason").size + 2
  else 0

/-- A detail fits as it is, or it is not a diverged one, or what a diverged one shows of its
strings leaves room for its reason. -/
def Fits (detail : Json F) : Prop :=
  detail.size ≤ detailCap ∨ isDiverged detail = false ∨
    32 + (summaryString (detail.get? "op")).size + (summaryString (detail.get? "code")).size +
      share detail "module_id" + share detail "ref" + share detail "state" + reasonShare detail ≤ detailCap

instance (detail : Json F) : Decidable (Fits detail) :=
  inferInstanceAs (Decidable (_ ∨ _ ∨ _))

theorem share_le (detail : Json F) (key : String) :
    share detail key ≤ (Utf8.encode (Json.quote key)).length + 514 := by
  unfold share
  have := summaryString_size (detail.get? key)
  split <;> omega

theorem Built.cut {keys : List String} {bytes : Nat} {built : Json F} (known : Built keys bytes built)
    (key : String) (detail : Json F) (fresh : key ∉ keys) :
    Built (key :: keys) (bytes + share detail key)
      (if isStr (detail.get? key) then built.set key (summaryString (detail.get? key)) else built) := by
  unfold share
  split
  next => exact known.set _ _ fresh
  next => exact known.weaken fun _ member => List.mem_cons_of_mem _ member

theorem built_head (op code : Json F) :
    Built ["code","op","truncated"] (32 + op.size + code.size)
      (Json.objectOf [("truncated",.bool true),("op",op),("code",code)]) := by
  have first : Built ["truncated"] 18 (.object [("truncated",.bool true)] : Json F) :=
    ⟨_,rfl,List.cons_ne_nil _ _,fun f member => by simp_all,rfl⟩
  have second := first.set "op" op (by decide)
  have third := second.set "code" code (by decide)
  have length : (Utf8.encode (Json.quote "op")).length = 4 ∧ (Utf8.encode (Json.quote "code")).length = 6 := ⟨rfl,rfl⟩
  have total : 18 + (4 + op.size + 2) + (6 + code.size + 2) = 32 + op.size + code.size := by omega
  rw [length.1,length.2,total] at third
  exact third

/-- The size of a summary is the sum of what its fields take. -/
theorem summary_size (detail : Json F) :
    (summary detail).size = 32 + (summaryString (detail.get? "op")).size +
      (summaryString (detail.get? "code")).size + share detail "module_id" +
      if isDiverged detail then share detail "ref" + share detail "state" + reasonShare detail else 0 := by
  have head := Built.cut (built_head (summaryString (detail.get? "op")) (summaryString (detail.get? "code")))
    "module_id" detail (by decide)
  have ref := Built.cut head "ref" detail (by decide)
  have state := Built.cut ref "state" detail (by decide)
  unfold summary
  dsimp only
  split
  next =>
    unfold reasonShare
    split
    next =>
      obtain ⟨_,_,_,_,size⟩ := state.set "reason" (detail.field "reason") (by decide)
      rw [size]
      omega
    next =>
      obtain ⟨_,_,_,_,size⟩ := state
      rw [size]
      omega
  next =>
    obtain ⟨_,_,_,_,size⟩ := head
    rw [size]
    rfl

/-- A detail is bounded exactly when it fits. -/
theorem boundedDetail_size (detail : Json F) : (boundedDetail detail).size ≤ detailCap ↔ Fits detail := by
  unfold boundedDetail Fits
  by_cases small : detail.size ≤ detailCap
  · rw [if_pos small]
    exact iff_of_true small (.inl small)
  · rw [if_neg small,summary_size]
    have op := summaryString_size (detail.get? "op")
    have code := summaryString_size (detail.get? "code")
    have module := share_le detail "module_id"
    have length : (Utf8.encode (Json.quote "module_id")).length = 11 := rfl
    rw [length] at module
    cases diverged : isDiverged detail with
    | false =>
      rw [if_neg (by decide)]
      refine iff_of_true ?_ (.inr (.inl rfl))
      show _ ≤ 2048
      omega
    | true =>
      rw [if_pos rfl]
      constructor
      · intro fits
        right
        right
        omega
      · rintro (own | plain | fits)
        · exact absurd own small
        · cases plain
        · omega

omit [Doubles F] in
theorem summaryString_sorted (value : Option (Json F)) : (summaryString value).Sorted := by
  unfold summaryString
  split <;> trivial

theorem boundedDetail_sorted {detail : Json F} (sorted : detail.Sorted) : (boundedDetail detail).Sorted := by
  have cut : ∀ {key : String} {built : Json F}, built.Sorted →
      (if isStr (detail.get? key) then built.set key (summaryString (detail.get? key)) else built).Sorted := by
    intro key built own
    split
    next => exact Json.set_sorted (summaryString_sorted _) own
    next => exact own
  have head : (Json.objectOf [("truncated",.bool true),("op",summaryString (detail.get? "op")),
      ("code",summaryString (detail.get? "code"))]).Sorted :=
    Json.set_sorted (summaryString_sorted _) (Json.set_sorted (summaryString_sorted _)
      (Json.set_sorted (show (Json.bool true).Sorted from trivial) (show (Json.object []).Sorted from ⟨.nil,trivial⟩)))
  unfold boundedDetail summary
  dsimp only
  split
  next => exact sorted
  next =>
    split
    next =>
      split
      next => exact Json.set_sorted (Json.field_sorted sorted "reason") (cut (cut (cut head)))
      next => exact cut (cut (cut head))
    next => exact cut head

theorem boundedValue_json (detail : Value F) : (boundedValue detail).json = boundedDetail detail.json :=
  (boundedDetail_sorted detail.sorted).ordered_eq

/-- The limit that the participants' protocol sets for a reason: 256 bytes, no control characters. -/
def ProtocolReason (text : String) : Prop :=
  (Utf8.encode text.toList).length ≤ 256 ∧ ∀ c ∈ text.toList, 32 ≤ c.toNat

theorem escape_size {c : Char} (plain : 32 ≤ c.toNat) : (Utf8.encode (Json.escape c)).length ≤ 2 * c.utf8Size := by
  have positive := c.utf8Size_pos
  have double : ∀ d : Char, d.utf8Size = 1 → (Utf8.encode ['\\',d]).length = 2 := by
    intro d one
    rw [Utf8.length_encode_cons,Utf8.length_encode_cons,one]
    rfl
  unfold Json.escape
  split
  next => rw [double '\x22' rfl]; omega
  next =>
    split
    next => rw [double '\\' rfl]; omega
    next =>
      rw [if_neg (by omega),if_neg (by omega),if_neg (by omega),if_neg (by omega),if_neg (by omega),
        if_neg (by omega),Utf8.length_encode_cons]
      show c.utf8Size + 0 ≤ _
      omega

theorem escaped_size {text : List Char} (plain : ∀ c ∈ text, 32 ≤ c.toNat) :
    (Utf8.encode (text.flatMap Json.escape)).length ≤ 2 * (Utf8.encode text).length := by
  induction text with
  | nil => exact Nat.le_refl 0
  | cons c text ih =>
    have first := escape_size (plain c List.mem_cons_self)
    have rest := ih fun d member => plain d (List.mem_cons_of_mem _ member)
    rw [List.flatMap_cons,Utf8.encode_append,List.length_append,Utf8.length_encode_cons]
    omega

theorem quotedSize_protocol {text : String} (limit : ProtocolReason text) : quotedSize text.toList ≤ 514 := by
  have escaped := escaped_size limit.2
  have := limit.1
  have mark : '\x22'.utf8Size = 1 := rfl
  rw [quotedSize,Json.quoteChars,Utf8.length_encode_cons,Utf8.encode_append,List.length_append,
    Utf8.length_encode_cons,mark]
  show 1 + (_ + (1 + 0)) ≤ _
  omega

theorem share_diverged {detail : Json F} (diverged : isDiverged detail = true) : share detail "state" ≤ 19 := by
  have length : (Utf8.encode (Json.quote "state")).length = 7 := rfl
  have sizes : quotedSize (popTo 512 512 ("unknown".toList.take 512)) = 9 ∧
      quotedSize (popTo 512 512 ("advanced".toList.take 512)) = 10 := ⟨rfl,rfl⟩
  have named : ∀ text, (detail.get? "state").bind Json.asStr = some text →
      (summaryString (detail.get? "state")).size = quotedSize (popTo 512 512 (text.toList.take 512)) := by
    intro text found
    rw [summaryString,found]
    show quotedSize (String.ofList _).toList = _
    rw [String.toList_ofList]
  unfold share
  rw [isDiverged,Bool.or_eq_true,beq_iff_eq,beq_iff_eq] at diverged
  split
  next =>
    rcases diverged with unknown | advanced
    · rw [length,named _ unknown]
      omega
    · rw [length,named _ advanced]
      omega
  next => omega

/-- What a receiver writes for a diverged participant fits: no operation, no code, and a
reason within the protocol's limit. -/
theorem fits_diverged {detail : Json F} (op : isStr (detail.get? "op") = false)
    (code : isStr (detail.get? "code") = false)
    (limit : ∀ text, (detail.get? "reason").bind Json.asStr = some text → ProtocolReason text) :
    Fits detail := by
  cases diverged : isDiverged detail with
  | false => exact .inr (.inl diverged)
  | true =>
  right
  right
  have null : ∀ {value : Option (Json F)}, isStr value = false → (summaryString value).size = 4 := by
    intro value absent
    unfold summaryString
    rw [isStr,Option.isSome_eq_false_iff,Option.isNone_iff_eq_none] at absent
    rw [absent]
    rfl
  have reason : reasonShare detail ≤ 524 := by
    unfold reasonShare
    split
    next given =>
      obtain ⟨text,found⟩ := Option.isSome_iff_exists.mp given
      have bound := quotedSize_protocol (limit text found)
      obtain ⟨value,present,string⟩ := Option.bind_eq_some_iff.mp found
      have length : (Utf8.encode (Json.quote "reason")).length = 8 := rfl
      have shown : detail.field "reason" = .string text := by
        rw [Json.field,present]
        cases value with
        | string other =>
          obtain rfl := Option.some.inj string
          rfl
        | _ => cases string
      rw [length,shown,size_string]
      omega
    next => omega
  have module := share_le detail "module_id"
  have ref := share_le detail "ref"
  have state := share_diverged diverged
  have lengths : (Utf8.encode (Json.quote "module_id")).length = 11 ∧
      (Utf8.encode (Json.quote "ref")).length = 5 :=
    ⟨rfl,rfl⟩
  rw [lengths.1] at module
  rw [lengths.2] at ref
  rw [null op,null code]
  show _ ≤ 2048
  omega

theorem weight_append (a b : List (String × Json F)) : Json.weight (a ++ b) = Json.weight a + Json.weight b := by
  simp only [Json.weight,List.map_append,List.sum_append]

omit [Doubles F] in
theorem state_size (state : MoveRecordState) : 8 ≤ quotedSize state.asStr.toList := by
  cases state <;> exact Nat.le_of_ble_eq_true rfl

theorem reason_size {reason : MoveReason} (known : reason.known = true) :
    (reasonJson (F := F) (some reason)).size ≤ 25 := by
  show quotedSize reason.text.toList ≤ 25
  cases reason with
  | other reason => cases known
  | _ => exact Nat.le_of_ble_eq_true rfl

/-- An abort takes less than the room reserved for it. -/
theorem aborted_size {record : MoveRecord F} {reason : MoveReason} {detail : Option (Value F)}
    (open_reason : record.reason = none) (open_detail : record.detail = none) (known : reason.known = true)
    (fits : ∀ d ∈ detail, Fits d.json) :
    (recordJson (abortedRecord record reason detail)).size ≤ (recordJson record).size + abortReserve := by
  have state : 8 ≤ (Json.string record.state.asStr : Json F).size := state_size record.state
  have aborted : (Json.string MoveRecordState.aborted.asStr : Json F).size = 9 := by
    show quotedSize "aborted".toList = 9
    rfl
  have reasons := reason_size (F := F) known
  have details : (detailJson (detail.map boundedValue)).size ≤ 2048 := by
    cases detail with
    | none => exact Nat.le_of_ble_eq_true rfl
    | some d =>
      show (boundedValue d).json.size ≤ detailCap
      rw [boundedValue_json]
      exact (boundedDetail_size d.json).mpr (fits d rfl)
  unfold recordJson abortedRecord
  dsimp only
  rw [Json.size_object (List.append_ne_nil_of_left_ne_nil (List.cons_ne_nil _ _) _),
    Json.size_object (List.append_ne_nil_of_left_ne_nil (List.cons_ne_nil _ _) _)]
  have none_reason : (reasonJson none : Json F).size = 4 := rfl
  have none_detail : (detailJson none : Json F).size = 4 := rfl
  rw [open_reason,open_detail]
  simp only [weight_append]
  generalize Json.weight (record.pinDigest.map fun digest => ("pin_digest",(Json.string digest : Json F))).toList =
    pins
  simp only [Json.weight,List.map_cons,List.map_nil,List.sum_cons,List.sum_nil]
  show _ ≤ _ + 4096
  omega

theorem Accepted.aborted {subject : String} {record : MoveRecord F} (accepted : Accepted subject record)
    {reason : MoveReason} {detail : Option (Value F)} (fits : ∀ d ∈ detail, Fits d.json) :
    Accepted subject (abortedRecord record reason detail) where
  version := accepted.version
  cut := accepted.cut
  cut_hex := accepted.cut_hex
  pins := accepted.pins
  participants := accepted.participants
  in_order := accepted.in_order
  detail_size bounded kept := by
    obtain ⟨d,given,rfl⟩ := Option.map_eq_some_iff.mp kept
    rw [boundedValue_json]
    exact (boundedDetail_size d.json).mpr (fits d given)
  reasons := rfl

/-- An abort over a record that could be written can be written exactly when its detail fits. -/
theorem abort_encodes {subject : String} {record : MoveRecord F} {body : Utf8.Bytes} {reason : MoveReason}
    {detail : Option (Value F)} (encoded : encodeMoveRecord subject record = .ok body)
    (going : record.state ≠ .aborted) (known : reason.known = true) :
    (∃ aborted, encodeMoveRecord subject (abortedRecord record reason detail) = .ok aborted) ↔
      ∀ d ∈ detail, Fits d.json := by
  obtain ⟨rfl,accepted,_,small⟩ := encodeMoveRecord_ok.mp encoded
  have open_record := accepted.reasons
  rw [if_neg going] at open_record
  constructor
  · rintro ⟨aborted,written⟩ d given
    have bound := (encodeMoveRecord_ok.mp written).2.1.detail_size (boundedValue d)
      (Option.map_eq_some_iff.mpr ⟨d,given,rfl⟩)
    rw [boundedValue_json] at bound
    exact (boundedDetail_size d.json).mp bound
  · intro fits
    have size := aborted_size open_record.1 open_record.2 known fits
    have room : (recordJson (abortedRecord record reason detail)).text.length ≤ bodyCap := by
      have published := small going
      simp only [Json.size] at size
      show _ ≤ 65536
      simp only [moveBodyCap,bodyCap,abortReserve] at published size
      omega
    exact ⟨_,encodeMoveRecord_ok.mpr ⟨rfl,accepted.aborted fits,room,fun going => absurd rfl going⟩⟩

/-- The codec of move records: when a detail is bounded and an abort written, that a body
gives back its record, what a decoded body has passed, and that no later state changes the
plan. -/
theorem codec_of_move_records [DecidableEq F] :
    (∀ detail : Value F, (boundedValue detail).json.size ≤ detailCap ↔ Fits detail.json) ∧
    (∀ (subject : String) (record : MoveRecord F) (body : Utf8.Bytes) (reason : MoveReason)
        (detail : Option (Value F)), encodeMoveRecord subject record = .ok body → record.state ≠ .aborted →
      reason.known = true →
      ((∃ aborted, encodeMoveRecord subject (abortedRecord record reason detail) = .ok aborted) ↔
        ∀ d ∈ detail, Fits d.json)) ∧
    (∀ detail : Json F, isStr (detail.get? "op") = false → isStr (detail.get? "code") = false →
      (∀ text, (detail.get? "reason").bind Json.asStr = some text → ProtocolReason text) → Fits detail) ∧
    (∀ (subject : String) (record : MoveRecord F) (body : Utf8.Bytes),
      encodeMoveRecord subject record = .ok body →
      (∀ reason ∈ record.reason, MoveReason.ofText reason.text = reason) →
      (recordJson record).nesting < Json.depthLimit →
      decodeMoveRecord subject body = .ok (settled record)) ∧
    (∀ (subject : String) (record : MoveRecord F) (body : Utf8.Bytes),
      decodeMoveRecord subject body = .ok record →
      validateMove subject record = .ok () ∧ checkMoveSize record.state body.length = .ok ()) ∧
    ∀ (record : MoveRecord F) (state : MoveRecordState) (reason : Option MoveReason) (detail : Option (Value F)),
      checkPinnedPlan record { record with state := state, reason := reason, detail := detail } = .ok () := by
  refine ⟨?_,?_,?_,?_,?_,?_⟩
  · intro detail
    rw [boundedValue_json]
    exact boundedDetail_size detail.json
  · exact fun _ _ _ _ _ encoded going known => abort_encodes encoded going known
  · exact fun _ op code limit => fits_diverged op code limit
  · exact fun _ _ _ encoded own shallow => decode_encode encoded own shallow
  · intro subject record body decoded
    obtain ⟨accepted,fits,small⟩ := decodeMoveRecord_ok decoded
    exact ⟨validateMove_ok.mpr accepted,checkMoveSize_ok.mpr ⟨fits,small⟩⟩
  · intro record state reason detail
    exact if_pos ⟨rfl,rfl,rfl,rfl,rfl,rfl⟩

theorem size_member {fields : List (String × Json F)} {key : String} {value : Json F}
    (found : Table.lookup fields key = some value) : value.size ≤ (Json.object fields).size := by
  have member := Table.mem_of_lookup found
  have part : (Utf8.encode (Json.quote key)).length + value.size + 2 ≤ Json.weight fields :=
    List.le_sum_of_mem (List.mem_map.mpr ⟨_,member,rfl⟩)
  rw [Json.size_object (List.ne_nil_of_mem member)]
  omega

/-- A diverged detail whose reason alone is over the limit does not fit. -/
theorem not_fits {detail : Json F} (text : String) (diverged : isDiverged detail = true)
    (reason : detail.get? "reason" = some (.string text)) (long : detailCap < quotedSize text.toList) :
    ¬ Fits detail := by
  have whole : quotedSize text.toList ≤ detail.size := by
    cases detail with
    | object fields => exact @size_member _ _ _ _ (.string text) reason
    | _ => cases reason
  have shown : (detail.field "reason").size = quotedSize text.toList := by
    rw [Json.field,reason]
    rfl
  have share : quotedSize text.toList ≤ reasonShare detail := by
    rw [reasonShare,if_pos (by rw [isStr,reason]; rfl),shown]
    omega
  rintro (own | plain | fits)
  · omega
  · rw [diverged] at plain
    cases plain
  · omega

theorem quotedSize_replicate (n : Nat) : quotedSize (List.replicate n 'x') = n + 2 := by
  have escaped : (List.replicate n 'x').flatMap Json.escape = List.replicate n 'x' := by
    induction n with
    | zero => rfl
    | succ n ih => rw [List.replicate_succ,List.flatMap_cons,ih]; rfl
  have length : (Utf8.encode (List.replicate n 'x' ++ ['\x22'])).length = n + 1 := by
    induction n with
    | zero => rfl
    | succ n ih =>
      have one : 'x'.utf8Size = 1 := rfl
      rw [List.replicate_succ,List.cons_append,Utf8.length_encode_cons,ih,one]
      · omega
      · rw [List.replicate_succ,List.flatMap_cons] at escaped
        exact (List.cons.inj escaped).2
  have mark : '\x22'.utf8Size = 1 := rfl
  rw [quotedSize,Json.quoteChars,escaped,Utf8.length_encode_cons,length,mark]
  omega

def cutSubject : String := "move:0123456789abcdef0123456789abcdef"

def plainRecord (participants : List (MoveParticipant F)) : MoveRecord F :=
  ⟨1,"0123456789abcdef0123456789abcdef","agent","a","b",.published,3,participants,none,none,none⟩

def divergedDetail (reason : String) : Value F :=
  ⟨.object [("reason",.string reason),("state",.string "unknown")],
    .cons (fun _ member => List.mem_singleton.mp member ▸ (by decide : "reason" < "state")) (.cons nofun .nil),
    trivial,trivial,trivial⟩

/-- A diverged participant's reason of 2048 characters. -/
def longDetail : Value F := divergedDetail (String.ofList (List.replicate 2048 'x'))

/-- A check that nests in one array more than the reader of a whole record allows. -/
def deepArray : Nat → Json F
  | 0 => .array []
  | n + 1 => .array [deepArray n]

def deepRecord : MoveRecord F := plainRecord [⟨"alpha",[],[⟨"session","s","note",.of (deepArray 122)⟩]⟩]

theorem encoded_of_isSome {subject : String} {record : MoveRecord F}
    (some_body : (encodeMoveRecord subject record).toOption.isSome = true) :
    ∃ body, encodeMoveRecord subject record = .ok body := by
  cases result : encodeMoveRecord subject record with
  | ok body => exact ⟨body,rfl⟩
  | error e =>
    rw [result] at some_body
    cases some_body

/-- An abort of a published move over a long diverged reason is refused by the encoder, and
a deep check is encoded in a body that no reader decodes. -/
theorem abort_refused_and_body_unread :
    ¬ ((∀ (record : MoveRecord Empty) (reason : MoveReason) (detail : Value Empty),
        (∃ body, encodeMoveRecord cutSubject record = .ok body) → record.state ≠ .aborted →
        reason.known = true →
        ∃ body, encodeMoveRecord cutSubject (abortedRecord record reason (some detail)) = .ok body)) ∧
    ¬ (∀ detail : Value Empty, (boundedValue detail).json.size ≤ detailCap) ∧
    ¬ (∀ (record : MoveRecord Empty) (body : Utf8.Bytes), encodeMoveRecord cutSubject record = .ok body →
        decodeMoveRecord cutSubject body = .ok (settled record)) := by
  have over_cap : ¬ Fits (longDetail (F := Empty)).json := by
    apply not_fits (String.ofList (List.replicate 2048 'x')) rfl rfl
    rw [String.toList_ofList,quotedSize_replicate]
    decide
  have published : (encodeMoveRecord cutSubject (plainRecord (F := Empty) [])).toOption.isSome = true := by
    decide +kernel
  obtain ⟨body,encoded⟩ := encoded_of_isSome published
  refine ⟨?_,?_,?_⟩
  · intro always
    have aborted := always (plainRecord []) .diverged longDetail ⟨body,encoded⟩ (by decide) rfl
    exact over_cap ((abort_encodes encoded (by decide) rfl).mp aborted longDetail rfl)
  · intro always
    have bound := always longDetail
    rw [boundedValue_json] at bound
    exact over_cap ((boundedDetail_size _).mp bound)
  · intro always
    have accepted : (encodeMoveRecord cutSubject (deepRecord (F := Empty))).toOption.isSome = true := by
      decide +kernel
    have unread : Json.parse (F := Empty) (recordJson (deepRecord (F := Empty))).emit = none := by
      rw [← Option.isNone_iff_eq_none]
      decide +kernel
    obtain ⟨deep,written⟩ := encoded_of_isSome accepted
    obtain ⟨rfl,_⟩ := encodeMoveRecord_ok.mp written
    exact decode_unread unread (always (deepRecord (F := Empty)) _ written)

end Entorhinal.Move.Wire
