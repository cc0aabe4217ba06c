import Entorhinal.Jcs
import Entorhinal.JsonLaw

/-! Canonical texts determine what they were written for: a value whose numbers are exact
integers is written as the compact text of its canonical tree, and the reader gives that
tree back. -/
namespace Entorhinal.Json

section
variable {F : Type} [Floats F]

def canonicalNumber (n : Number F) : Number F :=
  match n.safe with
  | some k => if k < 0 then .negInt (Fin.ofNat _ (k.natAbs - 1)) else .posInt (Fin.ofNat _ k.natAbs)
  | none => n

/-- The literals that stand for integers, as doubles. -/
instance : Floats Int where
  read literal :=
    let n : Int := Nat.ofDigitChars 10 literal.digits 0
    if literal.fraction.any (· != '0') then none
    else match literal.exponent with
      | none => some (if literal.negative then -n else n)
      | some (.minus,_) => none
      | some (_,digits) =>
        some ((if literal.negative then -n else n) * 10 ^ Nat.ofDigitChars 10 digits 0)
  write k := ⟨decide (k < 0),Nat.toDigits 10 k.natAbs,['0'],none⟩
  write_valid k := ⟨toDigits_digits _,Nat.toDigits_ne_nil,toDigits_plain _,fun _ member =>
    List.mem_singleton.mp member ▸ rfl,fun _ member => by cases member⟩
  write_integral _ := rfl
  read_write k := by
    show some (if decide (k < 0) = true then -((Nat.ofDigitChars 10 (Nat.toDigits 10 k.natAbs) 0 : Nat) : Int)
      else ((Nat.ofDigitChars 10 (Nat.toDigits 10 k.natAbs) 0 : Nat) : Int)) = some k
    rw [Nat.ofDigitChars_ten_toDigits]
    congr 1
    simp only [decide_eq_true_eq]
    split <;> omega
  ofInt k := k
  whole k := some k
  negative k := decide (k < 0)
  shortest k := (trimZeros (Nat.toDigits 10 k.natAbs),((Nat.toDigits 10 k.natAbs).length : Int) - 1)
  whole_ofInt _ _ := rfl
  whole_large k j large same := Option.some.inj same ▸ large
  negative_whole x k same _ := Option.some.inj same ▸ rfl
  shortest_whole x k same _ _ := Option.some.inj same ▸ rfl

mutual
/-- Keys in canonical order, numbers as integers. -/
def canonical : Json F → Json F
  | .number n => .number (canonicalNumber n)
  | .array items => .array (canonicalItems items)
  | .object fields => .object (sortKeys (canonicalFields fields))
  | value => value

def canonicalItems : List (Json F) → List (Json F)
  | [] => []
  | item :: rest => item.canonical :: canonicalItems rest

def canonicalFields : List (String × Json F) → List (String × Json F)
  | [] => []
  | (key,value) :: rest => (key,value.canonical) :: canonicalFields rest
end

omit [Floats F] in
theorem sortKeys_perm {α : Type} (fields : List (String × α)) : (sortKeys fields).Perm fields :=
  List.perm_insertionSort _ _

theorem trimZeros_pad (digits : List Char) :
    trimZeros digits ++ List.replicate (digits.length - (trimZeros digits).length) '0' = digits := by
  unfold trimZeros
  induction digits using List.reverseRecOn with
  | nil => rfl
  | append_singleton digits d ih =>
    by_cases zero : (d == '0') = true
    · have shorter := List.rdropWhile_prefix (fun c => c == '0') digits |>.length_le
      have one_more : (digits ++ [d]).length - (digits.rdropWhile fun c => c == '0').length =
          (digits.length - (digits.rdropWhile fun c => c == '0').length) + 1 := by
        rw [List.length_append,List.length_singleton]
        omega
      rw [List.rdropWhile_concat_pos (fun c => c == '0') digits d zero,one_more,List.replicate_succ',← List.append_assoc,ih,
        beq_iff_eq.mp zero]
    · rw [List.rdropWhile_concat_neg (fun c => c == '0') digits d zero,Nat.sub_self]
      exact List.append_nil _

theorem arrange_digits {n : Nat} (small : n ≤ maxSafe) :
    arrange (trimZeros (trimZeros (Nat.toDigits 10 n))) (((Nat.toDigits 10 n).length : Int) - 1) =
      Nat.toDigits 10 n := by
  have idempotent : trimZeros (trimZeros (Nat.toDigits 10 n)) = trimZeros (Nat.toDigits 10 n) :=
    List.rdropWhile_idempotent ..
  have short : (Nat.toDigits 10 n).length ≤ 16 := by
    rw [Nat.length_toDigits_le_iff (by decide) (by decide)]
    simp only [maxSafe] at small
    omega
  have shorter : (trimZeros (Nat.toDigits 10 n)).length ≤ (Nat.toDigits 10 n).length :=
    (List.rdropWhile_prefix ..).length_le
  have zeros : ((Nat.toDigits 10 n).length - 1 + 1 - ((trimZeros (Nat.toDigits 10 n)).length : Int)).toNat =
      (Nat.toDigits 10 n).length - (trimZeros (Nat.toDigits 10 n)).length := by omega
  unfold arrange
  rw [idempotent,if_pos ⟨by omega,by omega⟩,zeros,trimZeros_pad]

theorem safe_whole {n : Number F} {k : Int} (safe : n.safe = some k) :
    Floats.whole n.asF64 = some k ∧ k.natAbs ≤ maxSafe := by
  obtain ⟨whole,small⟩ := Option.filter_eq_some_iff.mp safe
  exact ⟨whole,of_decide_eq_true small⟩

/-- An exact integer is written with its sign and digits. -/
theorem numberText_safe {n : Number F} {k : Int} (safe : n.safe = some k) : numberText n.asF64 = intText k := by
  obtain ⟨whole,small⟩ := safe_whole safe
  unfold numberText intText
  by_cases zero : k = 0
  · subst zero
    rw [if_pos whole]
    rfl
  · rw [if_neg (by rw [whole]; exact fun same => zero (Option.some.inj same)),
      Floats.shortest_whole _ k whole zero small,Floats.negative_whole _ k whole zero]
    dsimp only
    rw [arrange_digits small]
    simp only [decide_eq_true_eq]

theorem canonicalNumber_text {n : Number F} {k : Int} (safe : n.safe = some k) :
    (canonicalNumber n).literal.text = intText k := by
  obtain ⟨_,small⟩ := safe_whole safe
  simp only [maxSafe] at small
  have plain : ∀ digits : List Char, digits ++ (fractionText [] ++ exponentText none) = digits :=
    fun digits => List.append_nil digits
  unfold canonicalNumber intText
  rw [safe]
  dsimp only
  split
  next negative =>
    have value : (Fin.ofNat (2 ^ 63) (k.natAbs - 1)).val + 1 = k.natAbs := by
      rw [Fin.val_ofNat,Nat.mod_eq_of_lt (by omega)]
      omega
    rw [Number.literal,Literal.text,value]
    exact congrArg ('-' :: ·) (plain _)
  next positive =>
    have value : (Fin.ofNat (2 ^ 64) k.natAbs).val = k.natAbs := by
      rw [Fin.val_ofNat,Nat.mod_eq_of_lt (by omega)]
    rw [Number.literal,Literal.text,value]
    exact plain _

theorem canonicalNumber_safe {n : Number F} {k : Int} (safe : n.safe = some k) :
    (canonicalNumber n).safe = some k := by
  obtain ⟨_,small⟩ := safe_whole safe
  have bound := small
  simp only [maxSafe] at small
  have same : (canonicalNumber n).asF64 = Floats.ofInt k := by
    unfold canonicalNumber
    rw [safe]
    dsimp only
    split
    next negative =>
      have value : (Fin.ofNat (2 ^ 63) (k.natAbs - 1)).val = k.natAbs - 1 := by
        rw [Fin.val_ofNat,Nat.mod_eq_of_lt (by omega)]
      show Floats.ofInt (-((Fin.ofNat (2 ^ 63) (k.natAbs - 1)).val + 1 : Int)) = _
      rw [value]
      congr 1
      omega
    next positive =>
      have value : (Fin.ofNat (2 ^ 64) k.natAbs).val = k.natAbs := by
        rw [Fin.val_ofNat,Nat.mod_eq_of_lt (by omega)]
      show Floats.ofInt ((Fin.ofNat (2 ^ 64) k.natAbs).val : Int) = _
      rw [value]
      congr 1
      omega
  rw [Number.safe,same,Floats.whole_ofInt k bound]
  exact Option.filter_some_pos (decide_eq_true bound)

def fieldText (f : String × List Char) : List Char := quote f.1 ++ ':' :: f.2

omit [Floats F] in
theorem emit_array [Doubles F] (items : List (Json F)) :
    (Json.array items).emit = '[' :: (join (items.map emit) ++ [']']) := by
  have rest : ∀ items : List (Json F), emitItems items = (items.map emit).flatMap (',' :: ·) ++ [']'] := by
    intro items
    induction items with
    | nil => rfl
    | cons item items ih => rw [emitItems,ih,List.map_cons,List.flatMap_cons,List.append_assoc]; rfl
  cases items with
  | nil => rfl
  | cons item items => rw [emit,rest,List.map_cons,join,List.append_assoc]

omit [Floats F] in
theorem emit_object [Doubles F] (fields : List (String × Json F)) :
    (Json.object fields).emit =
      '\x7b' :: (join (fields.map fun f => fieldText (f.1,f.2.emit)) ++ ['\x7d']) := by
  have rest : ∀ fields : List (String × Json F),
      emitFields fields = (fields.map fun f => fieldText (f.1,f.2.emit)).flatMap (',' :: ·) ++ ['\x7d'] := by
    intro fields
    induction fields with
    | nil => rfl
    | cons f fields ih =>
      obtain ⟨key,value⟩ := f
      rw [emitFields,ih,List.map_cons,List.flatMap_cons,List.append_assoc,fieldText,List.cons_append,
        List.append_assoc,List.cons_append]
  cases fields with
  | nil => rfl
  | cons f fields =>
    obtain ⟨key,value⟩ := f
    rw [emit,rest,List.map_cons,join,List.append_assoc,fieldText,List.append_assoc,List.cons_append]

theorem sortKeys_map {α β : Type} (f : α → β) (fields : List (String × α)) :
    (sortKeys fields).map (fun x => (x.1,f x.2)) = sortKeys (fields.map fun x => (x.1,f x.2)) :=
  List.map_insertionSort _ _ _ _ fun _ _ _ _ => Iff.rfl

mutual
/-- The canonical text is the compact text of the canonical tree. -/
theorem jcs_canonical : ∀ {value : Json F}, value.signedNumbers = true → value.jcs = value.canonical.emit
  | .null,_ => rfl
  | .bool true,_ => rfl
  | .bool false,_ => rfl
  | .string _,_ => rfl
  | .number n,signed => by
    obtain ⟨k,safe⟩ := Option.isSome_iff_exists.mp signed
    rw [jcs,canonical,emit,numberText_safe safe,canonicalNumber_text safe]
  | .array items,signed => by
    rw [jcs,canonical,emit_array,jcsItems_canonical signed]
  | .object fields,signed => by
    have sorted : (sortKeys (canonicalFields fields)).map (fun f => (f.1,f.2.emit)) = sortKeys (jcsFields fields) := by
      rw [sortKeys_map,jcsFields_canonical signed]
    rw [jcs,canonical,emit_object,← sorted,List.map_map]
    rfl

theorem jcsItems_canonical : ∀ {items : List (Json F)}, signedItems items = true →
    jcsItems items = (canonicalItems items).map emit
  | [],_ => rfl
  | item :: items,signed => by
    rw [signedItems,Bool.and_eq_true] at signed
    rw [jcsItems,canonicalItems,List.map_cons,jcs_canonical signed.1,jcsItems_canonical signed.2]

theorem jcsFields_canonical : ∀ {fields : List (String × Json F)}, signedFields fields = true →
    jcsFields fields = (canonicalFields fields).map fun f => (f.1,f.2.emit)
  | [],_ => rfl
  | (key,value) :: fields,signed => by
    rw [signedFields,Bool.and_eq_true] at signed
    rw [jcsFields,canonicalFields,List.map_cons,jcs_canonical signed.1,jcsFields_canonical signed.2]
end

end

section
variable {F : Type}

theorem nestingFields_le {fields : List (String × Json F)} {n : Nat} :
    nestingFields fields ≤ n ↔ ∀ f ∈ fields, f.2.nesting ≤ n := by
  induction fields with
  | nil => simp [nestingFields]
  | cons f fields ih =>
    obtain ⟨key,value⟩ := f
    simp [nestingFields,ih]

mutual
theorem nesting_ordered : ∀ value : Json F, value.ordered.nesting ≤ value.nesting
  | .null | .bool _ | .number _ | .string _ => Nat.le_refl _
  | .array items => Nat.succ_le_succ (nestingItems_ordered items)
  | .object fields => by
    have inner := nestingFields_ordered fields [] (n := nestingFields fields) (Nat.le_refl _) (Nat.zero_le _)
    exact Nat.succ_le_succ inner

theorem nestingItems_ordered : ∀ items : List (Json F), nestingItems (orderedItems items) ≤ nestingItems items
  | [] => Nat.le_refl _
  | item :: items => max_le_max (nesting_ordered item) (nestingItems_ordered items)

theorem nestingFields_ordered : ∀ (fields kept : List (String × Json F)) {n : Nat},
    nestingFields fields ≤ n → nestingFields kept ≤ n → nestingFields (orderedFields fields kept) ≤ n
  | [],_,_,_,own => own
  | (key,value) :: fields,kept,n,given,own => by
    rw [nestingFields] at given
    apply nestingFields_ordered fields _ (le_trans (le_max_right _ _) given)
    rw [nestingFields_le]
    intro f member
    rcases Table.insertRow_mem member with rfl | inside
    · exact le_trans (nesting_ordered value) (le_trans (le_max_left _ _) given)
    · exact nestingFields_le.mp own f inside
end

variable [Floats F]

mutual
theorem nesting_canonical : ∀ value : Json F, value.canonical.nesting ≤ value.nesting
  | .null | .bool _ | .number _ | .string _ => Nat.le_refl _
  | .array items => Nat.succ_le_succ (nestingItems_canonical items)
  | .object fields => by
    apply Nat.succ_le_succ
    rw [nestingFields_le]
    intro f member
    exact nestingFields_le.mp (nestingFields_canonical fields) f ((sortKeys_perm _).mem_iff.mp member)

theorem nestingItems_canonical : ∀ items : List (Json F), nestingItems (canonicalItems items) ≤ nestingItems items
  | [] => Nat.le_refl _
  | item :: items => max_le_max (nesting_canonical item) (nestingItems_canonical items)

theorem nestingFields_canonical : ∀ fields : List (String × Json F),
    nestingFields (canonicalFields fields) ≤ nestingFields fields
  | [] => Nat.le_refl _
  | (_,value) :: fields => max_le_max (nesting_canonical value) (nestingFields_canonical fields)
end

theorem lookup_perm {α : Type} {a b : List (String × α)} (same : a.Perm b) (distinct : (b.map Prod.fst).Nodup)
    (key : String) : Table.lookup a key = Table.lookup b key := by
  have unique : ∀ {rows : List (String × α)} {row : α}, (rows.map Prod.fst).Nodup → (key,row) ∈ rows →
      Table.lookup rows key = some row := by
    intro rows row nodup member
    induction rows with
    | nil => cases member
    | cons f rows ih =>
      obtain ⟨k,r⟩ := f
      rw [List.map_cons,List.nodup_cons] at nodup
      rw [Table.lookup]
      rcases List.mem_cons.mp member with first | inside
      · obtain ⟨rfl,rfl⟩ := Prod.mk.inj first
        exact if_pos rfl
      · rw [if_neg,ih nodup.2 inside]
        rintro rfl
        exact nodup.1 (List.mem_map.mpr ⟨_,inside,rfl⟩)
  have other : (a.map Prod.fst).Nodup := (same.map Prod.fst).nodup_iff.mpr distinct
  cases found : Table.lookup b key with
  | some row => exact unique other (same.mem_iff.mpr (Table.mem_of_lookup found))
  | none =>
    rw [Option.eq_none_iff_forall_ne_some]
    intro row present
    rw [unique distinct (same.mem_iff.mp (Table.mem_of_lookup present))] at found
    cases found

theorem canonicalFields_map (fields : List (String × Json F)) :
    canonicalFields fields = fields.map fun f => (f.1,f.2.canonical) := by
  induction fields with
  | nil => rfl
  | cons f fields ih => rw [canonicalFields,ih,List.map_cons]

theorem lookup_canonicalFields (fields : List (String × Json F)) (key : String) :
    Table.lookup (canonicalFields fields) key = (Table.lookup fields key).map canonical := by
  induction fields with
  | nil => rfl
  | cons f fields ih =>
    obtain ⟨k,value⟩ := f
    rw [canonicalFields,Table.lookup,Table.lookup,ih]
    split <;> rfl

/-- The canonical tree has the canonical tree of each field under its key. -/
theorem get?_canonical {value : Json F} (sorted : value.Sorted) (key : String) :
    value.canonical.get? key = (value.get? key).map canonical := by
  cases value with
  | object fields =>
    have keys : (canonicalFields fields).map Prod.fst = fields.map Prod.fst := by
      rw [canonicalFields_map,List.map_map]
      rfl
    have nodup : (fields.map Prod.fst).Nodup := by
      apply List.pairwise_map.mpr
      exact sorted.1.imp fun less same => less.ne same
    show Table.lookup (sortKeys (canonicalFields fields)) key = _
    rw [lookup_perm (sortKeys_perm _) (keys ▸ nodup),lookup_canonicalFields]
    rfl
  | _ => rfl

theorem field_canonical {value : Json F} (sorted : value.Sorted) (key : String) :
    value.canonical.field key = (value.field key).canonical := by
  rw [field,get?_canonical sorted,field]
  cases value.get? key <;> rfl

/-- A canonical text determines the canonical tree. -/
theorem jcs_inj {a b : Json F} (signed : a.signedNumbers = true) (signed' : b.signedNumbers = true)
    (shallow : a.nesting < depthLimit) (shallow' : b.nesting < depthLimit) (same : a.jcs = b.jcs) :
    a.canonical = b.canonical := by
  have first := parse_emit (lt_of_le_of_lt (nesting_canonical a) shallow)
  have second := parse_emit (lt_of_le_of_lt (nesting_canonical b) shallow')
  rw [← jcs_canonical signed,same,jcs_canonical signed',second] at first
  exact (Option.some.inj first).symm

@[simp] theorem asStr_canonical (value : Json F) : value.canonical.asStr = value.asStr := by
  cases value <;> rfl

@[simp] theorem isNull_canonical (value : Json F) : value.canonical.isNull = value.isNull := by
  cases value <;> rfl

end

end Entorhinal.Json
