import Entorhinal.JcsLaw
import Entorhinal.SignedTokens

/-! A canonical text is a signed document: its numbers are written as integers, and the
strict reader gives back the value it was written for. -/
namespace Entorhinal.Json

section
variable {F : Type}

theorem mem_numbersItems {n : Number F} {items : List (Json F)} :
    n ∈ numbersItems items ↔ ∃ item ∈ items, n ∈ item.numbers := by
  induction items with
  | nil => simp [numbersItems]
  | cons item items ih => simp [numbersItems,ih]

theorem mem_numbersFields {n : Number F} {fields : List (String × Json F)} :
    n ∈ numbersFields fields ↔ ∃ f ∈ fields, n ∈ f.2.numbers := by
  induction fields with
  | nil => simp [numbersFields]
  | cons f fields ih =>
    obtain ⟨key,value⟩ := f
    rw [numbersFields,List.mem_append,ih,List.exists_mem_cons_iff]

end

section
variable {F : Type} [Floats F]

/-- An exact integer is written without a fraction, and zero without a sign. -/
theorem canonicalNumber_plain {n : Number F} {k : Int} (safe : n.safe = some k) :
    (canonicalNumber n).literal.Plain := by
  unfold canonicalNumber
  rw [safe]
  dsimp only
  split
  next negative =>
    refine ⟨rfl,rfl,?_⟩
    rintro ⟨_,zero⟩
    have value := Nat.ofDigitChars_ten_toDigits (n := (Fin.ofNat (2 ^ 63) (k.natAbs - 1)).val + 1)
    rw [show Nat.toDigits 10 ((Fin.ofNat (2 ^ 63) (k.natAbs - 1)).val + 1) = ['0'] from zero] at value
    exact absurd value.symm (Nat.succ_ne_zero _)
  next => exact ⟨rfl,rfl,fun signed => absurd signed.1 Bool.false_ne_true⟩

mutual
theorem canonical_plain : ∀ {value : Json F}, value.signedNumbers = true →
    ∀ n ∈ value.canonical.numbers, n.literal.Plain
  | .null,_,n,member => absurd member List.not_mem_nil
  | .bool _,_,n,member => absurd member List.not_mem_nil
  | .string _,_,n,member => absurd member List.not_mem_nil
  | .number m,signed,n,only => by
    obtain rfl := List.mem_singleton.mp only
    obtain ⟨k,safe⟩ := Option.isSome_iff_exists.mp signed
    exact canonicalNumber_plain safe
  | .array items,signed,n,member => canonicalItems_plain signed n member
  | .object fields,signed,n,member => by
    obtain ⟨f,inside,own⟩ := mem_numbersFields.mp member
    exact canonicalFields_plain signed n (mem_numbersFields.mpr ⟨f,(sortKeys_perm _).mem_iff.mp inside,own⟩)

theorem canonicalItems_plain : ∀ {items : List (Json F)}, signedItems items = true →
    ∀ n ∈ numbersItems (canonicalItems items), n.literal.Plain
  | [],_,n,member => absurd member List.not_mem_nil
  | item :: items,signed,n,member => by
    rw [signedItems,Bool.and_eq_true] at signed
    rcases List.mem_append.mp member with own | later
    · exact canonical_plain signed.1 n own
    · exact canonicalItems_plain signed.2 n later

theorem canonicalFields_plain : ∀ {fields : List (String × Json F)}, signedFields fields = true →
    ∀ n ∈ numbersFields (canonicalFields fields), n.literal.Plain
  | [],_,n,member => absurd member List.not_mem_nil
  | (key,value) :: fields,signed,n,member => by
    rw [signedFields,Bool.and_eq_true] at signed
    rcases List.mem_append.mp member with own | later
    · exact canonical_plain signed.1 n own
    · exact canonicalFields_plain signed.2 n later
end

theorem canonical_integral {value : Json F} (signed : value.signedNumbers = true) : Integral value.canonical.emit := by
  have document := emit_wellFormed value.canonical
  have integral := (wellFormed_integral document).mpr fun literal member => by
    obtain ⟨n,inside,rfl⟩ := List.mem_map.mp member
    exact canonical_plain signed n inside
  rwa [String.toList_ofList] at integral

/-- A value in canonical form is read back from its canonical text. -/
theorem parseSigned_jcs {value : Json F} (signed : value.signedNumbers = true) (canonical : value.canonical = value)
    (sorted : value.Sorted) (distinct : value.distinct = true) (shallow : value.nesting < depthLimit) :
    parseSigned value.jcsText = some (value,value.sourceKeys) := by
  have text : value.jcsText.toList = value.emit := by
    rw [jcsText,String.toList_ofList,jcs_canonical signed,canonical]
  have tokens : Integral value.emit := canonical ▸ canonical_integral signed
  have read : parseDistinct value.emit = some value := by
    rw [parseDistinct,parse_emit shallow]
    exact Option.filter_some_pos distinct
  rw [parseSigned,text,if_pos (tokens _),read,Option.map_some,sorted.ordered_eq]

end

end Entorhinal.Json
