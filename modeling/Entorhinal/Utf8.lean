import Mathlib.Algebra.Order.Ring.Int
import Mathlib.Data.List.Basic
import Mathlib.Tactic.Common

/-! The bytes of a text. A text whose bytes are all ASCII is read back from them
byte by byte. -/
namespace Entorhinal.Utf8

abbrev Bytes := List UInt8

def encode (chars : List Char) : Bytes := chars.flatMap String.utf8EncodeChar

/-- The characters of bytes that are a text. -/
def decode (bytes : Bytes) : Option (List Char) := bytes.toByteArray.utf8Decode?.map Array.toList

def asBytes (text : String) : Bytes := text.toList.flatMap String.utf8EncodeChar

/-- Each byte is a character of its own, as in Latin-1. -/
def ofLatin (bytes : Bytes) : String := String.ofList (bytes.map fun b => Char.ofNat b.toNat)

def asciiLower (text : String) : String := String.ofList (text.toList.map Char.toLower)

theorem lower_iff {c : Char} : c.isLower = true ↔ 97 ≤ c.toNat ∧ c.toNat ≤ 122 :=
  Bool.and_eq_true_iff.trans (and_congr decide_eq_true_iff decide_eq_true_iff)

theorem upper_iff {c : Char} : c.isUpper = true ↔ 65 ≤ c.toNat ∧ c.toNat ≤ 90 := decide_eq_true_iff

theorem alphanum_iff {c : Char} : c.isAlphanum = true ↔
    (65 ≤ c.toNat ∧ c.toNat ≤ 90 ∨ 97 ≤ c.toNat ∧ c.toNat ≤ 122) ∨ 48 ≤ c.toNat ∧ c.toNat ≤ 57 := by
  rw [← upper_iff,← lower_iff,Char.isAlphanum,Bool.or_eq_true,Char.isDigit_iff_toNat]
  exact or_congr_left Bool.or_eq_true_iff

def isDigit (b : UInt8) : Bool := decide (48 ≤ b) && decide (b ≤ 57)

def isLower (b : UInt8) : Bool := decide (97 ≤ b) && decide (b ≤ 122)

def isUpper (b : UInt8) : Bool := decide (65 ≤ b) && decide (b ≤ 90)

def isAlphanumeric (b : UInt8) : Bool := isDigit b || isLower b || isUpper b

def isAscii (bytes : Bytes) : Prop := ∀ b ∈ bytes, b.toNat < 128

theorem decode_encode (chars : List Char) : decode (encode chars) = some chars := by
  show chars.utf8Encode.utf8Decode?.map Array.toList = _
  rw [List.utf8Decode?_utf8Encode]
  rfl

theorem encode_append (a b : List Char) : encode (a ++ b) = encode a ++ encode b := List.flatMap_append

theorem length_encode_cons (c : Char) (chars : List Char) :
    (encode (c :: chars)).length = c.utf8Size + (encode chars).length := by
  rw [encode,List.flatMap_cons,List.length_append,String.length_utf8EncodeChar]
  rfl

theorem isAscii_append {a b : Bytes} : isAscii (a ++ b) ↔ isAscii a ∧ isAscii b :=
  List.forall_mem_append

/-- A character is one ASCII byte, or none of its bytes is ASCII. -/
theorem encodeChar_shape (c : Char) :
    String.utf8EncodeChar c = [UInt8.ofNat c.toNat] ∧ c.toNat < 128 ∨
      128 ≤ c.toNat ∧ ∃ b later, String.utf8EncodeChar c = b :: later ∧ ∀ d ∈ b :: later, 128 ≤ d.toNat := by
  have value : c.val.toNat = c.toNat := rfl
  simp only [String.utf8EncodeChar,value]
  split
  next small => exact .inl ⟨rfl,by omega⟩
  next =>
    right
    split
    next =>
      refine ⟨by omega,_,_,rfl,?_⟩
      simp only [List.forall_mem_cons,UInt8.toNat_ofNat']
      exact ⟨by omega,by omega,fun _ none => absurd none List.not_mem_nil⟩
    next =>
      split
      next =>
        refine ⟨by omega,_,_,rfl,?_⟩
        simp only [List.forall_mem_cons,UInt8.toNat_ofNat']
        exact ⟨by omega,by omega,by omega,fun _ none => absurd none List.not_mem_nil⟩
      next =>
        refine ⟨by omega,_,_,rfl,?_⟩
        simp only [List.forall_mem_cons,UInt8.toNat_ofNat']
        exact ⟨by omega,by omega,by omega,by omega,fun _ none => absurd none List.not_mem_nil⟩

/-- A character is one ASCII byte, or one of its bytes is not ASCII. -/
theorem encodeChar_cases (c : Char) :
    String.utf8EncodeChar c = [UInt8.ofNat c.toNat] ∧ c.toNat < 128 ∨
      ∃ b ∈ String.utf8EncodeChar c, 128 ≤ b.toNat := by
  rcases encodeChar_shape c with ascii | ⟨_,b,later,shape,large⟩
  · exact .inl ascii
  · rw [shape]
    exact .inr ⟨b,List.mem_cons_self,large b List.mem_cons_self⟩

theorem encode_injective {a b : List Char} (same : encode a = encode b) : a = b := by
  have decoded := congrArg decode same
  rw [decode_encode,decode_encode] at decoded
  exact Option.some.inj decoded

theorem ofLatin_chars {chars : List Char} (ascii : isAscii (chars.flatMap String.utf8EncodeChar)) :
    (chars.flatMap String.utf8EncodeChar).map (fun b => Char.ofNat b.toNat) = chars := by
  induction chars with
  | nil => rfl
  | cons c chars ih =>
    rw [List.flatMap_cons] at ascii ⊢
    obtain ⟨first,rest⟩ := isAscii_append.mp ascii
    rw [List.map_append,ih rest]
    rcases encodeChar_cases c with ⟨shape,small⟩ | ⟨b,member,large⟩
    · have byte : (UInt8.ofNat c.toNat).toNat = c.toNat := by
        rw [UInt8.toNat_ofNat']
        omega
      rw [shape,List.map_singleton,byte,Char.ofNat_toNat]
      rfl
    · have := first b member
      omega

theorem ofLatin_asBytes {text : String} (ascii : isAscii (asBytes text)) :
    ofLatin (asBytes text) = text := by
  rw [ofLatin,asBytes,ofLatin_chars ascii,String.ofList_toList]

theorem ofLatin_append (a b : Bytes) : ofLatin (a ++ b) = ofLatin a ++ ofLatin b := by
  rw [ofLatin,List.map_append,String.ofList_append]
  rfl

/-- A symbol is the separator or lies in one of the parts. -/
theorem mem_splitOn {α : Type} [BEq α] [LawfulBEq α] (separator : α) {b : α} {bytes : List α} (member : b ∈ bytes) :
    b = separator ∨ ∃ part ∈ bytes.splitOn separator, b ∈ part := by
  induction bytes with
  | nil => cases member
  | cons first bytes ih =>
    rw [List.splitOn_cons_eq_if_modifyHead]
    by_cases cut : first = separator
    · rw [if_pos (beq_iff_eq.mpr cut)]
      rcases List.mem_cons.mp member with rfl | inside
      · exact .inl cut
      · rcases ih inside with same | ⟨part,listed,has⟩
        · exact .inl same
        · exact .inr ⟨part,List.mem_cons_of_mem _ listed,has⟩
    · rw [if_neg (by rwa [beq_iff_eq])]
      cases parts : bytes.splitOn separator with
      | nil => exact absurd parts (List.splitOn_ne_nil separator bytes)
      | cons head tail =>
        rw [List.modifyHead_cons]
        rcases List.mem_cons.mp member with rfl | inside
        · exact .inr ⟨_,List.mem_cons_self,List.mem_cons_self⟩
        · rcases ih inside with same | ⟨part,listed,has⟩
          · exact .inl same
          · right
            rw [parts] at listed
            rcases List.mem_cons.mp listed with rfl | listed
            · exact ⟨_,List.mem_cons_self,List.mem_cons_of_mem _ has⟩
            · exact ⟨part,List.mem_cons_of_mem _ listed,has⟩

end Entorhinal.Utf8
