import Entorhinal.Jcs
import Entorhinal.Utf8

/-! The lexical check of a signed document as it runs: an index moves along the bytes of the
text. It answers as the check over the characters does, for a character outside ASCII has no byte
the check looks for. -/
namespace Entorhinal.Json
open Utf8 (Bytes encode)

/-- Where the loop over a string stops: on a quote, or past the bytes. -/
def stringEnd (bytes : Bytes) : Nat → Nat → Nat
  | 0,i => i
  | fuel + 1,i =>
    match bytes[i]? with
    | none => i
    | some b =>
      if b = 34 then i
      else stringEnd bytes fuel (if b = 92 then i + 1 + 1 else i + 1)

def isNumberByte (b : UInt8) : Bool :=
  Utf8.isDigit b || b == 46 || b == 101 || b == 69 || b == 43 || b == 45

def tokenEnd (bytes : Bytes) : Nat → Nat → Nat
  | 0,i => i
  | fuel + 1,i =>
    match bytes[i]? with
    | none => i
    | some b => if isNumberByte b then tokenEnd bytes fuel (i + 1) else i

def isPointByte (b : UInt8) : Bool := b == 46 || b == 101 || b == 69

def scanTokens (bytes : Bytes) : Nat → Nat → Bool
  | 0,_ => true
  | fuel + 1,i =>
    match bytes[i]? with
    | none => true
    | some b =>
      if b = 34 then scanTokens bytes fuel (stringEnd bytes bytes.length (i + 1) + 1)
      else if b = 45 ∨ Utf8.isDigit b = true then
        let stop := tokenEnd bytes bytes.length (i + 1)
        let token := (bytes.drop i).take (stop - i)
        if token = [45,48] ∨ token.any isPointByte = true then false
        else scanTokens bytes fuel stop
      else scanTokens bytes fuel (i + 1)

/-- The check, over the bytes of the text. Every turn of a loop moves the index, so there are
no more turns than bytes. -/
def integerNumberTokensBytes (text : String) : Bool :=
  scanTokens (Utf8.asBytes text) (Utf8.asBytes text).length 0

theorem skipString_plain {c : Char} {rest : List Char} (unquoted : c ≠ '\x22') (unescaped : c ≠ '\\') :
    skipString (c :: rest) = skipString rest := by
  rw [skipString]
  · exact unquoted
  · exact fun same _ => unescaped same
  · exact fun _ _ same _ => unescaped same

theorem skipString_escaped (c : Char) (rest : List Char) : skipString ('\\' :: c :: rest) = skipString rest := rfl

def byteOf (c : Char) : UInt8 := UInt8.ofNat c.toNat

theorem ascii_char {c : Char} {P : UInt8 → Char → Prop} (small : c.toNat < 128)
    (all : ∀ n < 128, P (UInt8.ofNat n) (Char.ofNat n)) : P (byteOf c) c := by
  have same := all c.toNat small
  rwa [Char.ofNat_toNat] at same

/-- The tests of bytes are those of characters. -/
theorem ascii_tests {c : Char} (small : c.toNat < 128) :
    (byteOf c = 34 ↔ c = '\x22') ∧ (byteOf c = 92 ↔ c = '\\') ∧ (byteOf c = 45 ↔ c = '-') ∧
      Utf8.isDigit (byteOf c) = c.isDigit ∧ isNumberByte (byteOf c) = isNumberChar c ∧
      isPointByte (byteOf c) = (c == '.' || c == 'e' || c == 'E') := by
  refine ascii_char (P := fun b c => (b = 34 ↔ c = '\x22') ∧ (b = 92 ↔ c = '\\') ∧ (b = 45 ↔ c = '-') ∧
    Utf8.isDigit b = c.isDigit ∧ isNumberByte b = isNumberChar c ∧
    isPointByte b = (c == '.' || c == 'e' || c == 'E')) small ?_
  decide

/-- A byte outside ASCII is none the check looks for. -/
theorem high_tests {b : UInt8} (large : 128 ≤ b.toNat) :
    b ≠ 34 ∧ b ≠ 92 ∧ b ≠ 45 ∧ Utf8.isDigit b = false ∧ isNumberByte b = false := by
  have other : ∀ d : UInt8, d.toNat < 128 → b ≠ d := by
    rintro d small rfl
    omega
  have digit : Utf8.isDigit b = false := by
    rw [Utf8.isDigit,Bool.and_eq_false_iff]
    right
    rw [decide_eq_false_iff_not,UInt8.le_iff_toNat_le]
    exact not_le.mpr (lt_of_lt_of_le (by decide) large)
  refine ⟨other 34 (by decide),other 92 (by decide),other 45 (by decide),digit,?_⟩
  simp [isNumberByte,digit,other 46 (by decide),other 101 (by decide),other 69 (by decide),other 43 (by decide),
    other 45 (by decide)]

theorem high_char {c : Char} (large : 128 ≤ c.toNat) :
    c ≠ '\x22' ∧ c ≠ '\\' ∧ c ≠ '-' ∧ c.isDigit = false ∧ isNumberChar c = false := by
  have other : ∀ d : Char, d.toNat < 128 → c ≠ d := by
    rintro d small rfl
    omega
  have digit : c.isDigit = false := by
    rw [Char.isDigit,Bool.and_eq_false_iff]
    right
    rw [decide_eq_false_iff_not,UInt32.le_iff_toNat_le]
    exact not_le.mpr (lt_of_lt_of_le (by decide) large)
  refine ⟨other _ (by decide),other _ (by decide),other _ (by decide),digit,?_⟩
  simp [isNumberChar,digit,other '.' (by decide),other 'e' (by decide),other 'E' (by decide),other '+' (by decide),
    other '-' (by decide)]

theorem numberChar_ascii {c : Char} (number : isNumberChar c = true) : c.toNat < 128 := by
  by_contra large
  rw [(high_char (not_lt.mp large)).2.2.2.2] at number
  exact absurd number (by decide)

theorem encode_ascii {chars : List Char} (small : ∀ c ∈ chars, c.toNat < 128) : encode chars = chars.map byteOf := by
  induction chars with
  | nil => rfl
  | cons c chars ih =>
    rw [encode,List.flatMap_cons,List.map_cons,← ih fun d member => small d (List.mem_cons_of_mem c member)]
    rcases Utf8.encodeChar_shape c with ⟨shape,_⟩ | ⟨large,_⟩
    · rw [shape]
      rfl
    · have := small c List.mem_cons_self
      omega

/-- A character at the head of a text, in its bytes. -/
theorem encode_head (c : Char) (rest : List Char) :
    encode (c :: rest) = byteOf c :: encode rest ∧ c.toNat < 128 ∨
      128 ≤ c.toNat ∧ ∃ b later, encode (c :: rest) = b :: later ++ encode rest ∧ ∀ d ∈ b :: later, 128 ≤ d.toNat := by
  rw [encode,List.flatMap_cons]
  rcases Utf8.encodeChar_shape c with ⟨shape,small⟩ | ⟨large,b,later,shape,high⟩
  · rw [shape]
    exact .inl ⟨rfl,small⟩
  · rw [shape]
    exact .inr ⟨large,b,later,rfl,high⟩

section
variable {bytes : Bytes} {i : Nat}

theorem at_index {b : UInt8} {later : Bytes} (here : bytes.drop i = b :: later) :
    bytes[i]? = some b ∧ bytes.drop (i + 1) = later ∧ i < bytes.length := by
  have found : bytes[i]? = some b := by
    rw [← List.head?_drop,here]
    rfl
  refine ⟨found,?_,(List.getElem?_eq_some_iff.mp found).1⟩
  rw [← List.drop_drop,here]
  rfl

theorem at_end (here : bytes.drop i = []) : bytes[i]? = none := by
  rw [← List.head?_drop,here]
  rfl

theorem drop_end (here : bytes.drop i = []) : bytes.drop (i + 1) = [] := by
  rw [← List.drop_drop,here]
  rfl

/-- A loop that moves by one on every byte outside ASCII moves past all of them. -/
theorem pass_high {α : Type} {f : Nat → Nat → α} {high later : Bytes}
    (step : ∀ fuel i b, bytes[i]? = some b → 128 ≤ b.toNat → f (fuel + 1) i = f fuel (i + 1))
    (large : ∀ b ∈ high, 128 ≤ b.toNat) : ∀ {fuel i : Nat}, bytes.drop i = high ++ later →
      bytes.length ≤ fuel + i → ∃ fuel' i', f fuel i = f fuel' i' ∧ bytes.drop i' = later ∧
        bytes.length ≤ fuel' + i' := by
  induction high with
  | nil => exact fun {fuel i} here room => ⟨fuel,i,rfl,here,room⟩
  | cons b high ih =>
    intro fuel i here room
    obtain ⟨found,next,inside⟩ := at_index here
    obtain ⟨fuel,rfl⟩ : ∃ less, fuel = less + 1 := ⟨fuel - 1,by omega⟩
    obtain ⟨fuel',i',same,left,room'⟩ :=
      ih (fun d member => large d (List.mem_cons_of_mem b member)) next (show bytes.length ≤ fuel + (i + 1) by omega)
    exact ⟨fuel',i',(step fuel i b found (large b List.mem_cons_self)).trans same,left,room'⟩

theorem stringEnd_some {b : UInt8} (fuel : Nat) (found : bytes[i]? = some b) :
    stringEnd bytes (fuel + 1) i = if b = 34 then i else stringEnd bytes fuel (if b = 92 then i + 1 + 1 else i + 1) := by
  rw [stringEnd,found]

theorem stringEnd_end (fuel : Nat) (here : bytes.drop i = []) : stringEnd bytes fuel i = i := by
  cases fuel with
  | zero => rfl
  | succ fuel => rw [stringEnd,at_end here]

theorem stringEnd_high (fuel i : Nat) (b : UInt8) (found : bytes[i]? = some b) (large : 128 ≤ b.toNat) :
    stringEnd bytes (fuel + 1) i = stringEnd bytes fuel (i + 1) := by
  obtain ⟨unquoted,unescaped,_⟩ := high_tests large
  rw [stringEnd_some fuel found,if_neg unquoted,if_neg unescaped]

/-- The loop over a string ends where the string does. -/
theorem stringEnd_chars (rest : List Char) {fuel i : Nat} (here : bytes.drop i = encode rest)
    (room : bytes.length ≤ fuel + i) : bytes.drop (stringEnd bytes fuel i + 1) = encode (skipString rest) := by
  induction rest using skipString.induct generalizing fuel i with
  | case1 => rw [stringEnd_end fuel here,drop_end here]; rfl
  | case2 rest =>
    obtain ⟨found,next,inside⟩ := at_index (show bytes.drop i = 34 :: encode rest from here)
    obtain ⟨fuel,rfl⟩ : ∃ less, fuel = less + 1 := ⟨fuel - 1,by omega⟩
    rw [stringEnd_some fuel found,if_pos rfl,next]
    rfl
  | case3 =>
    obtain ⟨found,next,inside⟩ := at_index (show bytes.drop i = [92] from here)
    obtain ⟨fuel,rfl⟩ : ∃ less, fuel = less + 1 := ⟨fuel - 1,by omega⟩
    rw [stringEnd_some fuel found,if_neg (by decide),if_pos rfl,stringEnd_end fuel (drop_end next),
      drop_end (drop_end next)]
    rfl
  | case4 c rest ih =>
    obtain ⟨found,next,inside⟩ := at_index (show bytes.drop i = 92 :: encode (c :: rest) from here)
    obtain ⟨fuel,rfl⟩ : ∃ less, fuel = less + 1 := ⟨fuel - 1,by omega⟩
    rw [stringEnd_some fuel found,if_neg (by decide),if_pos rfl,skipString_escaped]
    rcases encode_head c rest with ⟨shape,_⟩ | ⟨_,b,later,shape,high⟩
    · rw [shape] at next
      exact ih (at_index next).2.1 (by omega)
    · -- The escape covers the first byte; the others move past one by one.
      rw [shape] at next
      obtain ⟨fuel',i',same,left,room'⟩ := pass_high stringEnd_high
        (fun d member => high d (List.mem_cons_of_mem b member)) (at_index next).2.1
        (show bytes.length ≤ fuel + (i + 1 + 1) by omega)
      rw [same]
      exact ih left room'
  | case5 c rest unquoted single escaped ih =>
    have unescaped : c ≠ '\\' := by
      intro same
      cases rest with
      | nil => exact single same rfl
      | cons d rest => exact escaped d rest same rfl
    rw [skipString_plain unquoted unescaped]
    rcases encode_head c rest with ⟨shape,small⟩ | ⟨_,b,later,shape,high⟩
    · rw [shape] at here
      obtain ⟨found,next,inside⟩ := at_index here
      obtain ⟨quote_byte,escape_byte,_⟩ := ascii_tests small
      obtain ⟨fuel,rfl⟩ : ∃ less, fuel = less + 1 := ⟨fuel - 1,by omega⟩
      rw [stringEnd_some fuel found,if_neg (mt quote_byte.mp unquoted),if_neg (mt escape_byte.mp unescaped)]
      exact ih next (by omega)
    · rw [shape] at here
      obtain ⟨fuel',i',same,left,room'⟩ := pass_high stringEnd_high high here room
      rw [same]
      exact ih left room'

/-- The loop over a number takes the characters of its token. -/
theorem tokenEnd_chars (rest : List Char) {fuel i : Nat} (here : bytes.drop i = encode rest)
    (room : bytes.length ≤ fuel + i) : tokenEnd bytes fuel i = i + (rest.takeWhile isNumberChar).length := by
  induction rest generalizing fuel i with
  | nil =>
    cases fuel with
    | zero => rfl
    | succ fuel =>
      rw [tokenEnd,at_end here]
      rfl
  | cons c rest ih =>
    rcases encode_head c rest with ⟨shape,small⟩ | ⟨large,b,later,shape,high⟩
    · rw [shape] at here
      obtain ⟨found,next,inside⟩ := at_index here
      obtain ⟨fuel,rfl⟩ : ∃ less, fuel = less + 1 := ⟨fuel - 1,by omega⟩
      simp only [tokenEnd,found,(ascii_tests small).2.2.2.2.1,List.takeWhile_cons]
      split
      next =>
        rw [ih next (by omega),List.length_cons]
        omega
      next => rfl
    · rw [shape] at here
      obtain ⟨found,next,inside⟩ := at_index here
      obtain ⟨fuel,rfl⟩ : ∃ less, fuel = less + 1 := ⟨fuel - 1,by omega⟩
      simp [tokenEnd,found,(high_tests (high b List.mem_cons_self)).2.2.2.2,(high_char large).2.2.2.2]

theorem token_ascii {c : Char} (small : c.toNat < 128) (rest : List Char) :
    ∀ d ∈ c :: rest.takeWhile isNumberChar, d.toNat < 128 := by
  intro d member
  rcases List.mem_cons.mp member with rfl | inside
  · exact small
  · exact numberChar_ascii (List.mem_takeWhile_imp inside)

/-- The token of a number in its bytes, and what follows it. -/
theorem token_chars {c : Char} {rest : List Char} (small : c.toNat < 128) (here : bytes.drop i = encode (c :: rest))
    {stop : Nat} (stops : stop = i + 1 + (rest.takeWhile isNumberChar).length) :
    (bytes.drop i).take (stop - i) = encode (c :: rest.takeWhile isNumberChar) ∧
      bytes.drop stop = encode (rest.dropWhile isNumberChar) := by
  have parts : encode (c :: rest) =
      encode (c :: rest.takeWhile isNumberChar) ++ encode (rest.dropWhile isNumberChar) := by
    rw [← Utf8.encode_append,List.cons_append,List.takeWhile_append_dropWhile]
  have size : (encode (c :: rest.takeWhile isNumberChar)).length = stop - i := by
    rw [encode_ascii (token_ascii small rest),List.length_map,List.length_cons]
    omega
  have whole : i + (stop - i) = stop := by omega
  rw [← whole,← List.drop_drop,Nat.add_sub_cancel_left,here,parts]
  exact ⟨List.take_left' size,List.drop_left' size⟩

theorem token_point {chars : List Char} (small : ∀ c ∈ chars, c.toNat < 128) :
    (encode chars).any isPointByte = chars.any fun c => c == '.' || c == 'e' || c == 'E' := by
  rw [encode_ascii small,List.any_map,Bool.eq_iff_iff,List.any_eq_true,List.any_eq_true]
  apply exists_congr
  intro c
  apply and_congr_right
  intro member
  rw [Function.comp_apply,(ascii_tests (small c member)).2.2.2.2.2]

theorem token_zero (chars : List Char) : encode chars = [45,48] ↔ chars = ['-','0'] := by
  have zero : encode ['-','0'] = [45,48] := by decide
  rw [← zero]
  exact ⟨Utf8.encode_injective,congrArg encode⟩

theorem stringEnd_from (fuel : Nat) : ∀ i, i ≤ stringEnd bytes fuel i := by
  induction fuel with
  | zero => exact fun i => le_rfl
  | succ fuel ih =>
    intro i
    rw [stringEnd]
    split
    next => exact le_rfl
    next =>
      split
      next => exact le_rfl
      next =>
        apply le_trans _ (ih _)
        split_ifs <;> omega

theorem skipString_length (text : List Char) : (skipString text).length ≤ text.length := by
  induction text using skipString.induct with
  | case1 => exact le_rfl
  | case2 rest => exact Nat.le_succ _
  | case3 => exact Nat.zero_le _
  | case4 c rest ih =>
    rw [skipString_escaped,List.length_cons,List.length_cons]
    omega
  | case5 c rest unquoted single escaped ih =>
    rw [skipString,List.length_cons]
    · omega
    · exact unquoted
    · exact single
    · exact escaped

theorem dropWhile_length {α : Type} (test : α → Bool) (items : List α) :
    (items.dropWhile test).length ≤ items.length := (List.dropWhile_sublist test).length_le

theorem scanTokens_end (fuel : Nat) (here : bytes.drop i = []) : scanTokens bytes fuel i = true := by
  cases fuel with
  | zero => rfl
  | succ fuel => rw [scanTokens,at_end here]

theorem scanTokens_high (fuel i : Nat) (b : UInt8) (found : bytes[i]? = some b) (large : 128 ≤ b.toNat) :
    scanTokens bytes (fuel + 1) i = scanTokens bytes fuel (i + 1) := by
  obtain ⟨unquoted,_,unsigned,digit,_⟩ := high_tests large
  simp [scanTokens,found,unquoted,unsigned,digit]

/-- From the bytes of a text on, the check over bytes is the one over characters. -/
theorem scanTokens_chars (room : Nat) : ∀ (rest : List Char) {fuel i : Nat}, rest.length ≤ room →
    bytes.drop i = encode rest → bytes.length ≤ fuel + i →
      scanTokens bytes fuel i = integerNumberTokens room rest := by
  induction room with
  | zero =>
    intro rest fuel i short here _
    obtain rfl := List.length_eq_zero_iff.mp (Nat.le_zero.mp short)
    exact scanTokens_end fuel here
  | succ room ih =>
    intro rest fuel i short here turns
    cases rest with
    | nil => exact scanTokens_end fuel here
    | cons c rest =>
      rw [List.length_cons] at short
      rcases encode_head c rest with ⟨shape,small⟩ | ⟨large,b,later,shape,high⟩
      · have start := here
        rw [shape] at here
        obtain ⟨found,next,inside⟩ := at_index here
        obtain ⟨fuel,rfl⟩ : ∃ less, fuel = less + 1 := ⟨fuel - 1,by omega⟩
        obtain ⟨quote_byte,_,sign_byte,digit_byte,_⟩ := ascii_tests small
        simp only [scanTokens,found,integerNumberTokens,quote_byte,sign_byte,digit_byte]
        by_cases quoted : c = '\x22'
        · rw [if_pos quoted,if_pos quoted]
          have ends := stringEnd_chars rest next (show bytes.length ≤ bytes.length + (i + 1) by omega)
          have shorter := skipString_length rest
          have later := @stringEnd_from bytes bytes.length (i + 1)
          exact ih _ (by omega) ends (by omega)
        rw [if_neg quoted,if_neg quoted]
        by_cases number : c = '-' ∨ c.isDigit = true
        · rw [if_pos number,if_pos number]
          have stops := tokenEnd_chars rest next (show bytes.length ≤ bytes.length + (i + 1) by omega)
          obtain ⟨token,left⟩ := token_chars small start stops
          have shorter := dropWhile_length isNumberChar rest
          simp only [token,token_point (token_ascii small rest),token_zero]
          rw [ih _ (by omega) left (by omega)]
        rw [if_neg number,if_neg number]
        exact ih rest (by omega) next (by omega)
      · rw [shape] at here
        obtain ⟨unquoted,_,unsigned,digit,_⟩ := high_char large
        obtain ⟨fuel',i',same,left,turns'⟩ := pass_high scanTokens_high high here turns
        rw [same,integerNumberTokens,if_neg unquoted,if_neg (by simp [unsigned,digit])]
        exact ih rest (by omega) left turns'

end

/-- The check over bytes is the check over characters, on every text. -/
theorem integerNumberTokens_bytes (text : String) :
    integerNumberTokensBytes text = integerNumberTokens text.toList.length text.toList :=
  scanTokens_chars _ _ le_rfl List.drop_zero le_rfl

/-- The reader of signed documents reads what the check over bytes lets through. -/
theorem parseSigned_bytes {F : Type} [Doubles F] (text : String) :
    parseSigned (F := F) text =
      if integerNumberTokensBytes text then
        (parseDistinct text.toList).map fun tree => (tree.ordered,tree.sourceKeys)
      else none := by
  rw [parseSigned,integerNumberTokens_bytes]

end Entorhinal.Json
