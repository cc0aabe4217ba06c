import Entorhinal.AuditPages

/-! The quoted text of a string, as `{:?}` writes it: whatever follows, it says where it ends and
what it is the text of. -/
namespace Entorhinal.DebugText

open Agents (hexDigits hexDigits_toDigits)

/-- `char::escape_debug` inside a string; `plain` tells the characters that are written as they are,
of those without an escape of their own. -/
def escape (plain : Char → Bool) (c : Char) : List Char :=
  if c = '\x00' then ['\\','0']
  else if c = '\t' then ['\\','t']
  else if c = '\r' then ['\\','r']
  else if c = '\n' then ['\\','n']
  else if c = '"' then ['\\','"']
  else if c = '\\' then ['\\','\\']
  else if plain c then [c]
  else ['\\','u','\x7b'] ++ Nat.toDigits 16 c.toNat ++ ['\x7d']

def quote (plain : Char → Bool) (text : String) : List Char :=
  '"' :: text.toList.flatMap (escape plain) ++ ['"']

/-- The character an escape with one letter stands for. -/
def named (letter : Char) : Char :=
  if letter = '0' then '\x00' else if letter = 't' then '\t' else if letter = 'r' then '\r'
  else if letter = 'n' then '\n' else letter

/-- The first character of an escaped text, and what is left. -/
def unescape : List Char → Option (Char × List Char)
  | [] => none
  | ['\\'] => none
  | '\\' :: letter :: rest =>
    if letter = 'u' then
      let digits := (rest.drop 1).takeWhile (· ≠ '\x7d')
      (hexDigits digits).map fun n => (Char.ofNat n,rest.drop (digits.length + 2))
    else some (named letter,rest)
  | c :: rest => some (c,rest)

theorem digit_inside (n : Nat) : ∀ c ∈ Nat.toDigits 16 n, (decide (c ≠ '\x7d')) = true := by
  have digits : ∀ d < 16, Nat.digitChar d ≠ '\x7d' := by decide
  induction n using Nat.strongRecOn with
  | ind n ih =>
    intro c member
    by_cases small : n < 16
    · rw [Nat.toDigits_of_lt_base small,List.mem_singleton] at member
      exact decide_eq_true (member ▸ digits n small)
    · rw [Nat.toDigits_of_base_le (by omega) (by omega),List.mem_append,List.mem_singleton] at member
      rcases member with high | low
      · exact ih (n / 16) (by omega) c high
      · exact decide_eq_true (low ▸ digits _ (Nat.mod_lt _ (by omega)))

variable {plain : Char → Bool}

theorem unescape_escape (c : Char) (rest : List Char) : unescape (escape plain c ++ rest) = some (c,rest) := by
  unfold escape
  split_ifs with zero tab return_ newline quote_ slash shown
  · rw [zero]; rfl
  · rw [tab]; rfl
  · rw [return_]; rfl
  · rw [newline]; rfl
  · rw [quote_]; rfl
  · rw [slash]; rfl
  · show unescape (c :: rest) = _
    unfold unescape
    split
    next none_ => cases none_
    next alone => cases alone; exact absurd rfl slash
    next escaped => cases escaped; exact absurd rfl slash
    next same => cases same; rfl
  · have digits : (Nat.toDigits 16 c.toNat ++ ('\x7d' :: rest)).takeWhile (· ≠ '\x7d') = Nat.toDigits 16 c.toNat := by
      rw [List.takeWhile_append_of_pos (digit_inside c.toNat)]
      simp
    have tail : ('\x7b' :: (Nat.toDigits 16 c.toNat ++ ('\x7d' :: rest))).drop ((Nat.toDigits 16 c.toNat).length + 2) =
        rest := by
      rw [List.drop_succ_cons,← List.drop_drop,List.drop_left]
      rfl
    show unescape ('\\' :: 'u' :: '\x7b' :: ((Nat.toDigits 16 c.toNat ++ ['\x7d']) ++ rest)) = _
    rw [List.append_assoc]
    show (hexDigits ((Nat.toDigits 16 c.toNat ++ ('\x7d' :: rest)).takeWhile (· ≠ '\x7d'))).map _ = _
    rw [digits,hexDigits_toDigits,Option.map_some]
    show some (Char.ofNat c.toNat,('\x7b' :: (Nat.toDigits 16 c.toNat ++ ('\x7d' :: rest))).drop
      (((Nat.toDigits 16 c.toNat ++ ('\x7d' :: rest)).takeWhile (· ≠ '\x7d')).length + 2)) = _
    rw [digits,tail,Char.ofNat_toNat]

theorem escape_open (c : Char) (rest : List Char) : ∃ first others, escape plain c ++ rest = first :: others ∧ first ≠ '"' := by
  unfold escape
  split_ifs with zero tab return_ newline quote_ slash shown
  all_goals first
    | exact ⟨_,_,rfl,by decide⟩
    | exact ⟨_,_,rfl,quote_⟩

theorem body_cut {a b : List Char} {x y : List Char}
    (same : a.flatMap (escape plain) ++ '"' :: x = b.flatMap (escape plain) ++ '"' :: y) : a = b ∧ x = y := by
  induction a generalizing b with
  | nil =>
    cases b with
    | nil => exact ⟨rfl,(List.cons.inj same).2⟩
    | cons d b =>
      obtain ⟨first,others,opened,other⟩ := @escape_open plain d (b.flatMap (escape plain) ++ '"' :: y)
      rw [List.flatMap_cons,List.append_assoc,opened] at same
      exact absurd (List.cons.inj same).1.symm other
  | cons c a ih =>
    cases b with
    | nil =>
      obtain ⟨first,others,opened,other⟩ := @escape_open plain c (a.flatMap (escape plain) ++ '"' :: x)
      rw [List.flatMap_cons,List.append_assoc,opened] at same
      exact absurd (List.cons.inj same).1 other
    | cons d b =>
      have read := congrArg unescape same
      rw [List.flatMap_cons,List.flatMap_cons,List.append_assoc,List.append_assoc,unescape_escape,
        unescape_escape] at read
      obtain ⟨rfl,rest⟩ := Prod.ext_iff.mp (Option.some.inj read)
      obtain ⟨rfl,tail⟩ := ih rest
      exact ⟨rfl,tail⟩

theorem quote_cut {a b : String} {x y : List Char} (same : quote plain a ++ x = quote plain b ++ y) :
    a = b ∧ x = y := by
  unfold quote at same
  simp only [List.cons_append,List.append_assoc,List.nil_append,List.cons.injEq,true_and] at same
  obtain ⟨chars,tail⟩ := body_cut same
  exact ⟨String.toList_inj.mp chars,tail⟩

theorem digits_taken {n : Nat} {c : Char} {x : List Char} (other : c.isDigit = false) :
    (Nat.toDigits 10 n ++ c :: x).takeWhile Char.isDigit = Nat.toDigits 10 n := by
  rw [List.takeWhile_append_of_pos fun d member => Nat.isDigit_of_mem_toDigits (by decide) (by decide) member,
    List.takeWhile_cons,other]
  exact List.append_nil _

/-- A number ends where something else than a digit follows. -/
theorem digits_cut {n m : Nat} {c d : Char} {x y : List Char} (left : c.isDigit = false) (right : d.isDigit = false)
    (same : Nat.toDigits 10 n ++ c :: x = Nat.toDigits 10 m ++ d :: y) : n = m ∧ c :: x = d :: y := by
  have digits := congrArg (List.takeWhile Char.isDigit) same
  rw [digits_taken left,digits_taken right] at digits
  have number := congrArg (fun text => Nat.ofDigitChars 10 text 0) digits
  simp only [Nat.ofDigitChars_ten_toDigits] at number
  rw [digits] at same
  exact ⟨number,List.append_cancel_left same⟩

end Entorhinal.DebugText
