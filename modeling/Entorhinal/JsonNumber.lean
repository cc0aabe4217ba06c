import Mathlib.Algebra.Order.Ring.Int
import Mathlib.Data.List.Basic
import Mathlib.Data.List.TakeWhile
import Mathlib.Tactic.Common

/-! The numbers of a JSON text: how a literal is scanned, and which number it stands
for. Integers are exact in 64 bits; any other literal is a double, and how doubles
are read and written is a parameter. -/
namespace Entorhinal.Json

inductive Sign
  | none
  | plus
  | minus
deriving DecidableEq, Repr

def Sign.text : Sign → List Char
  | .none => []
  | .plus => ['+']
  | .minus => ['-']

/-- A literal in its parts; no fraction is the empty one. -/
structure Literal where
  negative : Bool
  digits : List Char
  fraction : List Char
  exponent : Option (Sign × List Char)
deriving DecidableEq, Repr

def Literal.integral (literal : Literal) : Bool := literal.fraction.isEmpty && literal.exponent.isNone

def fractionText (fraction : List Char) : List Char :=
  if fraction.isEmpty then [] else '.' :: fraction

def exponentText : Option (Sign × List Char) → List Char
  | none => []
  | some (sign,digits) => 'e' :: (sign.text ++ digits)

def Literal.text (literal : Literal) : List Char :=
  (if literal.negative then ['-'] else []) ++
    (literal.digits ++ (fractionText literal.fraction ++ exponentText literal.exponent))

/-- More than one digit, the first a zero. -/
def padded (digits : List Char) : Bool := digits.head? == some '0' && decide (1 < digits.length)

def allDigits (text : List Char) : Prop := ∀ c ∈ text, c.isDigit = true

structure Literal.Valid (literal : Literal) : Prop where
  digits : allDigits literal.digits
  some_digit : literal.digits ≠ []
  plain : padded literal.digits = false
  fraction : allDigits literal.fraction
  exponent : ∀ e ∈ literal.exponent, allDigits e.2 ∧ e.2 ≠ []

def scanFraction : List Char → Option (List Char × List Char)
  | '.' :: text =>
    if (text.takeWhile Char.isDigit).isEmpty then none
    else some (text.takeWhile Char.isDigit,text.dropWhile Char.isDigit)
  | text => some ([],text)

def scanSign : List Char → Sign × List Char
  | '+' :: text => (.plus,text)
  | '-' :: text => (.minus,text)
  | text => (.none,text)

def scanExponent : List Char → Option (Option (Sign × List Char) × List Char)
  | [] => some (none,[])
  | c :: text =>
    if c = 'e' ∨ c = 'E' then
      let (sign,text) := scanSign text
      if (text.takeWhile Char.isDigit).isEmpty then none
      else some (some (sign,text.takeWhile Char.isDigit),text.dropWhile Char.isDigit)
    else some (none,c :: text)

def scan (text : List Char) : Option (Literal × List Char) :=
  let negative := text.head? == some '-'
  let text := if negative then text.tail else text
  let digits := text.takeWhile Char.isDigit
  if digits.isEmpty || padded digits then none
  else match scanFraction (text.dropWhile Char.isDigit) with
    | none => none
    | some (fraction,text) => match scanExponent text with
      | none => none
      | some (exponent,text) => some (⟨negative,digits,fraction,exponent⟩,text)

/-- The doubles of a program: reading a literal gives the nearest one, none where it is
out of range, and what is written for one has a fraction or an exponent and is read back. -/
class Doubles (F : Type) where
  read : Literal → Option F
  write : F → Literal
  write_valid : ∀ x, (write x).Valid
  write_integral : ∀ x, (write x).integral = false
  read_write : ∀ x, read (write x) = some x

/-- A program without doubles; a literal of one is out of range. -/
instance : Doubles Empty where
  read _ := none
  write := Empty.elim
  write_valid x := x.elim
  write_integral x := x.elim
  read_write x := x.elim

/-- A number as it is stored; `negInt n` is `-(n + 1)`. -/
inductive Number (F : Type)
  | posInt (n : Fin (2 ^ 64))
  | negInt (n : Fin (2 ^ 63))
  | float (x : F)
deriving DecidableEq, Repr

instance neZero_posInt : NeZero (2 ^ 64) := ⟨by decide⟩

instance neZero_negInt : NeZero (2 ^ 63) := ⟨by decide⟩

section
variable {F : Type} [Doubles F]

def Number.literal : Number F → Literal
  | .posInt n => ⟨false,Nat.toDigits 10 n,[],none⟩
  | .negInt n => ⟨true,Nat.toDigits 10 (n + 1),[],none⟩
  | .float x => Doubles.write x

/-- An integer that 64 bits do not hold is read as a double, and so is `-0`. -/
def Number.ofLiteral (literal : Literal) : Option (Number F) :=
  let n := Nat.ofDigitChars 10 literal.digits 0
  if literal.integral = true ∧ literal.negative = false ∧ n < 2 ^ 64 then some (.posInt (Fin.ofNat _ n))
  else if literal.integral = true ∧ literal.negative = true ∧ 0 < n ∧ n ≤ 2 ^ 63 then
    some (.negInt (Fin.ofNat _ (n - 1)))
  else (Doubles.read literal).map .float

end

/-- The text does not go on with the number before it. -/
def Ends (rest : List Char) : Prop :=
  ∀ c ∈ rest.head?, c.isDigit = false ∧ c ≠ '.' ∧ c ≠ 'e' ∧ c ≠ 'E'

theorem ends_nil : Ends [] := fun _ member => by cases member

theorem ends_cons {c : Char} {rest : List Char}
    (other : c.isDigit = false ∧ c ≠ '.' ∧ c ≠ 'e' ∧ c ≠ 'E') : Ends (c :: rest) := by
  intro d member
  obtain rfl := Option.some.inj member
  exact other

/-- What passes a test is taken up to the first item that does not. -/
theorem span_stops {α : Type} {test : α → Bool} {items rest : List α} (only : ∀ c ∈ items, test c = true)
    (stops : ∀ c ∈ rest.head?, test c = false) :
    (items ++ rest).takeWhile test = items ∧ (items ++ rest).dropWhile test = rest := by
  have own : rest.takeWhile test = [] ∧ rest.dropWhile test = rest := by
    cases rest with
    | nil => exact ⟨rfl,rfl⟩
    | cons c rest =>
      have stop := stops c rfl
      exact ⟨List.takeWhile_cons_of_neg (by simp [stop]),List.dropWhile_cons_of_neg (by simp [stop])⟩
  rw [List.takeWhile_append_of_pos only,List.dropWhile_append_of_pos only,own.1,own.2,List.append_nil]
  exact ⟨rfl,rfl⟩

theorem exponent_head {exponent : Option (Sign × List Char)} {rest : List Char} (ends : Ends rest) :
    ∀ c ∈ (exponentText exponent ++ rest).head?, c.isDigit = false ∧ c ≠ '.' := by
  cases exponent with
  | none => exact fun c member => ⟨(ends c member).1,(ends c member).2.1⟩
  | some e =>
    intro c member
    obtain rfl := Option.some.inj member
    decide

theorem scanFraction_text {fraction rest : List Char} (only : allDigits fraction)
    (stops : ∀ c ∈ rest.head?, c.isDigit = false ∧ c ≠ '.') :
    scanFraction (fractionText fraction ++ rest) = some (fraction,rest) := by
  cases fraction with
  | nil =>
    show scanFraction rest = _
    unfold scanFraction
    split
    next text => exact absurd rfl (stops '.' rfl).2
    next => rfl
  | cons d fraction =>
    show scanFraction ('.' :: (d :: fraction ++ rest)) = _
    obtain ⟨taken,left⟩ := span_stops only fun c member => (stops c member).1
    simp only [scanFraction]
    rw [taken,left]
    rfl

theorem scanSign_text {sign : Sign} {digits rest : List Char} (only : allDigits digits) (some_digit : digits ≠ []) :
    scanSign (sign.text ++ (digits ++ rest)) = (sign,digits ++ rest) := by
  cases sign with
  | plus => rfl
  | minus => rfl
  | none =>
    cases digits with
    | nil => exact absurd rfl some_digit
    | cons d digits =>
      have digit := only d List.mem_cons_self
      show scanSign (d :: (digits ++ rest)) = _
      unfold scanSign
      split
      next same =>
        obtain rfl := (List.cons.inj same).1
        cases digit
      next same =>
        obtain rfl := (List.cons.inj same).1
        cases digit
      next => rfl

theorem scanExponent_text {exponent : Option (Sign × List Char)} {rest : List Char}
    (valid : ∀ e ∈ exponent, allDigits e.2 ∧ e.2 ≠ []) (ends : Ends rest) :
    scanExponent (exponentText exponent ++ rest) = some (exponent,rest) := by
  cases exponent with
  | none =>
    show scanExponent rest = _
    cases rest with
    | nil => rfl
    | cons c rest =>
      obtain ⟨_,_,lower,upper⟩ := ends c rfl
      rw [scanExponent,if_neg (not_or.mpr ⟨lower,upper⟩)]
  | some e =>
    obtain ⟨sign,digits⟩ := e
    obtain ⟨only,some_digit⟩ := valid _ rfl
    obtain ⟨taken,left⟩ := span_stops only fun c member => (ends c member).1
    have split : exponentText (some (sign,digits)) ++ rest = 'e' :: (sign.text ++ (digits ++ rest)) := by
      rw [exponentText,List.cons_append,List.append_assoc]
    have filled : digits.isEmpty = false := List.isEmpty_eq_false_iff.mpr some_digit
    rw [split,scanExponent,if_pos (.inl rfl),scanSign_text only some_digit]
    simp only [taken,left,filled]
    rfl

/-- A literal is scanned back from its text. -/
theorem scan_text {literal : Literal} {rest : List Char} (valid : literal.Valid) (ends : Ends rest) :
    scan (literal.text ++ rest) = some (literal,rest) := by
  obtain ⟨negative,digits,fraction,exponent⟩ := literal
  obtain ⟨only,some_digit,plain,decimals,power⟩ := valid
  dsimp only at only some_digit plain decimals power
  have stops : ∀ c ∈ (fractionText fraction ++ (exponentText exponent ++ rest)).head?, c.isDigit = false := by
    cases fraction with
    | nil => exact fun c member => (exponent_head ends c member).1
    | cons d fraction =>
      intro c member
      obtain rfl := Option.some.inj member
      rfl
  obtain ⟨taken,left⟩ := span_stops only stops
  have filled : digits.isEmpty = false := List.isEmpty_eq_false_iff.mpr some_digit
  have body : ∀ text, text = digits ++ (fractionText fraction ++ (exponentText exponent ++ rest)) →
      (text.takeWhile Char.isDigit = digits ∧
        text.dropWhile Char.isDigit = fractionText fraction ++ (exponentText exponent ++ rest)) := by
    rintro _ rfl
    exact ⟨taken,left⟩
  have unsigned : (digits ++ (fractionText fraction ++ (exponentText exponent ++ rest))).head? ≠ some '-' := by
    cases digits with
    | nil => exact absurd rfl some_digit
    | cons d digits =>
      intro same
      obtain rfl := Option.some.inj same
      cases only '-' List.mem_cons_self
  have parts : Literal.text ⟨negative,digits,fraction,exponent⟩ ++ rest =
      (if negative then ['-'] else []) ++
        (digits ++ (fractionText fraction ++ (exponentText exponent ++ rest))) := by
    simp only [Literal.text,List.append_assoc]
  rw [parts]
  cases negative with
  | true =>
    simp only [scan,if_true,List.cons_append,List.nil_append,List.head?_cons,beq_self_eq_true,List.tail_cons,
      taken,left,filled,plain,Bool.or_self,Bool.false_eq_true,if_false,
      scanFraction_text decimals (exponent_head ends),scanExponent_text power ends]
  | false =>
    have positive : ((digits ++ (fractionText fraction ++ (exponentText exponent ++ rest))).head? == some '-') =
        false := by
      rw [beq_eq_false_iff_ne]
      exact unsigned
    simp only [scan,Bool.false_eq_true,if_false,List.nil_append,positive,taken,left,filled,plain,Bool.or_self,
      scanFraction_text decimals (exponent_head ends),scanExponent_text power ends]

theorem toDigits_digits (n : Nat) : allDigits (Nat.toDigits 10 n) :=
  fun _ member => Nat.isDigit_of_mem_toDigits (by decide) (by decide) member

/-- The decimal digits of a number start with a zero only for zero. -/
theorem toDigits_plain (n : Nat) : padded (Nat.toDigits 10 n) = false := by
  have first : ∀ n, (Nat.toDigits 10 n).head? = some '0' → n = 0 := by
    intro n
    induction n using Nat.strong_induction_on with
    | _ n ih =>
      rw [Nat.toDigits_eq_if (by decide)]
      split
      next small =>
        intro zero
        have digits : ∀ d < 10, Nat.digitChar d = '0' → d = 0 := by decide
        exact digits n small (Option.some.inj zero)
      next large =>
        rw [List.head?_append_of_ne_nil _ Nat.toDigits_ne_nil]
        intro zero
        have := ih (n / 10) (by omega) zero
        omega
  rw [padded,Bool.and_eq_false_iff]
  by_cases zero : (Nat.toDigits 10 n).head? = some '0'
  · obtain rfl := first n zero
    exact .inr rfl
  · exact .inl (beq_eq_false_iff_ne.mpr zero)

section
variable {F : Type} [Doubles F]

theorem Number.literal_valid (number : Number F) : number.literal.Valid := by
  cases number with
  | posInt n =>
    exact ⟨toDigits_digits n,Nat.toDigits_ne_nil,toDigits_plain n,fun _ member => absurd member List.not_mem_nil,
      fun _ member => by cases member⟩
  | negInt n =>
    exact ⟨toDigits_digits _,Nat.toDigits_ne_nil,toDigits_plain _,fun _ member => absurd member List.not_mem_nil,
      fun _ member => by cases member⟩
  | float x => exact Doubles.write_valid x

theorem Number.ofLiteral_literal (number : Number F) : Number.ofLiteral number.literal = some number := by
  unfold Number.ofLiteral
  cases number with
  | posInt n =>
    have value : Nat.ofDigitChars 10 (Nat.toDigits 10 n) 0 = n := Nat.ofDigitChars_ten_toDigits
    rw [if_pos ⟨rfl,rfl,by simp only [Number.literal,value]; exact n.isLt⟩]
    simp only [Number.literal,value,Option.some.injEq,Number.posInt.injEq]
    exact Fin.ofNat_val_eq_self n
  | negInt n =>
    have value : Nat.ofDigitChars 10 (Nat.toDigits 10 (n + 1)) 0 = n + 1 := Nat.ofDigitChars_ten_toDigits
    have small := n.isLt
    rw [if_neg (fun positive => by cases positive.2.1),
      if_pos ⟨rfl,rfl,by simp only [Number.literal,value]; omega⟩]
    simp only [Number.literal,value,Option.some.injEq,Number.negInt.injEq]
    exact Fin.ofNat_val_eq_self n
  | float x =>
    have fractional : ¬ (Number.float x).literal.integral = true := by
      rw [Number.literal,Doubles.write_integral]
      decide
    rw [if_neg (fun positive => fractional positive.1),if_neg (fun negative => fractional negative.1),
      Number.literal,Doubles.read_write]
    rfl

end

end Entorhinal.Json
