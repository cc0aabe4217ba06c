import Mathlib.Data.List.TakeWhile
import Entorhinal.Utf8

/-! Octal numbers in fields of a fixed width: digits padded with zeros, then NUL or
blanks. The reader asks for one of each at least. -/
namespace Entorhinal.Octal

open Utf8 (Bytes)

/-- The lowest octal digits of a number, as many as the width. -/
def digits : Nat → Nat → Bytes
  | 0, _ => []
  | width + 1, n => digits width (n / 8) ++ [UInt8.ofNat (48 + n % 8)]

def isDigit (b : UInt8) : Bool := decide (48 ≤ b) && decide (b ≤ 55)

/-- One more digit, unless the number would reach the limit. -/
def push (limit value : Nat) (b : UInt8) : Option Nat :=
  if limit ≤ value * 8 then none
  else if limit ≤ value * 8 + (b.toNat - 48) then none
  else some (value * 8 + (b.toNat - 48))

def read (limit : Nat) (field : Bytes) : Option Nat :=
  let run := field.takeWhile isDigit
  if run.length = 0 ∨ run.length = field.length ∨
      (field.drop run.length).any (fun b => b != 0 && b != 32) = true then none
  else run.foldlM (push limit) 0

theorem digits_length (width n : Nat) : (digits width n).length = width := by
  induction width generalizing n with
  | zero => rfl
  | succ width ih => rw [digits,List.length_append,ih,List.length_singleton]

theorem digit_value (n : Nat) : (UInt8.ofNat (48 + n % 8)).toNat = 48 + n % 8 := by
  rw [UInt8.toNat_ofNat']
  omega

theorem digits_digit {width n : Nat} : ∀ b ∈ digits width n, isDigit b = true := by
  induction width generalizing n with
  | zero => exact fun b member => absurd member List.not_mem_nil
  | succ width ih =>
    intro b member
    rcases List.mem_append.mp member with inside | last
    · exact ih b inside
    · obtain rfl := List.mem_singleton.mp last
      have value := digit_value n
      simp only [isDigit,Bool.and_eq_true,decide_eq_true_eq,UInt8.le_iff_toNat_le]
      rw [value]
      exact ⟨Nat.le_add_right 48 _,by show _ ≤ 55; omega⟩

theorem foldlM_digits {limit value width n : Nat} (fits : n < 8 ^ width)
    (room : (value + 1) * 8 ^ width ≤ limit) :
    (digits width n).foldlM (push limit) value = some (value * 8 ^ width + n) := by
  induction width generalizing n with
  | zero =>
    obtain rfl : n = 0 := by omega
    rw [Nat.pow_zero,Nat.mul_one,Nat.add_zero]
    rfl
  | succ width ih =>
    rw [Nat.pow_succ] at fits room ⊢
    have upper : n / 8 < 8 ^ width := Nat.div_lt_of_lt_mul (by omega)
    have scaled : (value + 1) * (8 ^ width * 8) = value * 8 ^ width * 8 + 8 ^ width * 8 := by
      rw [← Nat.mul_assoc,Nat.succ_mul,Nat.add_mul]
    have narrower : (value + 1) * 8 ^ width = value * 8 ^ width + 8 ^ width := Nat.succ_mul ..
    have total : value * (8 ^ width * 8) = value * 8 ^ width * 8 := (Nat.mul_assoc ..).symm
    rw [digits,List.foldlM_append,ih upper (by omega),total]
    generalize value * 8 ^ width = base at *
    show (push limit (base + n / 8) (UInt8.ofNat (48 + n % 8))).bind pure = _
    rw [push,digit_value,if_neg (by omega),if_neg (by omega)]
    show some _ = some _
    congr 1
    omega

/-- A number is read back from the field it was written to. -/
theorem read_digits {limit width n : Nat} {tail : Bytes} (fits : n < 8 ^ width) (room : 8 ^ width ≤ limit)
    (wide : 0 < width) (ends : tail ≠ []) (blank : ∀ b ∈ tail, b = 0 ∨ b = 32) :
    read limit (digits width n ++ tail) = some n := by
  have run : (digits width n ++ tail).takeWhile isDigit = digits width n := by
    cases tail with
    | nil => exact absurd rfl ends
    | cons b tail =>
      have stop : isDigit b = false := by
        rcases blank b List.mem_cons_self with rfl | rfl <;> rfl
      rw [List.takeWhile_append_of_pos digits_digit,List.takeWhile_cons_of_neg (by rw [stop]; decide),
        List.append_nil]
  have longer : (digits width n).length ≠ (digits width n ++ tail).length := by
    have := List.length_pos_iff.mpr ends
    rw [List.length_append]
    omega
  have clean : ¬ tail.any (fun b => b != 0 && b != 32) = true := by
    rw [List.any_eq_true]
    rintro ⟨b,member,other⟩
    rcases blank b member with rfl | rfl <;> cases other
  unfold read
  rw [run]
  dsimp only
  rw [if_neg,foldlM_digits fits (by omega),Nat.zero_mul,Nat.zero_add]
  rw [List.drop_left]
  rintro (empty | whole | dirty)
  · rw [digits_length] at empty
    omega
  · exact longer whole
  · exact clean dirty

end Entorhinal.Octal
