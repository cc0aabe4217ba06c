import Mathlib.Algebra.Order.Ring.Int
import Mathlib.Data.List.Induction
import Mathlib.Data.List.Lex
import Mathlib.Tactic.Common

/-! Naturals in a fixed number of bytes, the most significant first, and the order of byte strings. -/
namespace Entorhinal.BigEndian

/-- The low bytes of a number. -/
def write : Nat → Nat → List UInt8
  | 0,_ => []
  | width + 1,n => write width (n / 256) ++ [UInt8.ofNat n]

def read (bytes : List UInt8) : Nat := bytes.foldl (fun n b => n * 256 + b.toNat) 0

@[simp] theorem write_length (width n : Nat) : (write width n).length = width := by
  induction width generalizing n with
  | zero => rfl
  | succ width ih => rw [write,List.length_append,ih]; rfl

theorem read_append (bytes : List UInt8) (b : UInt8) : read (bytes ++ [b]) = read bytes * 256 + b.toNat := by
  rw [read,List.foldl_append]
  rfl

theorem read_written {width n : Nat} (fits : n < 256 ^ width) : read (write width n) = n := by
  induction width generalizing n with
  | zero =>
    have zero : n = 0 := by simpa using fits
    rw [zero]
    rfl
  | succ width ih =>
    have rest : n / 256 < 256 ^ width := Nat.div_lt_of_lt_mul (by rwa [← Nat.pow_succ'])
    rw [write,read_append,ih rest,UInt8.toNat_ofNat']
    omega

theorem write_read (bytes : List UInt8) : write bytes.length (read bytes) = bytes := by
  induction bytes using List.reverseRecOn with
  | nil => rfl
  | append_singleton bytes b ih =>
    have small := b.toNat_lt
    have high : (read bytes * 256 + b.toNat) / 256 = read bytes := by omega
    have low : UInt8.ofNat (read bytes * 256 + b.toNat) = b := by
      apply UInt8.toNat_inj.mp
      rw [UInt8.toNat_ofNat']
      omega
    rw [List.length_append,List.length_singleton,write,read_append,high,low,ih]

/-- Bytes by value, for their lexicographic order. -/
def rank (bytes : List UInt8) : List Nat := bytes.map UInt8.toNat

theorem rank_inj {a b : List UInt8} (same : rank a = rank b) : a = b :=
  List.map_injective_iff.mpr (fun _ _ => UInt8.toNat_inj.mp) same

end Entorhinal.BigEndian
