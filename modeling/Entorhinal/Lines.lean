import Mathlib.Algebra.Order.Ring.Int
import Mathlib.Data.List.Basic
import Mathlib.Tactic.Common

/-! Lines of a stream of symbols: each ends in a terminator that occurs nowhere
else in it, and a reader takes at most a given number of symbols for one. -/
namespace Entorhinal.Lines

variable {α : Type*} [DecidableEq α]

/-- The first line of the input and what follows its terminator, if that is among
the first `cap` symbols. -/
def splitLine (terminator : α) : Nat → List α → Option (List α × List α)
  | 0, _ => none
  | _ + 1, [] => none
  | cap + 1, symbol :: rest =>
    if symbol = terminator then some ([],rest)
    else (splitLine terminator cap rest).map fun (line,rest) => (symbol :: line,rest)

variable {terminator : α} {cap : Nat} {line input rest : List α}

/-- A line is read back exactly from where it was written. -/
theorem splitLine_iff : splitLine terminator cap input = some (line,rest) ↔
    input = line ++ terminator :: rest ∧ terminator ∉ line ∧ line.length < cap := by
  induction input generalizing cap line with
  | nil => cases cap <;> simp [splitLine]
  | cons symbol input ih =>
    cases cap with
    | zero => simp [splitLine]
    | succ cap =>
      simp only [splitLine]
      by_cases last : symbol = terminator
      · rw [if_pos last]
        constructor
        · intro same
          cases same
          exact ⟨by rw [last,List.nil_append],List.not_mem_nil,Nat.succ_pos _⟩
        · rintro ⟨shape,clear,_⟩
          cases line with
          | nil => cases shape; rfl
          | cons first line =>
            cases shape
            exact absurd (last ▸ List.mem_cons_self) clear
      · rw [if_neg last]
        constructor
        · intro same
          obtain ⟨⟨tail,after⟩,read,same⟩ := Option.map_eq_some_iff.mp same
          cases same
          obtain ⟨shape,clear,short⟩ := ih.mp read
          refine ⟨by rw [shape,List.cons_append],?_,Nat.succ_lt_succ short⟩
          simpa [Ne.symm last] using clear
        · rintro ⟨shape,clear,short⟩
          cases line with
          | nil => cases shape; exact absurd rfl last
          | cons first line =>
            cases shape
            have read := ih.mpr ⟨rfl,fun member => clear (List.mem_cons_of_mem _ member),
              Nat.lt_of_succ_lt_succ short⟩
            rw [read]
            rfl

end Entorhinal.Lines
