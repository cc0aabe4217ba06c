import Mathlib.Algebra.Order.Ring.Int
import Mathlib.Tactic.Common

/-! A loop by its turns: each goes on with another state or ends with a result. -/
namespace Entorhinal.Loop

variable {σ ρ : Type} {turn : σ → σ ⊕ ρ}

/-- The loop for so many turns at most. -/
def run (turn : σ → σ ⊕ ρ) : Nat → σ → Option ρ
  | 0,_ => none
  | n + 1,s => match turn s with
    | .inl next => run turn n next
    | .inr done => some done

theorem run_on {s next : σ} (goes : turn s = .inl next) (n : Nat) : run turn (n + 1) s = run turn n next := by
  rw [run,goes]

theorem run_done {s : σ} {done : ρ} (ends : turn s = .inr done) (n : Nat) : run turn (n + 1) s = some done := by
  rw [run,ends]

/-- A loop that ended stays ended, however many turns it is given. -/
theorem run_more {n : Nat} {s : σ} {done : ρ} (ran : run turn n s = some done) (more : Nat) : run turn (n + more) s = some done := by
  induction n generalizing s with
  | zero => cases ran
  | succ n ih =>
    rw [Nat.add_right_comm]
    cases is : turn s with
    | inl next =>
      rw [run_on is] at ran ⊢
      exact ih ran
    | inr result =>
      rw [run_done is] at ran ⊢
      exact ran

/-- What every turn makes smaller and no result goes without ends the loop, in as many turns as it is large. -/
theorem run_ends (size : σ → Nat) (f : σ → ρ) (smaller : ∀ s next, turn s = .inl next → size next < size s ∧ f s = f next)
    (result : ∀ s done, turn s = .inr done → f s = done) (s : σ) : run turn (size s + 1) s = some (f s) := by
  suffices enough : ∀ n s, size s < n → run turn n s = some (f s) from enough _ s (Nat.lt_succ_self _)
  intro n
  induction n with
  | zero => exact fun s none_ => absurd none_ (Nat.not_lt_zero _)
  | succ n ih =>
    intro s room
    cases is : turn s with
    | inl next =>
      obtain ⟨less,same⟩ := smaller s next is
      rw [run_on is,same]
      exact ih next (by omega)
    | inr done => rw [run_done is,result s done is]

end Entorhinal.Loop
