import Mathlib.Algebra.Order.Ring.Int
import Mathlib.Data.Finset.Lattice.Lemmas
import Mathlib.Tactic.Common

/-! Approvals and revocations of permissions by key, newest first: what was ever
approved under a key, and whether an approval stands after the last revocation. -/
namespace Entorhinal

inductive Approval (κ τ : Type*)
  | approved (key : κ) (tokens : Finset τ)
  | revoked (key : κ)
deriving DecidableEq

namespace Approval

variable {κ τ : Type*}

def key : Approval κ τ → κ
  | .approved key _ => key
  | .revoked key => key

/-- Approved at some time. -/
def known (key : κ) (events : List (Approval κ τ)) : Prop := ∃ ceiling, .approved key ceiling ∈ events

variable {events : List (Approval κ τ)} {key' : κ}

@[simp] theorem known_approved {k : κ} {ceiling : Finset τ} :
    known key' (.approved k ceiling :: events) ↔ k = key' ∨ known key' events := by
  simp only [known,List.mem_cons,approved.injEq]
  constructor
  · rintro ⟨before,⟨rfl,_⟩ | member⟩
    · exact .inl rfl
    · exact .inr ⟨before,member⟩
  · rintro (rfl | ⟨before,member⟩)
    · exact ⟨ceiling,.inl ⟨rfl,rfl⟩⟩
    · exact ⟨before,.inr member⟩

@[simp] theorem known_revoked {k : κ} :
    known key' (.revoked k :: events) ↔ known key' events := by simp [known]

variable [DecidableEq κ] [DecidableEq τ]

/-- Everything ever approved under a key. -/
def tokens (key : κ) : List (Approval κ τ) → Finset τ
  | [] => ∅
  | .approved k ceiling :: older => if k = key then ceiling ∪ tokens key older else tokens key older
  | .revoked _ :: older => tokens key older

/-- The last event of the key is an approval. -/
def standing (key : κ) : List (Approval κ τ) → Bool
  | [] => false
  | .approved k _ :: older => k == key || standing key older
  | .revoked k :: older => k != key && standing key older

/-- What a key holds after each of the events, as an audit of them records it. -/
def trail : List (Approval κ τ) → List (Approval κ τ × Finset τ)
  | [] => []
  | event :: older => (event,tokens event.key (event :: older)) :: trail older

theorem mem_tokens {token : τ} :
    token ∈ tokens key' events ↔ ∃ ceiling, .approved key' ceiling ∈ events ∧ token ∈ ceiling := by
  induction events with
  | nil => simp [tokens]
  | cons event older ih =>
    cases event with
    | revoked k => simp [tokens,ih]
    | approved k ceiling =>
      by_cases same : k = key'
      · subst same
        simp only [tokens,if_true,Finset.mem_union,ih,List.mem_cons,approved.injEq,true_and]
        constructor
        · rintro (now | ⟨before,member,inside⟩)
          · exact ⟨ceiling,.inl rfl,now⟩
          · exact ⟨before,.inr member,inside⟩
        · rintro ⟨before,rfl | member,inside⟩
          · exact .inl inside
          · exact .inr ⟨before,member,inside⟩
      · simp [tokens,same,ih,Ne.symm same]

omit [DecidableEq τ] in
theorem standing_iff :
    standing key' events = true ↔ ∃ newer ceiling older,
      events = newer ++ .approved key' ceiling :: older ∧ .revoked key' ∉ newer := by
  induction events with
  | nil => simp [standing]
  | cons event older ih =>
    have later : (∃ newer ceiling rest, event :: older = newer ++ .approved key' ceiling :: rest ∧
        .revoked key' ∉ newer) ↔ (∃ ceiling, event = .approved key' ceiling) ∨
        (event ≠ .revoked key' ∧ standing key' older = true) := by
      rw [ih]
      constructor
      · rintro ⟨newer,ceiling,rest,same,quiet⟩
        cases newer with
        | nil =>
          rw [List.nil_append,List.cons.injEq] at same
          exact .inl ⟨ceiling,same.1⟩
        | cons first newer =>
          rw [List.cons_append,List.cons.injEq] at same
          obtain ⟨rfl,same⟩ := same
          rw [List.mem_cons,not_or] at quiet
          exact .inr ⟨Ne.symm quiet.1,newer,ceiling,rest,same,quiet.2⟩
      · rintro (⟨ceiling,rfl⟩ | ⟨other,newer,ceiling,rest,rfl,quiet⟩)
        · exact ⟨[],ceiling,older,rfl,by simp⟩
        · exact ⟨event :: newer,ceiling,rest,rfl,by simp [quiet,Ne.symm other]⟩
    rw [later]
    cases event with
    | approved k ceiling => simp [standing]
    | revoked k => simp [standing]

omit [DecidableEq τ] in
/-- Nothing stands from a revocation on until the next approval. -/
theorem standing_revoked {newer older : List (Approval κ τ)}
    (none_since : ∀ ceiling, .approved key' ceiling ∉ newer) :
    standing key' (newer ++ .revoked key' :: older) = false := by
  induction newer with
  | nil => simp [standing]
  | cons event newer ih =>
    have later := ih fun ceiling member => none_since ceiling (List.mem_cons_of_mem _ member)
    cases event with
    | revoked k => simp [standing,later]
    | approved k ceiling =>
      have other : k ≠ key' := by
        rintro rfl
        exact none_since ceiling List.mem_cons_self
      simp [standing,later,other]

omit [DecidableEq τ] in
/-- A standing approval is one that was made. -/
theorem standing_known (stands : standing key' events = true) : known key' events := by
  obtain ⟨newer,ceiling,older,rfl,_⟩ := standing_iff.mp stands
  exact ⟨ceiling,by simp⟩

theorem tokens_unknown (unknown : ¬ known key' events) : tokens key' events = ∅ := by
  apply Finset.eq_empty_of_forall_notMem
  intro token member
  obtain ⟨ceiling,made,_⟩ := mem_tokens.mp member
  exact unknown ⟨ceiling,made⟩

end Approval
end Entorhinal
