import Entorhinal.Transition

/-! Names that are merged into others. What a step does to a live name is its fate; where
a name stands after several steps is found by following it through their fates, one by
one. A forwarding table answers for a name that is no longer live in one lookup. -/
namespace Entorhinal.Forwarding
open Transition

inductive Fate (ι : Type*)
  | stays
  | moved (heir : ι)
  | ended
deriving DecidableEq, Repr

variable {ι σ α : Type*}

/-- Where a live name stands after a list of steps, if no step ended it. -/
def follow : List (ι → Fate ι) → ι → Option ι
  | [], name => some name
  | fate :: rest, name => match fate name with
    | .stays => follow rest name
    | .moved heir => follow rest heir
    | .ended => none

/-- A name is lost only where a step ended the name it stood for. -/
theorem follow_none {fates : List (ι → Fate ι)} {name : ι} (lost : follow fates name = none) :
    ∃ before fate after last, fates = before ++ fate :: after ∧ follow before name = some last ∧
      fate last = .ended := by
  induction fates generalizing name with
  | nil => cases lost
  | cons fate rest ih =>
    simp only [follow] at lost
    cases chosen : fate name with
    | stays =>
      rw [chosen] at lost
      obtain ⟨before,at_end,after,last,split,followed,ended⟩ := ih lost
      exact ⟨fate :: before,at_end,after,last,by rw [split]; rfl,by simpa [follow,chosen] using followed,ended⟩
    | moved heir =>
      rw [chosen] at lost
      obtain ⟨before,at_end,after,last,split,followed,ended⟩ := ih lost
      exact ⟨fate :: before,at_end,after,last,by rw [split]; rfl,by simpa [follow,chosen] using followed,ended⟩
    | ended => exact ⟨[],fate,rest,name,rfl,rfl,chosen⟩

/-- The forwarding table keeps up with a step: an entry goes where its target goes. -/
def Carries (fate : ι → Fate ι) (before after : ι → Option ι) : Prop :=
  ∀ name target, before name = some target → match fate target with
    | .stays => after name = some target
    | .moved heir => after name = some heir
    | .ended => True

section Runs

variable {next : σ → α → Option σ} {allow : σ → α → Prop} {inv : σ → Prop}
  {table : σ → ι → Option ι} {fate : σ → α → ι → Fate ι}

def fates (fate : σ → α → ι → Fate ι) (steps : List (σ × α)) : List (ι → Fate ι) :=
  steps.map fun step => fate step.1 step.2

/-- When every step carries the table, one lookup at the end of a run gives what
following the entry's target through the run gives. -/
theorem lookup_of_follow
    (kept : ∀ s label s', inv s → allow s label → next s label = some s' → inv s')
    (carried : ∀ s label s', inv s → allow s label → next s label = some s' →
      Carries (fate s label) (table s) (table s'))
    {s s' : σ} {steps : List (σ × α)} (path : Path next allow s steps s') (holds : inv s)
    {name target last : ι} (found : table s name = some target)
    (followed : follow (fates fate steps) target = some last) : table s' name = some last := by
  induction path generalizing target with
  | nil => cases followed; exact found
  | cons label admitted taken _ ih =>
    have entry := carried _ _ _ holds admitted taken name target found
    simp only [fates,List.map_cons,follow] at followed
    revert entry followed
    cases fate _ label target with
    | stays => exact fun entry followed => ih (kept _ _ _ holds admitted taken) entry followed
    | moved heir => exact fun entry followed => ih (kept _ _ _ holds admitted taken) entry followed
    | ended => exact fun _ followed => nomatch followed

end Runs
end Entorhinal.Forwarding
