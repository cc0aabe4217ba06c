import Mathlib.Algebra.Order.Ring.Int
import Mathlib.Data.List.Basic
import Mathlib.Tactic.Common

/-! Labelled transition systems given by an executable step function. Every
nondeterministic choice is part of the label, so a run is a list of labels. An
admission predicate restricts a run to steps taken from states that meet it. -/
namespace Entorhinal.Transition

variable {σ α : Type*}

/-- The states reached from `start` by steps that are enabled and admitted. -/
inductive Reach (next : σ → α → Option σ) (allow : σ → α → Prop) (start : σ) : σ → Prop
  | refl : Reach next allow start start
  | step {s s' : σ} (label : α) (before : Reach next allow start s)
      (admitted : allow s label) (taken : next s label = some s') :
      Reach next allow start s'

/-- Every step is admitted. -/
def Free : σ → α → Prop := fun _ _ => True

namespace Reach

variable {next : σ → α → Option σ} {allow allow' : σ → α → Prop} {start s s' : σ}

/-- The induction rule: what holds at the start and is kept by every admitted
step holds in every state reached. -/
theorem invariant (inv : σ → Prop) (initial : inv start)
    (kept : ∀ s label s', inv s → allow s label → next s label = some s' → inv s')
    (reached : Reach next allow start s) : inv s := by
  induction reached with
  | refl => exact initial
  | step label _ admitted taken ih => exact kept _ label _ ih admitted taken

/-- An invariant may be proved under another one that already holds. -/
theorem invariant_under (base inv : σ → Prop)
    (holds : ∀ s, Reach next allow start s → base s) (initial : inv start)
    (kept : ∀ s label s', base s → inv s → allow s label → next s label = some s' → inv s')
    (reached : Reach next allow start s) : inv s := by
  induction reached with
  | refl => exact initial
  | step label before admitted taken ih => exact kept _ label _ (holds _ before) ih admitted taken

theorem mono (weaker : ∀ s label, allow s label → allow' s label)
    (reached : Reach next allow start s) : Reach next allow' start s := by
  induction reached with
  | refl => exact .refl
  | step label _ admitted taken ih => exact .step label ih (weaker _ label admitted) taken

theorem trans {t : σ} (first : Reach next allow start s) (second : Reach next allow s t) :
    Reach next allow start t := by
  induction second with
  | refl => exact first
  | step label _ admitted taken ih => exact .step label ih admitted taken

end Reach

/-- A run with its steps: each step's label and the state it was taken from. -/
inductive Path (next : σ → α → Option σ) (allow : σ → α → Prop) : σ → List (σ × α) → σ → Prop
  | nil (s : σ) : Path next allow s [] s
  | cons {s middle s' : σ} {rest : List (σ × α)} (label : α) (admitted : allow s label)
      (taken : next s label = some middle) (path : Path next allow middle rest s') :
      Path next allow s ((s,label) :: rest) s'

theorem Path.reach {next : σ → α → Option σ} {allow : σ → α → Prop} {s s' : σ} {steps : List (σ × α)}
    (path : Path next allow s steps s') : Reach next allow s s' := by
  induction path with
  | nil => exact .refl
  | cons label admitted taken _ ih => exact (Reach.step label .refl admitted taken).trans ih

/-- Runs a list of labels, stopping at the first one that is not enabled. -/
def exec (next : σ → α → Option σ) : σ → List α → Option σ
  | s, [] => some s
  | s, label :: rest => (next s label).bind fun s' => exec next s' rest

/-- Whether every step of the run is admitted where it is taken. -/
def admits (next : σ → α → Option σ) (allow : σ → α → Bool) : σ → List α → Bool
  | _, [] => true
  | s, label :: rest => allow s label && match next s label with
    | none => false
    | some s' => admits next allow s' rest

theorem exec_reach {next : σ → α → Option σ} {start s' : σ} {labels : List α}
    (done : exec next start labels = some s') : Reach next Free start s' := by
  induction labels generalizing start with
  | nil => cases done; exact .refl
  | cons label rest ih =>
    obtain ⟨middle,taken,done⟩ := Option.bind_eq_some_iff.mp done
    exact (Reach.step label .refl trivial taken).trans (ih done)

theorem admits_reach {next : σ → α → Option σ} (allow : σ → α → Bool) {start s' : σ}
    {labels : List α} (done : exec next start labels = some s')
    (admitted : admits next allow start labels = true) :
    Reach next (fun s label => allow s label = true) start s' := by
  induction labels generalizing start with
  | nil => cases done; exact .refl
  | cons label rest ih =>
    obtain ⟨middle,taken,done⟩ := Option.bind_eq_some_iff.mp done
    simp only [admits,taken,Bool.and_eq_true] at admitted
    exact (Reach.step label .refl admitted.1 taken).trans (ih done admitted.2)

/-- A run whose labels are admitted in every state. -/
theorem exec_admitted {next : σ → α → Option σ} {allow : σ → α → Prop} {start s' : σ} {labels : List α}
    (done : exec next start labels = some s') (admitted : ∀ label ∈ labels, ∀ s, allow s label) :
    Reach next allow start s' := by
  induction labels generalizing start with
  | nil => cases done; exact .refl
  | cons label rest ih =>
    obtain ⟨middle,taken,done⟩ := Option.bind_eq_some_iff.mp done
    have first : Reach next allow start middle := .step label .refl (admitted label List.mem_cons_self start) taken
    exact first.trans (ih done fun later inside => admitted later (List.mem_cons_of_mem _ inside))

/-- A run that is executed, with its steps. -/
theorem admits_path {next : σ → α → Option σ} {allow : σ → α → Prop} (check : σ → α → Bool)
    (correct : ∀ s label, check s label = true → allow s label) {start s' : σ} {labels : List α}
    (done : exec next start labels = some s') (admitted : admits next check start labels = true) :
    ∃ steps, Path next allow start steps s' := by
  induction labels generalizing start with
  | nil => cases done; exact ⟨[],.nil _⟩
  | cons label rest ih =>
    obtain ⟨middle,taken,done⟩ := Option.bind_eq_some_iff.mp done
    simp only [admits,taken,Bool.and_eq_true] at admitted
    obtain ⟨steps,path⟩ := ih done admitted.2
    exact ⟨_,.cons label (correct _ _ admitted.1) taken path⟩

end Entorhinal.Transition
