import Mathlib.Algebra.Order.Ring.Int
import Mathlib.Data.List.Basic
import Mathlib.Data.List.Pairwise
import Mathlib.Tactic.Common

/-! A linearizable compare-and-swap register that keeps its whole history. A
write names the version it expects and an id of its own; a repeated id answers
with the version the first write got. Versions grow with every write, by how
much the service decides. -/
namespace Entorhinal

structure Written (ι θ β : Type*) where
  version : Nat
  writeId : ι
  author : θ
  body : β
deriving DecidableEq, Repr

/-- The writes of one subject, newest first. -/
structure Register (ι θ β : Type*) where
  writes : List (Written ι θ β)
  newest : writes.Pairwise fun a b => b.version < a.version
  positive : ∀ w ∈ writes, 0 < w.version

namespace Register

variable {ι θ β : Type*}

def empty : Register ι θ β := ⟨[],.nil,by simp⟩

instance : Inhabited (Register ι θ β) := ⟨empty⟩

/-- The version of the newest write, zero while there is none. -/
def version (r : Register ι θ β) : Nat := (r.writes.head?.map (·.version)).getD 0

def current (r : Register ι θ β) : Option (Written ι θ β) := r.writes.head?

theorem version_le {r : Register ι θ β} {w : Written ι θ β} (member : w ∈ r.writes) :
    w.version ≤ r.version := by
  obtain ⟨writes,newest,positive⟩ := r
  cases writes with
  | nil => cases member
  | cons head rest =>
    rcases List.mem_cons.mp member with rfl | inside
    · exact Nat.le_refl _
    · exact Nat.le_of_lt ((List.pairwise_cons.mp newest).1 w inside)

theorem current_mem {r : Register ι θ β} {w : Written ι θ β} (found : r.current = some w) :
    w ∈ r.writes := List.mem_of_mem_head? found

theorem version_zero {r : Register ι θ β} : r.version = 0 ↔ r.writes = [] := by
  obtain ⟨writes,newest,positive⟩ := r
  cases writes with
  | nil => simp [version]
  | cons head rest =>
    have := positive head List.mem_cons_self
    simp [version]
    omega

/-- One version belongs to one write. -/
theorem version_inj {r : Register ι θ β} {a b : Written ι θ β} (left : a ∈ r.writes)
    (right : b ∈ r.writes) (same : a.version = b.version) : a = b := by
  obtain ⟨writes,newest,positive⟩ := r
  induction newest with
  | nil => cases left
  | @cons head rest first _ ih =>
    rcases List.mem_cons.mp left with rfl | inside <;> rcases List.mem_cons.mp right with rfl | present
    · rfl
    · have := first b present
      omega
    · have := first a inside
      omega
    · exact ih (fun w member => positive w (List.mem_cons_of_mem _ member)) inside present

/-- Appends a write whose version is above every earlier one. -/
def push (r : Register ι θ β) (w : Written ι θ β) (above : r.version < w.version) :
    Register ι θ β where
  writes := w :: r.writes
  newest := List.pairwise_cons.mpr
    ⟨fun _ member => Nat.lt_of_le_of_lt (version_le member) above,r.newest⟩
  positive := by
    intro x member
    rcases List.mem_cons.mp member with rfl | inside
    · omega
    · exact r.positive x inside

@[simp] theorem push_writes (r : Register ι θ β) (w : Written ι θ β) (above : r.version < w.version) :
    (r.push w above).writes = w :: r.writes := rfl

@[simp] theorem push_version (r : Register ι θ β) (w : Written ι θ β) (above : r.version < w.version) :
    (r.push w above).version = w.version := rfl

inductive CasAnswer
  | stored (version : Nat)
  | versionMoved
  | idReused
deriving DecidableEq, Repr

/-- What the service does with one write: the receipt lookup comes first, then
the comparison with the expected version. `fresh` is the version the service
would give it. -/
def cas [DecidableEq ι] [DecidableEq θ] [DecidableEq β] (r : Register ι θ β)
    (expected fresh : Nat) (writeId : ι) (author : θ) (body : β) : Register ι θ β × CasAnswer :=
  match r.writes.find? fun w => w.writeId = writeId with
  | some w => if w.author = author ∧ w.body = body then (r,.stored w.version) else (r,.idReused)
  | none =>
    if h : expected = r.version ∧ r.version < fresh then
      (r.push ⟨fresh,writeId,author,body⟩ h.2,.stored fresh)
    else (r,.versionMoved)

section Cas

variable [DecidableEq ι] [DecidableEq θ] [DecidableEq β] {r : Register ι θ β}
variable {expected fresh : Nat} {writeId : ι} {author : θ} {body : β}

/-- A write either leaves the history alone or adds itself on top of the
version it expected. -/
theorem cas_cases (r : Register ι θ β) (expected fresh : Nat) (writeId : ι) (author : θ) (body : β) :
    ((r.cas expected fresh writeId author body).1 = r) ∨
    (expected = r.version ∧ r.version < fresh ∧ (∀ w ∈ r.writes, w.writeId ≠ writeId) ∧
      (r.cas expected fresh writeId author body).1.writes = ⟨fresh,writeId,author,body⟩ :: r.writes) := by
  unfold cas
  split
  next w found => left; split <;> rfl
  next absent =>
    split
    next h =>
      right
      refine ⟨h.1,h.2,?_,rfl⟩
      intro w member
      simpa using List.find?_eq_none.mp absent w member
    next => left; rfl

/-- A stored write stands in the history under the version answered. -/
theorem cas_stored {version : Nat}
    (answer : (r.cas expected fresh writeId author body).2 = .stored version) :
    ⟨version,writeId,author,body⟩ ∈ (r.cas expected fresh writeId author body).1.writes := by
  unfold cas at answer ⊢
  split at answer
  next w found =>
    have same : w.writeId = writeId := by simpa using List.find?_some found
    split at answer
    next matching =>
      obtain ⟨rfl,rfl⟩ := matching
      cases answer
      subst same
      simpa [found] using List.mem_of_find?_eq_some found
    next => cases answer
  next absent =>
    split at answer
    next h => cases answer; simp [h]
    next => cases answer

theorem cas_keeps {w : Written ι θ β} (member : w ∈ r.writes) :
    w ∈ (r.cas expected fresh writeId author body).1.writes := by
  rcases cas_cases r expected fresh writeId author body with same | ⟨_,_,_,pushed⟩
  · rwa [same]
  · rw [pushed]; exact List.mem_cons_of_mem _ member

end Cas
end Register
end Entorhinal
