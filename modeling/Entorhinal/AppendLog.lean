import Mathlib.Algebra.Order.Ring.Int
import Mathlib.Data.List.Basic
import Mathlib.Data.List.Nodup
import Mathlib.Tactic.Common

/-! An append-only log served by compare-and-append. An append names the head it
expects and an id of its own; a repeated id answers with the position the first
append got. Position `n` is the entry at index `n - 1`. -/
namespace Entorhinal.AppendLog

structure Entry (κ β : Type*) where
  id : κ
  body : β
deriving DecidableEq, Repr

structure Request (κ β : Type*) where
  expectedHead : Nat
  entry : Entry κ β
deriving DecidableEq, Repr

inductive Reply
  | receipt (position : Nat)
  | headMoved
  | idReused
deriving DecidableEq, Repr

variable {κ β : Type*}

/-- No id is used twice. -/
def Distinct (log : List (Entry κ β)) : Prop := (log.map (·.id)).Nodup

theorem Distinct.eq {log : List (Entry κ β)} (distinct : Distinct log) {i j : Nat} {a b : Entry κ β}
    (atI : log[i]? = some a) (atJ : log[j]? = some b) (same : a.id = b.id) : i = j := by
  have first : (log.map (·.id))[i]? = some a.id := by simp [atI]
  have second : (log.map (·.id))[j]? = some a.id := by simp [atJ,same]
  obtain ⟨boundI,valueI⟩ := List.getElem?_eq_some_iff.mp first
  obtain ⟨boundJ,valueJ⟩ := List.getElem?_eq_some_iff.mp second
  exact (List.Nodup.getElem_inj_iff distinct).mp (valueI.trans valueJ.symm)

theorem Distinct.push {log : List (Entry κ β)} (distinct : Distinct log) {entry : Entry κ β}
    (fresh : ∀ e ∈ log, e.id ≠ entry.id) : Distinct (log ++ [entry]) := by
  unfold Distinct
  rw [List.map_append,List.nodup_append]
  refine ⟨distinct,by simp,?_⟩
  intro id inside last isLast same
  obtain ⟨e,member,rfl⟩ := List.mem_map.mp inside
  exact fresh e member (same.trans (by simpa using isLast))

/-- What the service does with one append: the id is looked up first, then the
expected head is compared. -/
def append [DecidableEq κ] [DecidableEq β] (log : List (Entry κ β)) (request : Request κ β) :
    List (Entry κ β) × Reply :=
  match log.findIdx? fun e => e.id = request.entry.id with
  | some i => (log,if log[i]? = some request.entry then .receipt (i + 1) else .idReused)
  | none =>
    if request.expectedHead = log.length then (log ++ [request.entry],.receipt (log.length + 1))
    else (log,.headMoved)

section Append

variable [DecidableEq κ] [DecidableEq β] {log : List (Entry κ β)} {request : Request κ β}

/-- An append leaves the log alone or adds its entry, under a new id, in the
slot it expected. -/
theorem append_cases (log : List (Entry κ β)) (request : Request κ β) :
    (append log request).1 = log ∨
    (request.expectedHead = log.length ∧ (∀ e ∈ log, e.id ≠ request.entry.id) ∧
      (append log request).1 = log ++ [request.entry]) := by
  unfold append
  split
  next => exact .inl rfl
  next absent =>
    split
    next head =>
      refine .inr ⟨head,fun e member => ?_,rfl⟩
      simpa using List.findIdx?_eq_none_iff.mp absent e member
    next => exact .inl rfl

theorem append_extends (log : List (Entry κ β)) (request : Request κ β) :
    log <+: (append log request).1 := by
  rcases append_cases log request with same | ⟨_,_,pushed⟩
  · exact ⟨[],by simp [same]⟩
  · rw [pushed]; exact List.prefix_append _ _

theorem append_distinct (distinct : Distinct log) : Distinct (append log request).1 := by
  rcases append_cases log request with same | ⟨_,fresh,pushed⟩
  · rwa [same]
  · rw [pushed]; exact distinct.push fresh

/-- A receipt names the position at which the request's own entry stands. -/
theorem append_receipt {position : Nat} (answer : (append log request).2 = .receipt position) :
    ∃ i, position = i + 1 ∧ (append log request).1[i]? = some request.entry := by
  unfold append at answer ⊢
  split at answer
  next i found =>
    split at answer
    next same => cases answer; exact ⟨i,rfl,same⟩
    next => cases answer
  next absent =>
    split at answer
    next head => cases answer; exact ⟨log.length,rfl,by simp [head]⟩
    next => cases answer

end Append

/-- Every entry under the request's id is the request's entry in its slot. -/
def OnlyIn (log : List (Entry κ β)) (request : Request κ β) : Prop :=
  ∀ i e, log[i]? = some e → e.id = request.entry.id → i = request.expectedHead ∧ e = request.entry

theorem OnlyIn.append [DecidableEq κ] [DecidableEq β] {log : List (Entry κ β)}
    {request other : Request κ β} (only : OnlyIn log request)
    (same : other.entry.id = request.entry.id → other = request) :
    OnlyIn (append log other).1 request := by
  rcases append_cases log other with unchanged | ⟨head,_,pushed⟩
  · rwa [unchanged]
  · intro i e found own
    rw [pushed,List.getElem?_append] at found
    split at found
    next => exact only i e found own
    next outside =>
      obtain ⟨index,rfl⟩ : i - log.length = 0 ∧ other.entry = e := by
        cases shown : i - log.length with
        | zero => exact ⟨rfl,by simpa [shown] using found⟩
        | succ n => simp [shown] at found
      obtain rfl := same own
      exact ⟨by omega,rfl⟩

/-- A request whose id the log does not know meets the condition trivially. -/
theorem OnlyIn.absent {log : List (Entry κ β)} {request : Request κ β}
    (unknown : ∀ e ∈ log, e.id ≠ request.entry.id) : OnlyIn log request :=
  fun _ e found own => absurd own (unknown e (List.mem_of_getElem? found))

end Entorhinal.AppendLog
