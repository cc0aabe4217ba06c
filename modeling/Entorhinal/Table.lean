import Mathlib.Algebra.Order.Ring.Int
import Mathlib.Data.List.Basic
import Mathlib.Data.List.Nodup
import Mathlib.Data.List.Sort
import Mathlib.Order.Lattice
import Mathlib.Tactic.Common

/-! Finite tables with one row a key. The rows are kept in key order, so two
tables with the same row under every key are equal, and iterating the rows is
iterating them ordered by key. -/
namespace Entorhinal

structure Table (κ ρ : Type*) [LinearOrder κ] where
  rows : List (κ × ρ)
  sorted : rows.Pairwise fun a b => a.1 < b.1

namespace Table

variable {κ ρ : Type*} [LinearOrder κ]

instance [DecidableEq ρ] : DecidableEq (Table κ ρ) := fun a b =>
  decidable_of_iff (a.rows = b.rows) ⟨fun same => by cases a; cases b; cases same; rfl,fun same => by rw [same]⟩

instance [Repr κ] [Repr ρ] : Repr (Table κ ρ) := ⟨fun t n => reprPrec t.rows n⟩

def empty : Table κ ρ := ⟨[],.nil⟩

instance : EmptyCollection (Table κ ρ) := ⟨empty⟩

instance : Inhabited (Table κ ρ) := ⟨empty⟩

def lookup : List (κ × ρ) → κ → Option ρ
  | [], _ => none
  | (k,r) :: rest, key => if k = key then some r else lookup rest key

/-- The row stored under a key. -/
def get? (t : Table κ ρ) (key : κ) : Option ρ := lookup t.rows key

def has (t : Table κ ρ) (key : κ) : Bool := (t.get? key).isSome

def keys (t : Table κ ρ) : List κ := t.rows.map Prod.fst

def size (t : Table κ ρ) : Nat := t.rows.length

theorem mem_of_lookup {rows : List (κ × ρ)} {key : κ} {row : ρ}
    (found : lookup rows key = some row) : (key,row) ∈ rows := by
  induction rows with
  | nil => cases found
  | cons head rest ih =>
    obtain ⟨k,r⟩ := head
    by_cases same : k = key
    · simp only [lookup,if_pos same,Option.some.injEq] at found
      simp [same,found]
    · simp only [lookup,if_neg same] at found
      exact List.mem_cons_of_mem _ (ih found)

theorem lookup_of_mem {rows : List (κ × ρ)} {key : κ} {row : ρ}
    (sorted : rows.Pairwise fun a b => a.1 < b.1) (member : (key,row) ∈ rows) :
    lookup rows key = some row := by
  induction rows with
  | nil => cases member
  | cons head rest ih =>
    obtain ⟨k,r⟩ := head
    obtain ⟨first,rest_sorted⟩ := List.pairwise_cons.mp sorted
    rcases List.mem_cons.mp member with same | inside
    · cases same; simp [lookup]
    · have less : k < key := first _ inside
      simp [lookup,less.ne,ih rest_sorted inside]

@[grind =] theorem mem_rows {t : Table κ ρ} {key : κ} {row : ρ} :
    (key,row) ∈ t.rows ↔ t.get? key = some row :=
  ⟨lookup_of_mem t.sorted,mem_of_lookup⟩

@[ext] theorem ext {a b : Table κ ρ} (same : ∀ key, a.get? key = b.get? key) : a = b := by
  have rows : a.rows = b.rows := by
    let _ : Std.Irrefl fun (x y : κ × ρ) => x.1 < y.1 := ⟨fun _ => lt_irrefl _⟩
    let _ : Std.Antisymm fun (x y : κ × ρ) => x.1 < y.1 := ⟨fun _ _ h h' => absurd h' h.not_gt⟩
    refine a.sorted.eq_of_mem_iff b.sorted fun x => ?_
    rw [show x = (x.1,x.2) from rfl,mem_rows,mem_rows,same]
  cases a; cases b; cases rows; rfl

@[simp] theorem get?_empty (key : κ) : (∅ : Table κ ρ).get? key = none := rfl

@[simp] theorem rows_empty : (∅ : Table κ ρ).rows = [] := rfl

theorem mem_keys {t : Table κ ρ} {key : κ} : key ∈ t.keys ↔ t.has key := by
  constructor
  · intro member
    obtain ⟨⟨k,r⟩,inside,rfl⟩ := List.mem_map.mp member
    simp [has,mem_rows.mp inside]
  · intro present
    obtain ⟨row,found⟩ := Option.isSome_iff_exists.mp present
    exact List.mem_map.mpr ⟨(key,row),mem_rows.mpr found,rfl⟩

/-- Rows rewritten or dropped one by one; the other operations are cases of it. -/
def filterMap {ρ' : Type*} (t : Table κ ρ) (f : κ → ρ → Option ρ') : Table κ ρ' where
  rows := t.rows.filterMap fun x => (f x.1 x.2).map (x.1,·)
  sorted := by
    apply t.sorted.filterMap
    intro a a' less b kept b' kept'
    obtain ⟨_,_,rfl⟩ := Option.map_eq_some_iff.mp kept
    obtain ⟨_,_,rfl⟩ := Option.map_eq_some_iff.mp kept'
    exact less

@[simp] theorem get?_filterMap {ρ' : Type*} (t : Table κ ρ) (f : κ → ρ → Option ρ') (key : κ) :
    (t.filterMap f).get? key = (t.get? key).bind (f key) := by
  apply Option.ext
  intro row
  rw [← mem_rows]
  simp only [filterMap,List.mem_filterMap,Option.bind_eq_some_iff]
  constructor
  · rintro ⟨⟨k,r⟩,inside,kept⟩
    obtain ⟨_,made,same⟩ := Option.map_eq_some_iff.mp kept
    cases same
    exact ⟨r,mem_rows.mp inside,made⟩
  · rintro ⟨r,found,made⟩
    exact ⟨(key,r),mem_rows.mpr found,by simp [made]⟩

/-- `DELETE` of the rows that do not satisfy `keep`. -/
def filter (t : Table κ ρ) (keep : κ → ρ → Bool) : Table κ ρ :=
  t.filterMap fun k r => if keep k r then some r else none

@[simp] theorem get?_filter (t : Table κ ρ) (keep : κ → ρ → Bool) (key : κ) :
    (t.filter keep).get? key = (t.get? key).filter (keep key) := by
  simp only [filter,get?_filterMap]
  cases t.get? key <;> simp [Option.filter]

/-- `UPDATE` of every row. -/
def update {ρ' : Type*} (t : Table κ ρ) (f : κ → ρ → ρ') : Table κ ρ' :=
  t.filterMap fun k r => some (f k r)

@[simp] theorem get?_update {ρ' : Type*} (t : Table κ ρ) (f : κ → ρ → ρ') (key : κ) :
    (t.update f).get? key = (t.get? key).map (f key) := by
  simp only [update,get?_filterMap]
  cases t.get? key <;> rfl

@[simp] theorem size_update {ρ' : Type*} (t : Table κ ρ) (f : κ → ρ → ρ') :
    (t.update f).size = t.size := by
  show (t.rows.filterMap (some ∘ fun x => (x.1,f x.1 x.2))).length = t.rows.length
  rw [List.filterMap_eq_map,List.length_map]

def erase (t : Table κ ρ) (key : κ) : Table κ ρ := t.filter fun k _ => k != key

@[simp] theorem get?_erase (t : Table κ ρ) (key other : κ) :
    (t.erase key).get? other = if other = key then none else t.get? other := by
  simp only [erase,get?_filter]
  by_cases same : other = key
  · subst same; cases t.get? other <;> simp [Option.filter]
  · cases t.get? other <;> simp [Option.filter,same]

def insertRow (key : κ) (row : ρ) : List (κ × ρ) → List (κ × ρ)
  | [] => [(key,row)]
  | (k,r) :: rest =>
    if key < k then (key,row) :: (k,r) :: rest
    else if key = k then (key,row) :: rest
    else (k,r) :: insertRow key row rest

theorem insertRow_mem {key : κ} {row : ρ} {rows : List (κ × ρ)} {x : κ × ρ}
    (member : x ∈ insertRow key row rows) : x = (key,row) ∨ x ∈ rows := by
  induction rows with
  | nil => simpa [insertRow] using member
  | cons head rest ih =>
    obtain ⟨k,r⟩ := head
    simp only [insertRow] at member
    split_ifs at member with less same
    · simpa using member
    · rcases List.mem_cons.mp member with rfl | inside
      · exact .inl rfl
      · exact .inr (List.mem_cons_of_mem _ inside)
    · rcases List.mem_cons.mp member with rfl | inside
      · exact .inr List.mem_cons_self
      · exact (ih inside).imp_right (List.mem_cons_of_mem _)

theorem insertRow_sorted (key : κ) (row : ρ) (rows : List (κ × ρ))
    (sorted : rows.Pairwise fun a b => a.1 < b.1) :
    (insertRow key row rows).Pairwise fun a b => a.1 < b.1 := by
  induction rows with
  | nil => simp [insertRow]
  | cons head rest ih =>
    obtain ⟨k,r⟩ := head
    obtain ⟨first,rest_sorted⟩ := List.pairwise_cons.mp sorted
    simp only [insertRow]
    split_ifs with less same
    · refine List.pairwise_cons.mpr ⟨?_,sorted⟩
      intro x member
      rcases List.mem_cons.mp member with rfl | inside
      · exact less
      · exact less.trans (first x inside)
    · subst same
      exact List.pairwise_cons.mpr ⟨first,rest_sorted⟩
    · refine List.pairwise_cons.mpr ⟨?_,ih rest_sorted⟩
      intro x member
      rcases insertRow_mem member with rfl | inside
      · exact lt_of_le_of_ne (not_lt.mp less) (Ne.symm same)
      · exact first x inside

theorem insertRow_last {key : κ} {row : ρ} {rows : List (κ × ρ)} (above : ∀ x ∈ rows, x.1 < key) :
    insertRow key row rows = rows ++ [(key,row)] := by
  induction rows with
  | nil => rfl
  | cons head rest ih =>
    obtain ⟨k,r⟩ := head
    have less : k < key := above _ List.mem_cons_self
    rw [insertRow,if_neg less.not_gt,if_neg less.ne',ih fun x member => above x (List.mem_cons_of_mem _ member)]
    rfl

/-- `INSERT … ON CONFLICT DO UPDATE` of the whole row. -/
def insert (t : Table κ ρ) (key : κ) (row : ρ) : Table κ ρ :=
  ⟨insertRow key row t.rows,insertRow_sorted key row t.rows t.sorted⟩

/-- A row put in the place it already has moves nothing. -/
theorem insertRow_present {key : κ} {row : ρ} {rows : List (κ × ρ)} (sorted : rows.Pairwise fun a b => a.1 < b.1)
    (found : lookup rows key = some row) : insertRow key row rows = rows := by
  induction rows with
  | nil => cases found
  | cons first rows ih =>
    obtain ⟨k,r⟩ := first
    rw [lookup] at found
    rw [insertRow]
    split at found
    next same =>
      obtain rfl := Option.some.inj found
      rw [if_neg (by rw [same]; exact lt_irrefl _),if_pos same.symm,same]
    next other =>
      have later := (List.pairwise_cons.mp sorted).1 _ (mem_of_lookup found)
      rw [if_neg (not_lt_of_gt later),if_neg later.ne',ih (List.pairwise_cons.mp sorted).2 found]

theorem lookup_insertRow (key other : κ) (row : ρ) (rows : List (κ × ρ))
    (sorted : rows.Pairwise fun a b => a.1 < b.1) :
    lookup (insertRow key row rows) other = if other = key then some row else lookup rows other := by
  induction rows with
  | nil => simp [insertRow,lookup,eq_comm]
  | cons head rest ih =>
    obtain ⟨k,r⟩ := head
    obtain ⟨_,rest_sorted⟩ := List.pairwise_cons.mp sorted
    by_cases less : key < k
    · simp only [insertRow,if_pos less,lookup,eq_comm]
    · by_cases same : key = k
      · subst same
        by_cases query : other = key
        · simp [insertRow,lookup,query]
        · simp [insertRow,lookup,query,Ne.symm query]
      · by_cases query : other = key
        · subst query
          simp [insertRow,less,same,lookup,Ne.symm same,ih rest_sorted]
        · simp [insertRow,less,same,lookup,ih rest_sorted,query]

@[simp] theorem get?_insert (t : Table κ ρ) (key other : κ) (row : ρ) :
    (t.insert key row).get? other = if other = key then some row else t.get? other :=
  lookup_insertRow key other row t.rows t.sorted

private theorem countP_insertRow (p : κ × ρ → Bool) (key : κ) (row : ρ) (rows : List (κ × ρ))
    (sorted : rows.Pairwise fun a b => a.1 < b.1) :
    (insertRow key row rows).countP p + (if (lookup rows key).any fun r => p (key,r) then 1 else 0) =
      rows.countP p + if p (key,row) then 1 else 0 := by
  induction rows with
  | nil => simp [insertRow,lookup,List.countP_cons]
  | cons head rest ih =>
    obtain ⟨k,r⟩ := head
    obtain ⟨first,rest_sorted⟩ := List.pairwise_cons.mp sorted
    by_cases less : key < k
    · have absent : lookup ((k,r) :: rest) key = none := by
        by_contra found
        obtain ⟨other,found⟩ := Option.ne_none_iff_exists'.mp found
        rcases List.mem_cons.mp (mem_of_lookup found) with same | inside
        · cases same; exact lt_irrefl _ less
        · exact lt_irrefl _ (less.trans (first _ inside))
      rw [absent]
      simp [insertRow,less,List.countP_cons]
    · by_cases same : key = k
      · subst same
        simp [insertRow,lookup,List.countP_cons]
        omega
      · have inner := ih rest_sorted
        simp only [insertRow,if_neg less,if_neg same,lookup,if_neg (Ne.symm same),List.countP_cons]
        omega

/-- Inserting a row replaces the old one in every count. -/
theorem countP_insert (t : Table κ ρ) (p : κ × ρ → Bool) (key : κ) (row : ρ) :
    (t.insert key row).rows.countP p + (if (t.get? key).any fun r => p (key,r) then 1 else 0) =
      t.rows.countP p + if p (key,row) then 1 else 0 :=
  countP_insertRow p key row t.rows t.sorted

/-- Some row satisfies the predicate. -/
def any (t : Table κ ρ) (p : κ → ρ → Bool) : Bool := t.rows.any fun x => p x.1 x.2

@[simp] theorem any_eq_true {t : Table κ ρ} {p : κ → ρ → Bool} :
    t.any p = true ↔ ∃ key row, t.get? key = some row ∧ p key row = true := by
  simp only [any,List.any_eq_true,Prod.exists,mem_rows]

/-- The first row in key order that satisfies the predicate. -/
def find? (t : Table κ ρ) (p : κ → ρ → Bool) : Option (κ × ρ) := t.rows.find? fun x => p x.1 x.2

theorem find?_some {t : Table κ ρ} {p : κ → ρ → Bool} {key : κ} {row : ρ}
    (found : t.find? p = some (key,row)) : t.get? key = some row ∧ p key row = true :=
  ⟨mem_rows.mp (List.mem_of_find?_eq_some found),List.find?_some (p := fun x : κ × ρ => p x.1 x.2) found⟩

theorem find?_none {t : Table κ ρ} {p : κ → ρ → Bool} :
    t.find? p = none ↔ ∀ key row, t.get? key = some row → p key row = false := by
  simp only [find?,List.find?_eq_none,Prod.forall,mem_rows,Bool.not_eq_true]

theorem has_iff {t : Table κ ρ} {key : κ} : t.has key = true ↔ ∃ row, t.get? key = some row :=
  Option.isSome_iff_exists

/-- `INSERT OR IGNORE`. -/
def insertOrIgnore (t : Table κ ρ) (key : κ) (row : ρ) : Table κ ρ :=
  if t.has key then t else t.insert key row

@[simp] theorem get?_insertOrIgnore (t : Table κ ρ) (key other : κ) (row : ρ) :
    (t.insertOrIgnore key row).get? other =
      if other = key then some ((t.get? key).getD row) else t.get? other := by
  rw [insertOrIgnore,has]
  cases found : t.get? key with
  | none => simp
  | some r =>
    simp only [Option.isSome_some,if_true,Option.getD_some]
    split
    next same => rw [same,found]
    next => rfl

@[simp] theorem has_insert (t : Table κ ρ) (key other : κ) (row : ρ) :
    (t.insert key row).has other = (decide (other = key) || t.has other) := by
  simp only [has,get?_insert]
  split <;> simp [*]

@[simp] theorem has_insertOrIgnore (t : Table κ ρ) (key other : κ) (row : ρ) :
    (t.insertOrIgnore key row).has other = (decide (other = key) || t.has other) := by
  simp only [has,get?_insertOrIgnore]
  split <;> simp [*]

@[simp] theorem has_erase (t : Table κ ρ) (key other : κ) :
    (t.erase key).has other = (decide (other ≠ key) && t.has other) := by
  simp only [has,get?_erase]
  split <;> simp [*]

def insertAll (t : Table κ ρ) (rows : List (κ × ρ)) : Table κ ρ := rows.foldl (fun t x => t.insert x.1 x.2) t

theorem lookup_none {rows : List (κ × ρ)} {key : κ} : lookup rows key = none ↔ key ∉ rows.map Prod.fst := by
  induction rows with
  | nil => simp [lookup]
  | cons x rows ih =>
    rw [lookup,List.map_cons,List.mem_cons]
    by_cases same : x.1 = key
    · simp [same]
    · rw [if_neg same,ih]
      simp [Ne.symm same]

theorem get?_insertAll {t : Table κ ρ} {rows : List (κ × ρ)} (distinct : (rows.map Prod.fst).Nodup) (key : κ) :
    (t.insertAll rows).get? key = (lookup rows key).or (t.get? key) := by
  induction rows generalizing t with
  | nil => rfl
  | cons x rows ih =>
    obtain ⟨apart,rest⟩ := List.nodup_cons.mp distinct
    rw [insertAll,List.foldl_cons]
    refine (ih rest).trans ?_
    rw [get?_insert,lookup]
    by_cases same : key = x.1
    · subst same
      rw [if_pos rfl,if_pos rfl,lookup_none.mpr apart]
      rfl
    · rw [if_neg same,if_neg (Ne.symm same)]

theorem has_insertAll {t : Table κ ρ} {rows : List (κ × ρ)} {key : κ} :
    (t.insertAll rows).has key = true ↔ key ∈ rows.map Prod.fst ∨ t.has key = true := by
  induction rows generalizing t with
  | nil => simp [insertAll]
  | cons x rows ih =>
    rw [insertAll,List.foldl_cons]
    refine (ih (t := t.insert x.1 x.2)).trans ?_
    rw [has_insert,List.map_cons,List.mem_cons]
    simp only [Bool.or_eq_true,decide_eq_true_eq]
    tauto

theorem keys_nodup (t : Table κ ρ) : t.keys.Nodup := by
  refine (List.pairwise_map.mpr (t.sorted.imp fun less => ?_))
  exact ne_of_lt less

end Table
end Entorhinal
