import Entorhinal.RegistryForward

/-! The shared difference of a mutation that fits is a change that fits, on every machine
with the same shared tables. -/
namespace Entorhinal.Registry
open Forwarding

/-- Two machines with the same projects and the same shared aliases. -/
structure SameShared (s t : Tables) : Prop where
  projects : t.projects = s.projects
  aliases : ∀ old, machineLocal old = false → t.aliases.get? old = s.aliases.get? old

/-- A removed project is gone, and one that ended is no alias. -/
def Removes (fate : String → Fate String) (s s' : Tables) : Prop :=
  ∀ id, s.live id = true → match fate id with
    | .stays => s'.live id = true
    | .moved _ => s'.live id = false
    | .ended => s'.live id = false ∧ s'.aliases.get? id = none

theorem Grown.removes {s s' : Tables} (grown : Grown s s') : Removes (fun _ => .stays) s s' :=
  fun id live => grown.2.alive id live

section Changes

variable {κ ρ : Type} [LinearOrder κ]

theorem given_of_mem {rows : List (κ × ρ)} {key : κ} {row : ρ}
    (sorted : rows.Pairwise fun a b => a.1 < b.1) (member : (key,row) ∈ rows) : given rows key = some row := by
  have present : (given rows key).isSome = true := by
    rw [given_isSome,List.any_eq_true]
    exact ⟨(key,row),member,by simp⟩
  obtain ⟨other,found⟩ := Option.isSome_iff_exists.mp present
  have lookup := Table.lookup_of_mem sorted (given_mem found)
  rw [Table.lookup_of_mem sorted member] at lookup
  rw [found,lookup]

variable [DecidableEq ρ] {before after : Table κ ρ} {key : κ} {row : ρ}

theorem mem_upsert : (key,row) ∈ (changesBetween before after).upsert ↔
    after.get? key = some row ∧ before.get? key ≠ some row := by
  simp [changesBetween,Table.mem_rows]

theorem mem_delete : key ∈ (changesBetween before after).delete ↔
    before.has key = true ∧ after.has key = false := by
  simp [changesBetween,Table.mem_keys]

theorem given_upsert (changed : after.get? key = some row) (other : before.get? key ≠ some row) :
    given (changesBetween before after).upsert key = some row :=
  given_of_mem (after.sorted.filter _) (mem_upsert.mpr ⟨changed,other⟩)

theorem given_upsert_none (kept : ∀ row, after.get? key = some row → before.get? key = some row) :
    given (changesBetween before after).upsert key = none := by
  cases found : given (changesBetween before after).upsert key with
  | none => rfl
  | some row =>
    obtain ⟨changed,other⟩ := mem_upsert.mp (given_mem found)
    exact absurd (kept row changed) other

end Changes

theorem sharedAliases_get? (s : Tables) (old : String) : (sharedAliases s).get? old = s.forwarding old := by
  rw [sharedAliases,Table.get?_filter,Tables.forwarding]
  cases s.aliases.get? old <;> cases machineLocal old <;> rfl

section Delta

variable {s s' t : Tables} {fate : String → Fate String}

/-- Deleted projects are the removed ones, each with its successor's alias. -/
theorem projectDelta_fate (sound : Sound s) (forwards : Forwards fate s s') (removes : Removes fate s s')
    {id : String} (live : s.live id = true) : (projectDelta s s').fate id = fate id := by
  have removed := removes id live
  have unaliased : (sharedAliases s).get? id = none := by
    rw [sharedAliases_get?]
    cases found : s.forwarding id with
    | none => rfl
    | some target =>
      have here := (forwarding_eq_some.mp found).2
      rw [sound.unaliased live] at here
      cases here
  have moved := forwards.moved id
  rw [ProjectEntry.fate]
  revert removed moved
  cases fate id with
  | stays =>
    intro alive _
    rw [if_neg]
    intro deleted
    rw [projectDelta,mem_delete] at deleted
    rw [Tables.live,deleted.2] at alive
    cases alive
  | moved heir =>
    intro gone moved
    have deleted : id ∈ (projectDelta s s').projects.delete := mem_delete.mpr ⟨live,gone⟩
    rw [if_pos deleted]
    have written : given (projectDelta s s').aliases.upsert id = some heir := by
      apply given_upsert
      · rw [sharedAliases_get?]; exact moved heir rfl
      · rw [unaliased]; exact fun found => by cases found
    rw [written]
  | ended =>
    rintro ⟨gone,no_alias⟩ _
    have deleted : id ∈ (projectDelta s s').projects.delete := mem_delete.mpr ⟨live,gone⟩
    rw [if_pos deleted]
    have unwritten : given (projectDelta s s').aliases.upsert id = none := by
      apply given_upsert_none
      intro target found
      rw [sharedAliases_get?,forwarding_eq_some,no_alias] at found
      cases found.2
    rw [unwritten]

theorem projectDelta_fits (sound : Sound s) (forwards : Forwards fate s s') (removes : Removes fate s s')
    (same : SameShared s t) : EntryFits t (projectDelta s s') := by
  have lives : ∀ id, t.live id = s.live id := fun id => by rw [Tables.live,same.projects]; rfl
  refine ⟨?_,?_,?_⟩
  · intro id row written _ _
    have created := (mem_upsert.mp written).1
    have live : s'.live id = true := Table.has_iff.mpr ⟨row,created⟩
    have shared := forwards.sound.named id live
    refine ⟨shared,fun aliased => mem_delete.mpr ⟨?_,?_⟩⟩
    · obtain ⟨target,found⟩ := Table.has_iff.mp aliased
      rw [same.aliases id shared] at found
      exact Table.has_iff.mpr ⟨target,by rw [sharedAliases_get?]; exact forwarding_eq_some.mpr ⟨shared,found⟩⟩
    · have free := forwards.sound.unaliased live
      simp [Table.has,sharedAliases_get?,Tables.forwarding,free]
  · intro old target written
    have found := (mem_upsert.mp written).1
    rw [sharedAliases_get?] at found
    have dead := forwards.sound.dead old target (forwarding_eq_some.mp found).2
    cases live : (projectDelta s s').liveAfter t old with
    | false => rfl
    | true =>
      obtain ⟨kept,before | ⟨_,row,created⟩⟩ := liveAfter_cases live
      · rw [lives] at before
        exact absurd (mem_delete.mpr ⟨before,dead⟩) kept
      · have alive : s'.live old = true := Table.has_iff.mpr ⟨row,(mem_upsert.mp created).1⟩
        rw [dead] at alive
        cases alive
  · intro old target shared found
    rw [same.aliases old shared] at found
    have before : s.forwarding old = some target := forwarding_eq_some.mpr ⟨shared,found⟩
    have live := sound.direct old target found
    have carried := forwards.carries old target before
    have moved := forwards.moved target
    rw [projectDelta_fate sound forwards removes live]
    revert carried moved
    cases fate target with
    | stays =>
      intro after _
      refine .inr ⟨?_,?_⟩
      · apply given_upsert_none
        intro row found
        rw [sharedAliases_get?,after] at found
        rw [sharedAliases_get?,before,found]
      · intro deleted
        have gone := (mem_delete.mp deleted).2
        simp [Table.has,sharedAliases_get?,after] at gone
    | moved heir =>
      intro after moved
      apply given_upsert
      · rw [sharedAliases_get?]; exact after
      · rw [sharedAliases_get?,before]
        intro same_target
        injection same_target with same_target
        -- the successor is another project: the removed one is no alias of itself
        have itself := forwards.sound.dead target heir (forwarding_eq_some.mp (moved heir rfl)).2
        have alive := forwards.sound.direct target heir (forwarding_eq_some.mp (moved heir rfl)).2
        rw [← same_target,itself] at alive
        cases alive
    | ended => exact fun _ _ => trivial

end Delta

end Entorhinal.Registry
