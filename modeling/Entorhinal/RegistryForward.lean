import Entorhinal.Forwarding
import Entorhinal.RegistryEffects
import Entorhinal.RegistryEntry

/-! Removals and received changes: what becomes of a project, and that the aliases that
lead to it follow. -/
namespace Entorhinal.Registry
open Forwarding

/-- The aliases every machine has, as a forwarding table. -/
def Tables.forwarding (s : Tables) (old : String) : Option String :=
  if machineLocal old then none else s.aliases.get? old

theorem forwarding_eq_some {s : Tables} {old target : String} :
    s.forwarding old = some target ↔ machineLocal old = false ∧ s.aliases.get? old = some target := by
  rw [Tables.forwarding]
  split
  next isLocal => simp [isLocal]
  next shared => simp [shared]

theorem Extends.carries {s s' : Tables} (grown : Extends s s') :
    Carries (fun _ => .stays) s.forwarding s'.forwarding := by
  intro old target found
  obtain ⟨shared,here⟩ := forwarding_eq_some.mp found
  exact forwarding_eq_some.mpr ⟨shared,grown.kept old target shared here⟩

/-- A step keeps the tables sound and the aliases up with the projects they lead to. -/
structure Forwards (fate : String → Fate String) (s s' : Tables) : Prop where
  sound : Sound s'
  carries : Carries fate s.forwarding s'.forwarding
  moved : ∀ id heir, fate id = .moved heir → s'.forwarding id = some heir

theorem Grown.forwards {s s' : Tables} (grown : Grown s s') : Forwards (fun _ => .stays) s s' where
  sound := grown.1
  carries := grown.2.carries
  moved _ _ moved := nomatch moved

/-! ### remove -/

section Remove

variable {site : Site} {s : Tables}

def removalFate (req : RemoveRequest) (id : String) : Fate String :=
  if req.workspaceId = none ∧ req.projectId = some id then
    match req.successorProjectId with
    | some heir => .moved heir
    | none => .ended
  else .stays

theorem removable_ok {id : String} {successor : Option String} (ok : removable s id successor = .ok ()) :
    s.live id = true ∧ ∀ heir, successor = some heir → heir ≠ id ∧ s.live heir = true := by
  rw [removable.eq_def] at ok
  split at ok
  next => cases ok
  next live =>
    refine ⟨by simpa using live,?_⟩
    rintro heir rfl
    dsimp only at ok
    split at ok
    next => cases ok
    next fit => simpa [not_or] using fit

theorem remove_ok {req : RemoveRequest} {action : Action} (ok : remove site s req = .ok action) :
    (∃ workspace, req.workspaceId = some workspace ∧ action.store = removeWorkspace s workspace) ∨
      ∃ id, req.workspaceId = none ∧ req.projectId = some id ∧ s.live id = true ∧
        (∀ heir, req.successorProjectId = some heir → heir ≠ id ∧ s.live heir = true) ∧
        action.store = removeProject s id req.successorProjectId := by
  rw [remove] at ok
  split at ok
  next workspace named =>
    split at ok
    next =>
      obtain ⟨_,_,ok⟩ := bind_ok ok
      cases ok
      exact .inl ⟨workspace,named,rfl⟩
    next => cases ok
  next unnamed =>
    split at ok
    next => cases ok
    next id given =>
      obtain ⟨_,fit,ok⟩ := bind_ok ok
      obtain ⟨_,_,ok⟩ := bind_ok ok
      cases ok
      obtain ⟨live,heirs⟩ := removable_ok fit
      exact .inr ⟨id,unnamed,given,live,heirs,rfl⟩

theorem moveRootKeys_has {keys : Table KeyRow Unit} {id : String} {successor : Option String} {row : KeyRow}
    (has : (moveRootKeys keys id successor).has row = true) :
    row.project ≠ id ∧ (keys.has row = true ∨ successor = some row.project) := by
  have filtered : ∀ {t : Table KeyRow Unit}, (t.filter fun row _ => row.project ≠ id).has row = true →
      row.project ≠ id ∧ t.has row = true := by
    intro t has
    obtain ⟨_,found⟩ := Table.has_iff.mp has
    rw [Table.get?_filter] at found
    obtain ⟨here,other⟩ := Option.filter_eq_some_iff.mp found
    exact ⟨by simpa using other,Table.has_iff.mpr ⟨_,here⟩⟩
  cases successor with
  | none =>
    obtain ⟨other,here⟩ := filtered has
    exact ⟨other,.inl here⟩
  | some heir =>
    obtain ⟨other,moved⟩ := filtered has
    have fold : ∀ (rows : List (KeyRow × Unit)) (t : Table KeyRow Unit),
        (rows.foldl (fun keys moved => if moved.1.project = id then
          keys.insert (keyRow heir moved.1.key.kind moved.1.key.rootKey) () else keys) t).has row =
            true → row.project = heir ∨ t.has row = true := by
      intro rows
      induction rows with
      | nil => exact fun t has => .inr has
      | cons first rest ih =>
        intro t has
        rcases ih _ has with same | before
        · exact .inl same
        · dsimp only at before
          split at before
          next =>
            rw [Table.has_insert,Bool.or_eq_true,decide_eq_true_eq] at before
            exact before.imp_left fun same => by rw [same]; rfl
          next => exact .inr before
    rcases fold _ _ moved with same | before
    · exact ⟨other,.inr (by rw [same])⟩
    · exact ⟨other,.inl before⟩

theorem removeProject_live (id other : String) (successor : Option String) :
    (removeProject s id successor).live other = (decide (other ≠ id) && s.live other) := by
  cases successor <;> exact Table.has_erase _ _ _

theorem removeProject_alias {id heir old : String} :
    (removeProject s id (some heir)).aliases.get? old =
      if old = id then some heir else (s.aliases.get? old).map fun target => if target = id then heir else target := by
  simp only [removeProject,Table.get?_insert,Table.get?_erase,Table.get?_update]
  split <;> rfl

/-- What belonged to the removed project belongs to its successor. -/
theorem Sound.removeInto (sound : Sound s) {id heir : String} (other : heir ≠ id) (live : s.live heir = true) :
    Sound (removeProject s id (some heir)) := by
  have heir_lives : (removeProject s id (some heir)).live heir = true := by
    rw [removeProject_live,live,decide_eq_true other]; rfl
  have lives : ∀ {p}, s.live p = true → p ≠ id → (removeProject s id (some heir)).live p = true := by
    intro p here apart
    rw [removeProject_live,here,decide_eq_true apart]; rfl
  refine ⟨?_,?_,?_,?_,?_,?_⟩
  · intro old target found
    rw [removeProject_live]
    rw [removeProject_alias] at found
    split at found
    next same => simp [same]
    next =>
      obtain ⟨before,here,_⟩ := Option.map_eq_some_iff.mp found
      rw [sound.dead old before here,Bool.and_false]
  · intro old target found
    rw [removeProject_alias] at found
    split at found
    next => cases found; exact heir_lives
    next =>
      obtain ⟨before,here,rfl⟩ := Option.map_eq_some_iff.mp found
      split
      next => exact heir_lives
      next apart => exact lives (sound.direct old before here) apart
  · intro root row found
    simp only [removeProject,Table.get?_update,Option.map_eq_some_iff] at found
    obtain ⟨before,here,rfl⟩ := found
    split
    next => exact heir_lives
    next apart => exact lives (sound.rooted root before here) apart
  · intro parent row found
    simp only [removeProject,Table.get?_update,Option.map_eq_some_iff] at found
    obtain ⟨before,here,rfl⟩ := found
    split
    next => exact heir_lives
    next apart => exact lives (sound.parented parent before here) apart
  · intro row has
    obtain ⟨apart,here | same⟩ := moveRootKeys_has has
    · exact lives (sound.keyed row here) apart
    · injection same with same
      rw [← same]
      exact heir_lives
  · intro p here
    rw [removeProject_live,Bool.and_eq_true] at here
    exact sound.named p here.2

theorem Sound.removeWithout (sound : Sound s) (id : String) : Sound (removeProject s id none) := by
  have lives : ∀ {p}, s.live p = true → p ≠ id → (removeProject s id none).live p = true := by
    intro p here apart
    rw [removeProject_live,here,decide_eq_true apart]; rfl
  refine ⟨?_,?_,?_,?_,?_,?_⟩
  · intro old target found
    rw [removeProject,Table.get?_filter] at found
    rw [removeProject_live,sound.dead old target (Option.filter_eq_some_iff.mp found).1,Bool.and_false]
  · intro old target found
    rw [removeProject,Table.get?_filter] at found
    obtain ⟨here,apart⟩ := Option.filter_eq_some_iff.mp found
    exact lives (sound.direct old target here) (by simpa using (Bool.and_eq_true_iff.mp apart).1)
  · intro root row found
    rw [removeProject,Table.get?_filter] at found
    obtain ⟨here,apart⟩ := Option.filter_eq_some_iff.mp found
    exact lives (sound.rooted root row here) (by simpa using apart)
  · intro parent row found
    rw [removeProject,Table.get?_filter] at found
    obtain ⟨here,apart⟩ := Option.filter_eq_some_iff.mp found
    exact lives (sound.parented parent row here) (by simpa using apart)
  · intro row has
    obtain ⟨apart,here | none_given⟩ := moveRootKeys_has has
    · exact lives (sound.keyed row here) apart
    · cases none_given
  · intro p here
    rw [removeProject_live,Bool.and_eq_true] at here
    exact sound.named p here.2

/-- A project that is removed is gone, and one removed without a successor is no alias. -/
theorem remove_live {req : RemoveRequest} {action : Action} (sound : Sound s)
    (ok : remove site s req = .ok action) {id : String} (live : s.live id = true) :
    match removalFate req id with
    | .stays => action.store.live id = true
    | .moved _ => action.store.live id = false
    | .ended => action.store.live id = false ∧ action.store.aliases.get? id = none := by
  rcases remove_ok ok with ⟨workspace,named,removed⟩ | ⟨other,unnamed,given,_,_,removed⟩
  · simp only [removalFate,named,reduceCtorEq,false_and,if_false]
    rw [removed]
    exact live
  · simp only [removalFate,unnamed,given,Option.some.injEq,true_and]
    by_cases same : other = id
    · subst same
      rw [if_pos rfl,removed]
      cases req.successorProjectId with
      | some heir => simp [removeProject_live]
      | none =>
        refine ⟨by simp [removeProject_live],?_⟩
        simp [removeProject,sound.unaliased live]
    · rw [if_neg same,removed,removeProject_live,live,decide_eq_true (Ne.symm same)]
      rfl

theorem sound_remove {req : RemoveRequest} {action : Action} (sound : Sound s)
    (ok : remove site s req = .ok action) : Sound action.store := by
  rcases remove_ok ok with ⟨workspace,_,removed⟩ | ⟨id,_,_,_,heirs,removed⟩
  · rw [removed]
    exact ⟨sound.dead,sound.direct,sound.rooted,sound.parented,sound.keyed,sound.named⟩
  · rw [removed]
    cases successor : req.successorProjectId with
    | none => exact sound.removeWithout id
    | some heir =>
      obtain ⟨other,live⟩ := heirs heir successor
      exact sound.removeInto other live

theorem carries_remove {req : RemoveRequest} {action : Action} (sound : Sound s)
    (ok : remove site s req = .ok action) :
    Carries (removalFate req) s.forwarding action.store.forwarding := by
  intro old target found
  obtain ⟨shared,here⟩ := forwarding_eq_some.mp found
  rcases remove_ok ok with ⟨workspace,named,removed⟩ | ⟨id,unnamed,given,live,_,removed⟩
  · simp only [removalFate,named,reduceCtorEq,false_and,if_false]
    rw [removed]
    exact forwarding_eq_some.mpr ⟨shared,here⟩
  · have apart : old ≠ id := fun same => by
      rw [same,sound.unaliased live] at here
      cases here
    simp only [removalFate,unnamed,given,Option.some.injEq,true_and]
    rw [removed]
    cases successor : req.successorProjectId with
    | some heir =>
      by_cases same : id = target
      · simp only [same,if_true]
        refine forwarding_eq_some.mpr ⟨shared,?_⟩
        rw [removeProject_alias,if_neg (by rw [← same]; exact apart),here]
        simp
      · simp only [same,if_false]
        refine forwarding_eq_some.mpr ⟨shared,?_⟩
        rw [removeProject_alias,if_neg apart,here]
        simp [Ne.symm same]
    | none =>
      by_cases same : id = target
      · simp [same]
      · simp only [same,if_false]
        refine forwarding_eq_some.mpr ⟨shared,?_⟩
        simp [removeProject,here,Option.filter,apart,Ne.symm same]

/-- A project removed with a successor is forwarded to it at once. -/
theorem forwards_remove {req : RemoveRequest} {action : Action} (sound : Sound s)
    (ok : remove site s req = .ok action) {id heir : String} (moved : removalFate req id = .moved heir) :
    action.store.forwarding id = some heir := by
  rw [removalFate] at moved
  split at moved
  next removal =>
    rcases remove_ok ok with ⟨workspace,named,_⟩ | ⟨other,_,given,live,_,removed⟩
    · rw [named] at removal
      cases removal.1
    · rw [given] at removal
      obtain ⟨_,same⟩ := removal
      injection same with same
      subst same
      split at moved
      next successor =>
        cases moved
        rw [removed,successor]
        exact forwarding_eq_some.mpr ⟨sound.named _ live,by rw [removeProject_alias,if_pos rfl]⟩
      next => cases moved
  next => cases moved

end Remove

/-! ### Received changes -/

section Entries

variable {s : Tables} {e : ProjectEntry}

/-- Projects are written before the deleted ones go. -/
def ProjectEntry.liveAfter (e : ProjectEntry) (s : Tables) (id : String) : Bool :=
  (e.projects.upsert.any (·.1 = id) || s.live id) && id ∉ e.projects.delete

def ProjectEntry.fate (e : ProjectEntry) (id : String) : Fate String :=
  if id ∈ e.projects.delete then
    match given e.aliases.upsert id with
    | some heir => .moved heir
    | none => .ended
  else .stays

theorem cascade_frame (e : ProjectEntry) (ids : List String) (s : Tables) :
    (ids.foldl (cascadeProject e) s).projects = s.projects ∧
      (∀ old, machineLocal old = false →
        (ids.foldl (cascadeProject e) s).aliases.get? old = s.aliases.get? old) ∧
      ∀ old target, (ids.foldl (cascadeProject e) s).aliases.get? old = some target →
        ∃ before, s.aliases.get? old = some before := by
  induction ids generalizing s with
  | nil => exact ⟨rfl,fun _ _ => rfl,fun _ target found => ⟨target,found⟩⟩
  | cons id rest ih =>
    obtain ⟨projects,shared,domain⟩ := ih (cascadeProject e s id)
    have step : (cascadeProject e s id).projects = s.projects ∧
        (∀ old, machineLocal old = false → (cascadeProject e s id).aliases.get? old = s.aliases.get? old) ∧
        ∀ old target, (cascadeProject e s id).aliases.get? old = some target →
          ∃ before, s.aliases.get? old = some before := by
      rw [cascadeProject]
      split
      next heir _ =>
        refine ⟨rfl,?_,?_⟩
        · intro old not_local
          rw [Table.get?_update]
          cases s.aliases.get? old <;> simp [not_local]
        · intro old target found
          rw [Table.get?_update] at found
          obtain ⟨before,here,_⟩ := Option.map_eq_some_iff.mp found
          exact ⟨before,here⟩
      next =>
        refine ⟨rfl,?_,?_⟩
        · intro old not_local
          rw [Table.get?_filter]
          cases s.aliases.get? old <;> simp [not_local,Option.filter]
        · intro old target found
          rw [Table.get?_filter] at found
          exact ⟨target,(Option.filter_eq_some_iff.mp found).1⟩
    refine ⟨projects.trans step.1,fun old not_local => (shared old not_local).trans (step.2.1 old not_local),?_⟩
    intro old target found
    obtain ⟨middle,here⟩ := domain old target found
    exact step.2.2 old middle here

theorem given_isSome {κ ρ : Type} [LinearOrder κ] {rows : List (κ × ρ)} {key : κ} :
    (given rows key).isSome = rows.any (·.1 = key) := by
  rw [given,Option.isSome_map]
  induction rows with
  | nil => rfl
  | cons x rest ih =>
    rw [List.reverse_cons,List.find?_append,Option.isSome_or,ih,List.any_cons,Bool.or_comm]
    by_cases same : x.1 = key <;> simp [same]

theorem given_mem {κ ρ : Type} [LinearOrder κ] {rows : List (κ × ρ)} {key : κ} {row : ρ}
    (found : given rows key = some row) : (key,row) ∈ rows := by
  obtain ⟨⟨k,r⟩,here,rfl⟩ := Option.map_eq_some_iff.mp found
  have same : k = key := by simpa using List.find?_some here
  rw [← same]
  exact List.mem_reverse.mp (List.mem_of_find?_eq_some here)

theorem restore_projects (e : ProjectEntry) (s : Tables) :
    (e.restore s).projects = deleteRows (upsertTable s.projects e.projects.upsert) e.projects.delete := by
  have frame : (e.projects.delete.foldl (cascadeProject e) {s with
      workspaces := upsertTable s.workspaces e.workspaces.upsert
      projects := upsertTable s.projects e.projects.upsert}).projects =
        upsertTable s.projects e.projects.upsert := (cascade_frame _ _ _).1
  rw [← frame,ProjectEntry.restore]
  split <;> rfl

theorem restore_live (e : ProjectEntry) (s : Tables) (id : String) :
    (e.restore s).live id = e.liveAfter s id := by
  rw [Tables.live,restore_projects,Table.has,get?_deleteRows,get?_upsertTable,ProjectEntry.liveAfter]
  by_cases gone : id ∈ e.projects.delete
  · simp [gone]
  · simp [gone,Option.isSome_or,given_isSome,Tables.live,Table.has]

theorem restore_aliases (e : ProjectEntry) (s : Tables) (old : String) :
    (e.restore s).aliases.get? old = (given e.aliases.upsert old).or
      (if old ∈ e.aliases.delete then none
        else (e.projects.delete.foldl (cascadeProject e) {s with
          workspaces := upsertTable s.workspaces e.workspaces.upsert
          projects := upsertTable s.projects e.projects.upsert}).aliases.get? old) := by
  rw [← get?_deleteRows,← get?_upsertTable,ProjectEntry.restore]
  split <;> rfl

theorem restore_shared {old : String} (e : ProjectEntry) (s : Tables) (shared : machineLocal old = false) :
    (e.restore s).aliases.get? old = (given e.aliases.upsert old).or
      (if old ∈ e.aliases.delete then none else s.aliases.get? old) := by
  rw [restore_aliases,(cascade_frame _ _ _).2.1 old shared]

/-- The entry creates no project under an alias key that stays, writes no alias of a live
project, and moves or keeps every alias as its target's fate says. -/
structure EntryFits (s : Tables) (e : ProjectEntry) : Prop where
  created : ∀ id row, (id,row) ∈ e.projects.upsert → id ∉ e.projects.delete → s.live id = false →
    machineLocal id = false ∧ (s.aliases.has id = true → id ∈ e.aliases.delete)
  forwards : ∀ old target, (old,target) ∈ e.aliases.upsert → e.liveAfter s old = false
  keeps : ∀ old target, machineLocal old = false → s.aliases.get? old = some target →
    match e.fate target with
    | .stays => given e.aliases.upsert old = some target ∨
        (given e.aliases.upsert old = none ∧ old ∉ e.aliases.delete)
    | .moved heir => given e.aliases.upsert old = some heir
    | .ended => True

theorem apply_ok {s' : Tables} (ok : e.apply s = some s') :
    e.valid = true ∧ consistent s' = true ∧ s' = e.restore s := by
  rw [ProjectEntry.apply] at ok
  split at ok
  next both =>
    cases ok
    obtain ⟨valid,fine⟩ := Bool.and_eq_true_iff.mp both
    exact ⟨valid,fine,rfl⟩
  next => cases ok

theorem liveAfter_cases {id : String} (live : e.liveAfter s id = true) :
    id ∉ e.projects.delete ∧ (s.live id = true ∨ s.live id = false ∧ ∃ row, (id,row) ∈ e.projects.upsert) := by
  rw [ProjectEntry.liveAfter,Bool.and_eq_true,Bool.or_eq_true] at live
  obtain ⟨written | before,kept⟩ := live
  · refine ⟨by simpa using kept,?_⟩
    cases lives : s.live id with
    | true => exact .inl rfl
    | false =>
      obtain ⟨⟨key,row⟩,member,same⟩ := List.any_eq_true.mp written
      have named : key = id := by simpa using same
      exact .inr ⟨rfl,row,by rw [← named]; exact member⟩
  · exact ⟨by simpa using kept,.inl before⟩

theorem sound_apply {s' : Tables} (sound : Sound s) (fits : EntryFits s e) (ok : e.apply s = some s') :
    Sound s' := by
  obtain ⟨valid,fine,rfl⟩ := apply_ok ok
  simp only [consistent,Bool.and_eq_true,List.all_eq_true] at fine
  obtain ⟨⟨⟨⟨⟨_,rooted⟩,parented⟩,direct⟩,keyed⟩,_⟩ := fine
  have named : ∀ id, e.liveAfter s id = true → machineLocal id = false := by
    intro id live
    obtain ⟨kept,before | ⟨dead,row,written⟩⟩ := liveAfter_cases live
    · exact sound.named id before
    · exact (fits.created id row written kept dead).1
  refine ⟨?_,?_,?_,?_,?_,?_⟩
  · intro old target found
    cases live : (e.restore s).live old with
    | false => rfl
    | true =>
      rw [restore_live] at live
      rw [restore_shared e s (named old live)] at found
      cases written : given e.aliases.upsert old with
      | some heir =>
        rw [fits.forwards old heir (given_mem written)] at live
        cases live
      | none =>
        rw [written,Option.none_or] at found
        split at found
        next => cases found
        next stays =>
          obtain ⟨kept,before | ⟨dead,row,created⟩⟩ := liveAfter_cases live
          · rw [sound.unaliased before] at found
            cases found
          · exact absurd ((fits.created old row created kept dead).2 (Table.has_iff.mpr ⟨target,found⟩)) stays
  · exact fun old target found => direct (old,target) (Table.mem_rows.mpr found)
  · exact fun root row found => rooted (root,row) (Table.mem_rows.mpr found)
  · exact fun parent row found => parented (parent,row) (Table.mem_rows.mpr found)
  · intro row has
    obtain ⟨found,here⟩ := Table.has_iff.mp has
    exact keyed (row,found) (Table.mem_rows.mpr here)
  · intro id live
    rw [restore_live] at live
    exact named id live

theorem carries_apply {s' : Tables} (fits : EntryFits s e) (ok : e.apply s = some s') :
    Carries e.fate s.forwarding s'.forwarding := by
  obtain ⟨_,_,rfl⟩ := apply_ok ok
  intro old target found
  obtain ⟨shared,here⟩ := forwarding_eq_some.mp found
  have keeps := fits.keeps old target shared here
  have after := restore_shared e s shared
  revert keeps
  cases e.fate target with
  | stays =>
    rintro (written | ⟨unwritten,undeleted⟩)
    · exact forwarding_eq_some.mpr ⟨shared,by rw [after,written,Option.some_or]⟩
    · exact forwarding_eq_some.mpr ⟨shared,by rw [after,unwritten,Option.none_or,if_neg undeleted,here]⟩
  | moved heir =>
    intro written
    exact forwarding_eq_some.mpr ⟨shared,by rw [after,written,Option.some_or]⟩
  | ended => exact fun _ => trivial

theorem forwards_apply {s' : Tables} {id heir : String} (ok : e.apply s = some s')
    (moved : e.fate id = .moved heir) : s'.forwarding id = some heir := by
  obtain ⟨valid,_,rfl⟩ := apply_ok ok
  rw [ProjectEntry.fate] at moved
  split at moved
  next =>
    split at moved
    next written =>
      cases moved
      rw [ProjectEntry.valid,Bool.and_eq_true] at valid
      have shared : machineLocal id = false := by
        simpa using List.all_eq_true.mp valid.1 (id,heir) (given_mem written)
      exact forwarding_eq_some.mpr ⟨shared,by rw [restore_shared e s shared,written,Option.some_or]⟩
    next => cases moved
  next => cases moved

end Entries

end Entorhinal.Registry
