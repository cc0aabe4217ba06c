import Entorhinal.RegistryForward
import Entorhinal.RegistryRoutes

/-! Root keys: a root is mapped to a key only while its project has that key, and a remote
key has one project, through every mutation and every received change. -/
namespace Entorhinal.Registry

/-- Every mapping names a key row of its root's project; a remote key has one project. -/
structure Keyed (s : Tables) : Prop where
  owned : ∀ root row key, s.roots.get? root = some row → row.key = some key →
    s.keys.has (keyRow row.projectId key.kind key.rootKey) = true
  remote : ∀ project other rootKey, s.keys.has (keyRow project "remote" rootKey) = true →
    s.keys.has (keyRow other "remote" rootKey) = true → project = other

theorem keyRow_inj {project other kind kind' name name' : String} :
    keyRow project kind name = keyRow other kind' name' ↔ project = other ∧ kind = kind' ∧ name = name' := by
  simp [keyRow]

section Rows

variable {s t : Tables}

theorem Keyed.empty : Keyed Tables.empty := ⟨fun _ _ _ found => (by cases found),fun _ _ _ has => (by cases has)⟩

/-- Dropping roots, and nothing else of roots and keys, keeps the law. -/
theorem Keyed.drop (keyed : Keyed s) (keys : t.keys = s.keys)
    (roots : ∀ root row, t.roots.get? root = some row → s.roots.get? root = some row) : Keyed t where
  owned root row key found mapped := by
    rw [keys]
    exact keyed.owned root row key (roots root row found) mapped
  remote project other rootKey := by
    rw [keys]
    exact keyed.remote project other rootKey

theorem Keyed.frame (keyed : Keyed s) (roots : t.roots = s.roots) (keys : t.keys = s.keys) : Keyed t :=
  keyed.drop keys fun _ _ found => by rwa [roots] at found

/-- No other project has the key, if it is a remote's. -/
def FreeFor (s : Tables) (project : String) (key : RootKey) : Prop :=
  key.kind = "remote" → ∀ other, s.keys.has (keyRow other "remote" key.rootKey) = true → other = project

theorem FreeFor.congr {project : String} {key : RootKey} (free : FreeFor s project key)
    (keys : t.keys = s.keys) : FreeFor t project key := by
  intro remote other has
  rw [keys] at has
  exact free remote other has

theorem FreeFor.of_has {project : String} {key : RootKey} (keyed : Keyed s)
    (has : s.keys.has (keyRow project key.kind key.rootKey) = true) : FreeFor s project key := by
  intro remote other here
  rw [remote] at has
  exact keyed.remote other project key.rootKey here has

/-- The key `incoming` chooses belongs to no other project. -/
theorem incoming_free {site : Site} {project root : String} {label : Option String} {key : RootKey}
    (ok : incoming site s project root label = .ok (some key)) : FreeFor s project key := by
  intro remote other has
  rw [incoming] at ok
  split at ok
  next => cases ok
  next =>
    split at ok
    next chosen _ =>
      split at ok
      next => cases ok
      next unowned =>
        cases ok
        rw [remote,beq_self_eq_true,if_pos rfl,remoteOwner,Option.map_eq_none_iff] at unowned
        have := Table.find?_none.mp unowned (keyRow other "remote" key.rootKey) () (by
          obtain ⟨row,found⟩ := Table.has_iff.mp has
          exact found)
        have key_is : KeyRow.key (keyRow other "remote" key.rootKey) = ⟨"remote",key.rootKey⟩ := rfl
        have project_is : KeyRow.project (keyRow other "remote" key.rootKey) = other := rfl
        simpa [key_is,project_is] using this
    next => cases ok

section Insert

variable {project : String} {key : RootKey}

theorem insertKey_mono {row : KeyRow} (has : s.keys.has row = true) :
    (insertKey s project key).keys.has row = true := by
  rw [insertKey]
  split
  next => exact has
  next => simp [has]

/-- A free key is the project's once it is inserted. -/
theorem insertKey_owns (free : FreeFor s project key) :
    (insertKey s project key).keys.has (keyRow project key.kind key.rootKey) = true := by
  rw [insertKey]
  split
  next taken =>
    rw [Bool.and_eq_true,beq_iff_eq] at taken
    obtain ⟨owner,found⟩ := Option.isSome_iff_exists.mp taken.2
    have has := (remoteOwner_some found).1
    have same := free taken.1 owner has
    rw [taken.1,← same]
    exact has
  next => simp

/-- The rows after an insertion: the ones there were, and the key's own. -/
theorem insertKey_cases {row : KeyRow} (has : (insertKey s project key).keys.has row = true) :
    s.keys.has row = true ∨ row = keyRow project key.kind key.rootKey := by
  rw [insertKey] at has
  split at has
  next => exact .inl has
  next =>
    rw [Table.has_insertOrIgnore,Bool.or_eq_true,decide_eq_true_eq] at has
    exact has.symm

theorem Keyed.insertKey (keyed : Keyed s) (free : FreeFor s project key) :
    Keyed (insertKey s project key) where
  owned root row mapped found assigned := by
    rw [(insertKey_frame s project key).2.1] at found
    exact insertKey_mono (keyed.owned root row mapped found assigned)
  remote p q rootKey left right := by
    rcases insertKey_cases left with before | here <;> rcases insertKey_cases right with before' | here'
    · exact keyed.remote p q rootKey before before'
    · obtain ⟨rfl,kind,rfl⟩ := keyRow_inj.mp here'
      exact free kind.symm p before
    · obtain ⟨rfl,kind,rfl⟩ := keyRow_inj.mp here
      exact (free kind.symm q before').symm
    · exact (keyRow_inj.mp here).1.trans (keyRow_inj.mp here').1.symm

/-- Insertions for the same project leave its keys free. -/
theorem FreeFor.insertKey {other : RootKey} (free : FreeFor s project other) :
    FreeFor (insertKey s project key) project other := by
  intro remote owner has
  rcases insertKey_cases has with before | here
  · exact free remote owner before
  · exact (keyRow_inj.mp here).1

end Insert

section Roots

variable {project : String} {entry : String × Option RootKey} {blake3 : Digest}

theorem insertKey_congr (keys : t.keys = s.keys) (project : String) (key : RootKey) :
    (insertKey t project key).keys = (insertKey s project key).keys := by
  have owner : remoteOwner t key.rootKey (fun _ => true) = remoteOwner s key.rootKey (fun _ => true) := by
    rw [remoteOwner,remoteOwner,keys]
  rw [insertKey,insertKey,owner]
  by_cases taken : (key.kind == "remote" && (remoteOwner s key.rootKey (fun _ => true)).isSome) = true
  · rw [if_pos taken,if_pos taken,keys]
  · rw [if_neg taken,if_neg taken]
    simp only [keys]

theorem insertRoot_keys (blake3 : Digest) (s : Tables) (project : String) (entry : String × Option RootKey) :
    (insertRoot blake3 project s entry).keys = match entry.2 with
      | none => s.keys
      | some key => (insertKey s project key).keys := by
  obtain ⟨path,key⟩ := entry
  cases key with
  | none => rfl
  | some key =>
    exact insertKey_congr (s := s) (t := {s with roots := s.roots.insertOrIgnore path ⟨project,none⟩})
      rfl project key

theorem FreeFor.insertRoot {other : RootKey} (free : FreeFor s project other) :
    FreeFor (insertRoot blake3 project s entry) project other := by
  cases chosen : entry.2 with
  | none => exact free.congr (by rw [insertRoot_keys,chosen])
  | some key =>
    refine FreeFor.congr (@FreeFor.insertKey _ _ key _ free) ?_
    rw [insertRoot_keys,chosen]

theorem Keyed.insertRoot (keyed : Keyed s) (free : ∀ key, entry.2 = some key → FreeFor s project key) :
    Keyed (insertRoot blake3 project s entry) := by
  obtain ⟨path,chosen⟩ := entry
  have added : Keyed {s with roots := s.roots.insertOrIgnore path ⟨project,none⟩} := by
    refine ⟨?_,keyed.remote⟩
    intro root row key found mapped
    rw [Table.get?_insertOrIgnore] at found
    split at found
    next =>
      cases before : s.roots.get? path with
      | none => rw [before] at found; cases found; cases mapped
      | some old => rw [before] at found; cases found; exact keyed.owned path _ key before mapped
    next => exact keyed.owned root row key found mapped
  cases chosen with
  | none => exact added.frame rfl rfl
  | some key =>
    have own : FreeFor {s with roots := s.roots.insertOrIgnore path ⟨project,none⟩} project key :=
      (free key rfl).congr rfl
    have with_key := added.insertKey own
    refine ⟨?_,with_key.remote⟩
    intro root row mapped found assigned
    have here : (assign {s with roots := s.roots.insertOrIgnore path ⟨project,none⟩} project path
        (some key)).roots.get? root = some row := found
    simp only [assign,Table.get?_update,Option.map_eq_some_iff] at here
    obtain ⟨before,at_root,rfl⟩ := here
    split at assigned
    next same =>
      cases assigned
      rw [if_pos same]
      simp only [same.2]
      exact insertKey_owns own
    next other =>
      rw [if_neg other]
      exact insertKey_mono (added.owned root before mapped at_root assigned)

theorem Keyed.insertRoots (entries : List (String × Option RootKey)) {s : Tables} (keyed : Keyed s)
    (free : ∀ entry ∈ entries, ∀ key, entry.2 = some key → FreeFor s project key) :
    Keyed (entries.foldl (Registry.insertRoot blake3 project) s) := by
  induction entries generalizing s with
  | nil => exact keyed
  | cons entry rest ih =>
    refine ih (keyed.insertRoot (free entry List.mem_cons_self)) ?_
    intro later member key chosen
    exact (free later (List.mem_cons_of_mem _ member) key chosen).insertRoot

end Roots

theorem clearUnownedMappings_roots {root : String} {row : Root}
    (found : (clearUnownedMappings s).roots.get? root = some row) :
    ∃ before, s.roots.get? root = some before ∧ before.projectId = row.projectId ∧
      ∀ key, row.key = some key → before.key = some key ∧
        s.keys.has (keyRow row.projectId key.kind key.rootKey) = true := by
  rw [clearUnownedMappings] at found
  simp only [Table.get?_update,Option.map_eq_some_iff] at found
  obtain ⟨before,here,rfl⟩ := found
  refine ⟨before,here,?_⟩
  cases mapped : before.key with
  | none => simp [mapped]
  | some key =>
    by_cases kept : s.keys.has (keyRow before.projectId key.kind key.rootKey) = true
    · simp only [kept,if_true]
      refine ⟨trivial,?_⟩
      intro other assigned
      rw [mapped] at assigned
      cases assigned
      exact ⟨rfl,kept⟩
    · simp [kept]

/-- Clearing the unowned mappings restores the law. -/
theorem Keyed.clear (remote : ∀ project other rootKey, s.keys.has (keyRow project "remote" rootKey) = true →
    s.keys.has (keyRow other "remote" rootKey) = true → project = other) : Keyed (clearUnownedMappings s) where
  owned root row key found mapped := by
    obtain ⟨_,_,_,kept⟩ := clearUnownedMappings_roots found
    exact (kept key mapped).2
  remote := remote

theorem Keyed.release (keyed : Keyed s) (project : String) (key : RootKey) : Keyed (release s project key) := by
  refine Keyed.clear ?_
  intro p q rootKey left right
  simp only [Table.has_erase,Bool.and_eq_true] at left right
  exact keyed.remote p q rootKey left.2 right.2

/-- A released key is free. -/
theorem release_free (keyed : Keyed s) {project other : String} {key : RootKey}
    (has : s.keys.has (keyRow project key.kind key.rootKey) = true) : FreeFor (release s project key) other key := by
  intro remote owner here
  simp only [Registry.release,clearUnownedMappings,Table.has_erase,Bool.and_eq_true,decide_eq_true_eq] at here
  rw [remote] at has here
  exact absurd (congrArg (fun p => keyRow p "remote" key.rootKey)
    (keyed.remote owner project key.rootKey here.2 has)) here.1

theorem Keyed.applyRemoveRoot (keyed : Keyed s) (blake3 : Digest) (project root : String) :
    Keyed (applyRemoveRoot blake3 s project root) := by
  refine keyed.drop rfl ?_
  intro path row found
  simp only [Registry.applyRemoveRoot,Table.get?_erase] at found
  split at found
  next => cases found
  next => exact found

end Rows
/-! ### Mutations -/

section Mutations

variable {site : Site} {s : Tables} {action : Action}

theorem keyed_placeIn (keyed : Keyed s) (project : String) (workspace : Option String) :
    Keyed (placeIn s project workspace) := by
  cases workspace with
  | none => exact keyed
  | some workspace => exact keyed.frame rfl rfl

theorem keyed_registerWrites (keyed : Keyed s) {req : RegisterRequest} {project : String}
    {chosen : List (String × Option RootKey)}
    (free : ∀ entry ∈ chosen, ∀ key, entry.2 = some key → FreeFor s project key) :
    Keyed (registerWrites site.blake3 s req project chosen) := by
  have named : ∀ row, Keyed {s with projects := s.projects.insert project row} := fun _ => keyed.frame rfl rfl
  have rooted := fun row => (@Keyed.insertRoots _ site.blake3 chosen _ (named row))
    fun entry member key given => (free entry member key given).congr rfl
  rw [registerWrites]
  refine keyed_placeIn ?_ project req.workspaceId
  exact Keyed.frame (rooted _) rfl rfl

theorem keyed_registerIn (keyed : Keyed s) {req : RegisterRequest} {rootKeys : String → Option (Option RootKey)}
    (given : ∀ root key project, rootKeys root = some (some key) → FreeFor s project key)
    (ok : registerIn site s req rootKeys = .ok action) : Keyed action.store := by
  obtain ⟨project,chosen,routes,unchanged | written⟩ := registerIn_routes ok
  · rw [unchanged]; exact keyed
  · rw [written]
    refine keyed_registerWrites keyed ?_
    intro entry member key named
    rcases (routes.checked entry member).keyed with kept | made
    · exact given entry.1 key project (by rw [kept,named])
    · exact incoming_free (by rw [made,named])

theorem keyed_upgradeImplicit (keyed : Keyed s) {req : UpgradeImplicitRequest}
    (ok : upgradeImplicit site s req = .ok action) : Keyed action.store := by
  rcases upgradeImplicit_routes ok with unchanged | ⟨chosen,checked,written⟩
  · rw [unchanged]; exact keyed
  · rw [written]
    have named : ∀ row, Keyed {s with projects := s.projects.insert (upgradeId site.blake3 req) row} :=
      fun _ => keyed.frame rfl rfl
    have rooted := fun row => (@Keyed.insertRoots (upgradeId site.blake3 req) site.blake3
      chosen _ (named row)) fun entry member key given => by
        have free := @incoming_free _ _ _ _ _ key (by rw [(checked entry member).2,given])
        exact free.congr rfl
    rw [upgradeWrites]
    refine keyed_placeIn ?_ _ req.workspaceId
    exact Keyed.frame (rooted _) rfl rfl

theorem keyed_seedImport (keyed : Keyed s) {req : SeedImportRequest} (ok : seedImport site s req = .ok action) :
    Keyed action.store := by
  refine seedImport_routes Keyed (fun t t' roots _ keys before => before.frame roots keys) ?_ keyed ok
  intro t group pair key _ _ _ _ chosen before
  refine before.insertRoot ?_
  rintro named rfl
  exact incoming_free chosen

theorem keyed_addRoot (keyed : Keyed s) {req : AddRootRequest} (ok : addRoot site s req = .ok action) :
    Keyed action.store := by
  rcases addRoot_routes ok with unchanged | ⟨key,_,_,chosen,written⟩
  · rw [unchanged]; exact keyed
  · rw [written]
    refine keyed.insertRoot ?_
    rintro named rfl
    exact incoming_free chosen

theorem keyed_attachRoot (keyed : Keyed s) {req : AttachRootRequest} (ok : attachRoot site s req = .ok action) :
    Keyed action.store := by
  rcases attachRoot_routes ok with unchanged | ⟨project,key,_,_,has,written⟩
  · rw [unchanged]; exact keyed
  · rw [written]
    refine keyed.insertRoot ?_
    rintro named ⟨rfl⟩
    exact .of_has keyed has

/-- The detached root's key is released, so the new project may have it. -/
theorem keyed_moveRootToNewProject (keyed : Keyed s) {req : MoveRootToNewProjectRequest}
    (ok : moveRootToNewProject site s req = .ok action) : Keyed action.store := by
  obtain ⟨row,registered,found,owner,_,is_registered,written⟩ := moveRootToNewProject_routes ok
  have removed := keyed.applyRemoveRoot site.blake3 req.fromProjectId req.root
  rw [written]
  cases shown : mappedKey site s req.root with
  | none =>
    rw [shown] at is_registered
    exact keyed_registerIn removed (fun root key _ given => by split at given <;> cases given) is_registered
  | some key =>
    rw [shown] at is_registered
    have mapped : row.key = some key := by
      rw [mappedKey,found] at shown
      split at shown
      next => exact shown
      next => cases shown
    have has : (applyRemoveRoot site.blake3 s req.fromProjectId req.root).keys.has
        (keyRow req.fromProjectId key.kind key.rootKey) = true := by
      rw [← owner]
      exact keyed.owned _ row key found mapped
    refine keyed_registerIn (removed.release req.fromProjectId key) ?_ is_registered
    intro root other project given
    split at given
    next => cases given; exact release_free removed has
    next => cases given

theorem moveRootKeys_iff {keys : Table KeyRow Unit} {id heir : String} {row : KeyRow} :
    (moveRootKeys keys id (some heir)).has row = true ↔ KeyRow.project row ≠ id ∧
      (keys.has row = true ∨ (KeyRow.project row = heir ∧
        keys.has (keyRow id (KeyRow.key row).kind (KeyRow.key row).rootKey) = true)) := by
  have fold : ∀ (rows : List (KeyRow × Unit)) (t : Table KeyRow Unit),
      (rows.foldl (fun keys moved => if KeyRow.project moved.1 = id then
        keys.insert (keyRow heir (KeyRow.key moved.1).kind (KeyRow.key moved.1).rootKey) () else keys) t).has row = true ↔
      t.has row = true ∨ (KeyRow.project row = heir ∧
        (keyRow id (KeyRow.key row).kind (KeyRow.key row).rootKey) ∈ rows.map Prod.fst) := by
    intro rows
    induction rows with
    | nil => simp
    | cons first rest ih =>
      intro t
      obtain ⟨moved,u⟩ := first
      rw [List.foldl_cons,ih]
      by_cases own : KeyRow.project moved = id
      · have same : row = keyRow heir (KeyRow.key moved).kind (KeyRow.key moved).rootKey ↔
            KeyRow.project row = heir ∧ keyRow id (KeyRow.key row).kind (KeyRow.key row).rootKey = moved := by
          constructor
          · rintro rfl
            exact ⟨rfl,by rw [← own]; rfl⟩
          · rintro ⟨rfl,rfl⟩
            rfl
        simp only [own,if_true,Table.has_insert,Bool.or_eq_true,decide_eq_true_eq,List.map_cons,
          List.mem_cons,same]
        tauto
      · have other : keyRow id (KeyRow.key row).kind (KeyRow.key row).rootKey ≠ moved := by
          rintro rfl
          exact own rfl
        simp only [own,if_false,List.map_cons,List.mem_cons,other,false_or]
  have filtered : ∀ t : Table KeyRow Unit, (t.filter fun row _ => KeyRow.project row ≠ id).has row = true ↔
      KeyRow.project row ≠ id ∧ t.has row = true := by
    intro t
    rw [Table.has,Table.get?_filter,Table.has]
    cases found : t.get? row <;> simp [Option.filter]
  rw [moveRootKeys]
  refine (filtered _).trans (and_congr_right fun _ => (fold keys.rows keys).trans ?_)
  exact or_congr_right (and_congr_right fun _ => Table.mem_keys)

theorem keyed_removeProject (keyed : Keyed s) {id : String} {successor : Option String}
    (other : ∀ heir, successor = some heir → heir ≠ id) : Keyed (removeProject s id successor) := by
  cases successor with
  | none =>
    have kept : ∀ row, (moveRootKeys s.keys id none).has row = true ↔
        KeyRow.project row ≠ id ∧ s.keys.has row = true := by
      intro row
      rw [moveRootKeys,Table.has,Table.get?_filter,Table.has]
      cases found : s.keys.get? row <;> simp [Option.filter]
    refine ⟨?_,?_⟩
    · intro root row key found mapped
      have here : (s.roots.filter fun _ row => row.projectId ≠ id).get? root = some row := found
      rw [Table.get?_filter,Option.filter_eq_some_iff] at here
      refine (kept _).mpr ⟨?_,keyed.owned root row key here.1 mapped⟩
      simpa [keyRow,KeyRow.project] using here.2
    · intro p q rootKey left right
      exact keyed.remote p q rootKey ((kept _).mp left).2 ((kept _).mp right).2
  | some heir =>
    have apart := other heir rfl
    have key_of : ∀ p kind name, KeyRow.key (keyRow p kind name) = ⟨kind,name⟩ := fun _ _ _ => rfl
    have project_of : ∀ p kind name, KeyRow.project (keyRow p kind name) = p := fun _ _ _ => rfl
    refine ⟨?_,?_⟩
    · intro root row key found mapped
      have here : (s.roots.update fun _ row => if row.projectId = id then {row with projectId := heir} else row).get?
          root = some row := found
      simp only [Table.get?_update,Option.map_eq_some_iff] at here
      obtain ⟨before,at_root,rfl⟩ := here
      refine moveRootKeys_iff.mpr ?_
      rw [project_of,key_of]
      by_cases own : before.projectId = id
      · simp only [own,if_true] at mapped ⊢
        refine ⟨apart,.inr ⟨trivial,?_⟩⟩
        rw [← own]
        exact keyed.owned root before key at_root mapped
      · simp only [own,if_false] at mapped ⊢
        exact ⟨own,.inl (keyed.owned root before key at_root mapped)⟩
    · intro p q rootKey left right
      obtain ⟨not_left,left⟩ := moveRootKeys_iff.mp left
      obtain ⟨not_right,right⟩ := moveRootKeys_iff.mp right
      simp only [project_of,key_of] at not_left left not_right right
      rcases left with here | ⟨rfl,here⟩ <;> rcases right with there | ⟨rfl,there⟩
      · exact keyed.remote p q rootKey here there
      · exact absurd (keyed.remote p id rootKey here there) not_left
      · exact absurd (keyed.remote id q rootKey here there).symm not_right
      · rfl

theorem keyed_remove (keyed : Keyed s) {req : RemoveRequest} (ok : remove site s req = .ok action) :
    Keyed action.store := by
  rcases remove_ok ok with ⟨workspace,_,written⟩ | ⟨id,_,_,_,heirs,written⟩
  · rw [written]; exact keyed.frame rfl rfl
  · rw [written]; exact keyed_removeProject keyed fun heir given => (heirs heir given).1

theorem keyed_attachDerivedParent (keyed : Keyed s) {req : AttachDerivedParentRequest}
    (ok : attachDerivedParent site s req = .ok action) : Keyed action.store := by
  rcases attachDerivedParent_routes ok with unchanged | ⟨_,_,attached,_,written⟩
  · rw [unchanged]; exact keyed
  · rw [written]; exact keyed.frame rfl rfl

end Mutations

end Entorhinal.Registry
