import Entorhinal.RegistryRoots
import Entorhinal.RegistrySeed
import Entorhinal.RegistrySound

/-! The routes by which a root enters the tables: what an accepted mutation had checked
of each root and container it wrote. -/
namespace Entorhinal.Registry

variable {site : Site} {s : Tables} {action : Action}

/-! ### register -/

section Register

variable {req : RegisterRequest} {rootKeys : String → Option (Option RootKey)}

/-- What `register` had checked of one root. -/
structure RootChecked (site : Site) (s : Tables) (project : String) (label : Option String)
    (rootKeys : String → Option (Option RootKey)) (entry : String × Option RootKey) : Prop where
  owned : ∀ row, s.roots.get? entry.1 = some row → row.projectId = project
  keyed : rootKeys entry.1 = some entry.2 ∨ incoming site s project entry.1 label = .ok entry.2

theorem registerRoot_ok {project root : String} {label : Option String} {entry : String × Option RootKey}
    (ok : registerRoot site s project label rootKeys root = .ok entry) :
    entry.1 = root ∧ RootChecked site s project label rootKeys entry := by
  rw [registerRoot] at ok
  dsimp only at ok
  split at ok
  next => cases ok
  next owner_free =>
    have owned : ∀ row, s.roots.get? root = some row → row.projectId = project := by
      intro row found
      by_contra other
      exact owner_free row (by simp [found,Option.filter,other])
    split at ok
    next => cases ok
    next =>
      cases given : rootKeys root with
      | some key =>
        simp only [given] at ok
        obtain ⟨_,kept,ok⟩ := bind_ok ok
        cases kept
        split at ok
        next => cases ok
        next => cases ok; exact ⟨rfl,owned,.inl given⟩
      | none =>
        simp only [given] at ok
        obtain ⟨key,chosen,ok⟩ := bind_ok ok
        split at ok
        next => cases ok
        next => cases ok; exact ⟨rfl,owned,.inr chosen⟩

/-- No container of another project holds the root. -/
theorem rootFree_ok {project root : String} (ok : rootFree s project root = .ok ()) :
    ∀ parent row, s.derived.get? parent = some row → row.projectId ≠ project →
      pathPrefixOrEqual parent root = false := by
  rw [rootFree] at ok
  split at ok
  next => cases ok
  next free =>
    intro parent row found other
    have := Table.find?_none.mp free parent row found
    simpa [other] using this

/-- An accepted registration: the roots it wrote are those of the request, each checked
in the tables it started from, and so are its containers. -/
structure Registered (site : Site) (s : Tables) (req : RegisterRequest)
    (rootKeys : String → Option (Option RootKey)) (project : String)
    (chosen : List (String × Option RootKey)) : Prop where
  id : registerId site s req = .ok project
  listed : ∀ entry ∈ chosen, entry.1 ∈ req.roots
  checked : ∀ entry ∈ chosen, RootChecked site s project req.label rootKeys entry
  parents : ∀ parent ∈ req.derivedRootParents, derivedFree s project parent = .ok ()
  roots : ∀ root ∈ req.roots, rootFree s project root = .ok ()

theorem registerIn_routes (ok : registerIn site s req rootKeys = .ok action) :
    ∃ project chosen, Registered site s req rootKeys project chosen ∧
      (action.store = s ∨ action.store = registerWrites site.blake3 s req project chosen) := by
  obtain ⟨project,id,ok⟩ := bind_ok ok
  obtain ⟨_,_,ok⟩ := bind_ok ok
  obtain ⟨chosen,made,ok⟩ := bind_ok ok
  obtain ⟨_,parents,ok⟩ := bind_ok ok
  obtain ⟨_,roots,ok⟩ := bind_ok ok
  obtain ⟨_,_,ok⟩ := bind_ok ok
  obtain ⟨_,_,ok⟩ := bind_ok ok
  have each := mapM_ok made
  refine ⟨project,chosen,⟨id,?_,?_,forM_ok parents,forM_ok roots⟩,?_⟩
  · intro entry member
    obtain ⟨root,inside,one⟩ := each entry member
    rw [(registerRoot_ok one).1]
    exact inside
  · intro entry member
    obtain ⟨root,_,one⟩ := each entry member
    exact (registerRoot_ok one).2
  · dsimp only at ok
    split at ok
    next =>
      obtain ⟨_,_,ok⟩ := bind_ok ok
      cases ok
      exact .inr rfl
    next => cases ok; exact .inl rfl

theorem register_routes (ok : register site s req = .ok action) :
    ∃ project chosen, Registered site s req.sorted (fun _ => none) project chosen ∧
      (action.store = s ∨ action.store = registerWrites site.blake3 s req.sorted project chosen) := by
  obtain ⟨_,_,ok⟩ := bind_ok ok
  obtain ⟨_,_,ok⟩ := bind_ok ok
  obtain ⟨_,_,ok⟩ := bind_ok ok
  obtain ⟨_,_,ok⟩ := bind_ok ok
  exact registerIn_routes ok

end Register

/-! ### upgrade_implicit -/

/-- An accepted upgrade writes the roots of the request, with the keys they get. -/
theorem upgradeImplicit_routes {req : UpgradeImplicitRequest} (ok : upgradeImplicit site s req = .ok action) :
    action.store = s ∨ ∃ chosen,
      (∀ entry ∈ chosen, entry.1 ∈ req.roots ∧
        incoming site s (upgradeId site.blake3 req) entry.1 none = .ok entry.2) ∧
      action.store = upgradeWrites site.blake3 s req (upgradeId site.blake3 req) chosen := by
  obtain ⟨_,_,ok⟩ := bind_ok ok
  obtain ⟨_,_,ok⟩ := bind_ok ok
  obtain ⟨_,_,ok⟩ := bind_ok ok
  split at ok
  next =>
    obtain ⟨_,_,ok⟩ := bind_ok ok
    obtain ⟨_,_,ok⟩ := bind_ok ok
    obtain ⟨chosen,made,ok⟩ := bind_ok ok
    cases ok
    refine .inr ⟨chosen,?_,rfl⟩
    intro entry member
    obtain ⟨root,inside,one⟩ := mapM_ok made entry member
    cases key : incoming site s (upgradeId site.blake3 req) root none with
    | error e => simp [key,Except.map] at one
    | ok key' =>
      simp only [key,Except.map,Except.ok.injEq] at one
      subst one
      exact ⟨inside,key⟩
  next => cases ok; exact .inl rfl

/-! ### add_root and attach_root -/

/-- An accepted addition writes nothing, or one root that lies apart. -/
theorem addRoot_routes {req : AddRootRequest} (ok : addRoot site s req = .ok action) :
    action.store = s ∨ ∃ key, s.roots.get? req.root = none ∧ checkRootLocation s req.root = .ok () ∧
      incoming site s req.projectId req.root req.label = .ok key ∧
      action.store = insertRoot site.blake3 req.projectId s (req.root,key) := by
  obtain ⟨_,_,ok⟩ := bind_ok ok
  dsimp only at ok
  split at ok
  next =>
    split at ok
    next =>
      split at ok
      next => cases ok; exact .inl rfl
      next => cases ok
    next unregistered =>
      obtain ⟨_,apart,ok⟩ := bind_ok ok
      obtain ⟨key,chosen,ok⟩ := bind_ok ok
      split at ok
      next => cases ok
      next => cases ok; exact .inr ⟨key,unregistered,apart,chosen,rfl⟩
  next => cases ok

/-- The owner of a remote key among projects that satisfy a condition. -/
theorem remoteOwner_some {rootKey owner : String} {other : String → Bool}
    (found : remoteOwner s rootKey other = some owner) :
    s.keys.has (keyRow owner "remote" rootKey) = true ∧ other owner = true := by
  obtain ⟨⟨row,_⟩,at_row,rfl⟩ := Option.map_eq_some_iff.mp found
  obtain ⟨here,shown⟩ := Table.find?_some at_row
  simp only [Bool.and_eq_true,beq_iff_eq] at shown
  obtain ⟨key,kept⟩ := shown
  have spelled : row = keyRow (KeyRow.project row) "remote" rootKey := by
    have kind : (KeyRow.key row).kind = "remote" := by rw [key]
    have name : (KeyRow.key row).rootKey = rootKey := by rw [key]
    rw [← kind,← name]
    rfl
  exact ⟨spelled ▸ Table.has_iff.mpr ⟨_,here⟩,kept⟩

theorem attachOwner_has {req : AttachRootRequest} {key : RootKey} {project : String}
    (ok : attachOwner s req key = .ok project) : s.keys.has (keyRow project key.kind key.rootKey) = true := by
  rw [attachOwner] at ok
  split at ok
  next remote =>
    split at ok
    next => cases ok
    next owner found =>
      split at ok
      next => cases ok
      next =>
        cases ok
        rw [beq_iff_eq.mp remote]
        exact (remoteOwner_some found).1
  next =>
    split at ok
    next => cases ok
    next =>
      split at ok
      next has => cases ok; exact has
      next => cases ok

/-- An accepted attachment writes nothing, or one root that lies apart, under a key its
project has. -/
theorem attachRoot_routes {req : AttachRootRequest} (ok : attachRoot site s req = .ok action) :
    action.store = s ∨ ∃ project key, s.roots.get? req.path = none ∧
      checkRootLocation s req.path = .ok () ∧
      s.keys.has (keyRow project key.kind key.rootKey) = true ∧
      action.store = insertRoot site.blake3 project s (req.path,some key) := by
  obtain ⟨matched,is_matched,ok⟩ := bind_ok ok
  dsimp only at ok
  split at ok
  next => cases ok; exact .inl rfl
  next absent =>
    obtain ⟨_,_,ok⟩ := bind_ok ok
    cases ok
    have unregistered : s.roots.get? req.path = none := by simpa [Table.has] using absent
    rw [attachMatch] at is_matched
    dsimp only at is_matched
    split at is_matched
    next =>
      obtain ⟨_,_,is_matched⟩ := bind_ok is_matched
      split at is_matched
      next => cases is_matched
      next =>
        split at is_matched
        next => cases is_matched
        next key _ =>
          obtain ⟨project,owner,is_matched⟩ := bind_ok is_matched
          rw [unregistered] at is_matched
          obtain ⟨_,apart,is_matched⟩ := bind_ok is_matched
          cases is_matched
          exact .inr ⟨project,key,unregistered,apart,attachOwner_has owner,rfl⟩
    next => cases is_matched

/-! ### remove_root and move_root_to_new_project -/

theorem rootOf_ok {project root : String} {row : Root} (ok : rootOf s project root = .ok row) :
    s.roots.get? root = some row ∧ row.projectId = project := by
  rw [rootOf] at ok
  split at ok
  next found =>
    split at ok
    next owned => cases ok; exact ⟨found,owned⟩
    next => cases ok
  next => cases ok

theorem removeRoot_routes {req : RemoveRootRequest} (ok : removeRoot site s req = .ok action) :
    action.store = applyRemoveRoot site.blake3 s req.projectId req.root := by
  obtain ⟨_,_,ok⟩ := bind_ok ok
  split at ok
  next => cases ok
  next => cases ok; rfl

/-- An accepted move registers the root anew in the tables it was detached from, with the
key it had; the new project's id is taken by none. -/
theorem moveRootToNewProject_routes {req : MoveRootToNewProjectRequest}
    (ok : moveRootToNewProject site s req = .ok action) :
    ∃ row registered, s.roots.get? req.root = some row ∧ row.projectId = req.fromProjectId ∧
      s.live (mint site.blake3 "register1" req.name [req.root]) = false ∧
      registerIn site (detached site.blake3 s req (mappedKey site s req.root)) req.registration
        (fun root => if root = req.root then some (mappedKey site s req.root) else none) = .ok registered ∧
      action.store = registered.store := by
  obtain ⟨row,owned,ok⟩ := bind_ok ok
  split at ok
  next => cases ok
  next =>
    dsimp only at ok
    split at ok
    next => cases ok
    next =>
      split at ok
      next => cases ok
      next unoccupied =>
        obtain ⟨registered,is_registered,ok⟩ := bind_ok ok
        cases ok
        obtain ⟨found,owner⟩ := rootOf_ok owned
        rw [not_or,Bool.not_eq_true] at unoccupied
        exact ⟨row,registered,found,owner,unoccupied.1,is_registered,rfl⟩

/-! ### attach_derived_parent and assign_workspace -/

/-- An accepted container overlaps no root and no container. -/
theorem attachDerivedParent_routes {req : AttachDerivedParentRequest}
    (ok : attachDerivedParent site s req = .ok action) :
    action.store = s ∨
      (s.derived.get? req.container = none ∧
        (∀ root row, s.roots.get? root = some row → pathPrefixOrEqual root req.container = false ∧
          pathPrefixOrEqual req.container root = false) ∧
        ∃ attached : DerivedParent, attached.projectId = req.projectId ∧
          action.store = {s with derived := s.derived.insert req.container attached}) := by
  obtain ⟨_,_,ok⟩ := bind_ok ok
  dsimp only at ok
  split at ok
  next => cases ok
  next =>
    split at ok
    next => cases ok
    next =>
      obtain ⟨_,_,ok⟩ := bind_ok ok
      split at ok
      next =>
        split at ok
        next => cases ok; exact .inl rfl
        next => cases ok
      next unattached =>
        split at ok
        next => cases ok
        next =>
          split at ok
          next => cases ok
          next free =>
            cases ok
            refine .inr ⟨unattached,?_,_,rfl,rfl⟩
            intro root row found
            have apart : ∀ found, s.roots.find? (fun root _ =>
                pathPrefixOrEqual root req.container || pathPrefixOrEqual req.container root) ≠ some found := by
              rintro ⟨other,otherRow⟩ hit
              exact free other otherRow hit
            have := Table.find?_none.mp (Option.eq_none_iff_forall_ne_some.mpr apart) root row found
            simpa using this

theorem assignWorkspace_routes {req : AssignWorkspaceRequest} (ok : assignWorkspace site s req = .ok action) :
    action.store.roots = s.roots ∧ action.store.derived = s.derived ∧ action.store.keys = s.keys := by
  rw [assignWorkspace] at ok
  dsimp only at ok
  split at ok
  next =>
    split at ok
    next => cases ok; exact ⟨rfl,rfl,rfl⟩
    next =>
      obtain ⟨_,_,ok⟩ := bind_ok ok
      obtain ⟨_,_,ok⟩ := bind_ok ok
      cases ok
      exact ⟨rfl,rfl,rfl⟩
  next => cases ok

/-! ### seed_import -/

section Seed

variable {req : SeedImportRequest}

/-- What an import keeps of the tables it started from. -/
structure Kept (s t : Tables) : Prop where
  projects : ∀ id row, s.projects.get? id = some row → t.projects.get? id = some row
  aliases : ∀ old target, s.aliases.get? old = some target → t.aliases.get? old = some target
  roots : ∀ root, t.roots.get? root = none → s.roots.get? root = none
  fresh : ∀ id row, t.projects.get? id = some row → s.projects.get? id = none → s.aliases.get? id = none

theorem Kept.refl (s : Tables) : Kept s s :=
  ⟨fun _ _ found => found,fun _ _ found => found,fun _ absent => absent,
    fun _ row found absent => by rw [found] at absent; cases absent⟩

/-- A group that gets a project gets the one of its identity, and would have had it before
the import began. -/
theorem Kept.target {t : Tables} (kept : Kept s t) {minted identity project : String}
    (target : (seedTarget t minted identity).1 = some project) :
    project = minted ∧ (seedTarget s minted identity).1.isSome = true := by
  rw [seedTarget] at target
  cases here : t.projects.get? minted with
  | some row =>
    simp only [here] at target
    split at target
    next same =>
      cases target
      refine ⟨rfl,?_⟩
      cases before : s.projects.get? minted with
      | some old =>
        have := kept.projects _ old before
        rw [here] at this
        cases this
        simp [seedTarget,before,same]
      | none =>
        have free := kept.fresh _ row here before
        simp [seedTarget,before,free]
    next => cases target
  | none =>
    simp only [here] at target
    have before : s.projects.get? minted = none := by
      by_contra live
      obtain ⟨row,found⟩ := Option.ne_none_iff_exists'.mp live
      rw [kept.projects _ row found] at here
      cases here
    split at target
    next => cases target
    next free =>
      cases target
      refine ⟨rfl,?_⟩
      have unaliased : s.aliases.get? minted = none := by
        by_contra aliased
        obtain ⟨other,found⟩ := Option.ne_none_iff_exists'.mp aliased
        rw [kept.aliases _ other found] at free
        cases free
      simp [seedTarget,before,unaliased]

theorem Kept.insertRoot {t : Tables} (kept : Kept s t) (project : String)
    (entry : String × Option RootKey) : Kept s (insertRoot site.blake3 project t entry) where
  projects id row found := by
    rw [insertRoot_projects]
    exact kept.projects id row found
  aliases old target found := by
    rw [insertRoot_aliases,Table.get?_insertOrIgnore]
    have before := kept.aliases old target found
    split
    next same => rw [← same,before]; rfl
    next => exact before
  roots root absent := by
    refine kept.roots root ?_
    by_contra there
    obtain ⟨row,found⟩ := Option.ne_none_iff_exists'.mp there
    have inserted : (t.roots.insertOrIgnore entry.1 ⟨project,none⟩).get? root = some row := by
      rw [Table.get?_insertOrIgnore]
      split
      next same => rw [← same,found]; rfl
      next => exact found
    cases entry with
    | mk path key =>
      cases key with
      | none => simp [Registry.insertRoot,assign,inserted] at absent
      | some key => simp [Registry.insertRoot,assign,inserted] at absent
  fresh id row found := by
    rw [insertRoot_projects] at found
    exact kept.fresh id row found

theorem seedGroup_routes {holds : Tables → Prop} {group : String × List SeedPair} {before after : SeedState}
    (frame : ∀ t t', t'.roots = t.roots → t'.derived = t.derived → t'.keys = t.keys → holds t → holds t')
    (root : ∀ t pair key, pair ∈ group.2 → s.roots.get? pair.canonicalRoot = none →
      (seedTarget s (seedId site.blake3 group.1) group.1).1.isSome = true →
      incoming site t (seedId site.blake3 group.1) pair.canonicalRoot none = .ok key → holds t →
      holds (insertRoot site.blake3 (seedId site.blake3 group.1) t (pair.canonicalRoot,key)))
    (so_far : holds before.store ∧ Kept s before.store) (ok : seedGroup site req before group = .ok after) :
    holds after.store ∧ Kept s after.store := by
  rw [seedGroup] at ok
  split at ok
  next => cases ok; exact so_far
  next project found =>
    obtain ⟨rfl,was_target⟩ := so_far.2.target found
    split at ok
    next =>
      obtain ⟨_,_,ok⟩ := bind_ok ok
      obtain ⟨rooted,is_rooted,ok⟩ := bind_ok ok
      obtain ⟨placed,is_placed,ok⟩ := bind_ok ok
      cases ok
      have with_roots : holds rooted ∧ Kept s rooted := by
        refine foldlM_mem (fun t => holds t ∧ Kept s t) ?_ ?_ is_rooted
        · intro t pair t' inside now taken
          obtain ⟨key,chosen,taken⟩ := bind_ok taken
          cases taken
          rw [found,seedAvailable,Option.isSome_some,if_pos rfl,List.mem_filter] at inside
          have unregistered : before.store.roots.get? pair.canonicalRoot = none := by
            simpa [Table.has] using inside.2
          exact ⟨root t pair key inside.1 (so_far.2.roots _ unregistered) was_target chosen now.1,
            now.2.insertRoot _ _⟩
        · split
          next => exact so_far
          next dead =>
            refine ⟨frame before.store _ rfl rfl rfl so_far.1,?_,so_far.2.aliases,so_far.2.roots,?_⟩
            · intro id row here
              rw [Table.get?_insert]
              split
              next same =>
                have live := so_far.2.projects id row here
                rw [same] at live
                simp [Tables.live,Table.has,live] at dead
              next => exact so_far.2.projects id row here
            · intro id row here absent
              rw [Table.get?_insert] at here
              split at here
              next same =>
                rw [same] at absent ⊢
                cases aliased : s.aliases.get? (seedId site.blake3 group.1) with
                | none => rfl
                | some other => simp [seedTarget,absent,aliased] at was_target
              next => exact so_far.2.fresh id row here absent
      rw [seedPlacement.eq_def] at is_placed
      split at is_placed
      next =>
        split at is_placed
        next =>
          cases is_placed
          exact ⟨frame rooted _ rfl rfl rfl with_roots.1,with_roots.2.projects,with_roots.2.aliases,
            with_roots.2.roots,with_roots.2.fresh⟩
        next => cases is_placed
      next => cases is_placed; exact with_roots
    next => cases ok; exact so_far

/-- What an import preserves: a property of roots, containers and keys that each inserted
root keeps. The root is one nobody had, of a group that gets the project of its identity. -/
theorem seedImport_routes (holds : Tables → Prop)
    (frame : ∀ t t', t'.roots = t.roots → t'.derived = t.derived → t'.keys = t.keys → holds t → holds t')
    (root : ∀ t group pair key, group ∈ groups (surviving site req) → pair ∈ group.2 →
      s.roots.get? pair.canonicalRoot = none →
      (seedTarget s (seedId site.blake3 group.1) group.1).1.isSome = true →
      incoming site t (seedId site.blake3 group.1) pair.canonicalRoot none = .ok key → holds t →
      holds (insertRoot site.blake3 (seedId site.blake3 group.1) t (pair.canonicalRoot,key)))
    (initial : holds s) (ok : seedImport site s req = .ok action) : holds action.store := by
  rw [seedImport] at ok
  dsimp only at ok
  split at ok
  next =>
    obtain ⟨_,_,ok⟩ := bind_ok ok
    obtain ⟨state,grouped,ok⟩ := bind_ok ok
    split at ok
    next =>
      obtain ⟨_,_,ok⟩ := bind_ok ok
      cases ok
      have started : ∀ (workspaces : List (String × String)) (before : SeedState),
          holds before.store ∧ Kept s before.store →
          holds (seedWorkspaces before workspaces).store ∧ Kept s (seedWorkspaces before workspaces).store := by
        intro workspaces
        induction workspaces with
        | nil => exact fun _ so_far => so_far
        | cons workspace rest ih =>
          intro before so_far
          apply ih
          dsimp only
          split
          next => exact so_far
          next =>
            exact ⟨frame before.store _ rfl rfl rfl so_far.1,so_far.2.projects,so_far.2.aliases,
              so_far.2.roots,so_far.2.fresh⟩
      have begun := fun report => started req.workspaces ⟨s,report,false⟩ ⟨initial,Kept.refl s⟩
      refine (foldlM_mem (fun state => holds state.store ∧ Kept s state.store) ?_ (begun _) grouped).1
      intro before group after inside so_far taken
      exact seedGroup_routes frame (fun t pair key => root t group pair key inside) so_far taken
    next => cases ok; exact initial
  next => cases ok

end Seed

end Entorhinal.Registry
