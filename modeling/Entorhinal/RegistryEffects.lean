import Entorhinal.RegistrySound

/-! What an accepted mutation other than a removal does: the tables stay sound and only
grow, when the id it creates is no alias key. -/
namespace Entorhinal.Registry

/-- Sound tables that only grew. -/
def Grown (s s' : Tables) : Prop := Sound s' ∧ Extends s s'

theorem Grown.refl {s : Tables} (sound : Sound s) : Grown s s := ⟨sound,.refl s⟩

theorem Grown.trans {a b c : Tables} (first : Grown a b) (second : Grown b c) : Grown a c :=
  ⟨second.1,first.2.trans second.2⟩

theorem filter_none {α : Type} {p : α → Bool} {o : Option α} (none_left : o.filter p = none) :
    ∀ x, o = some x → p x = false := by
  rintro x rfl
  simpa [Option.filter] using none_left

section Rows

variable {s : Tables}

theorem grown_insertProject (sound : Sound s) {id : String} (row : Project) (shared : machineLocal id = false)
    (free : s.aliases.get? id = none) : Grown s {s with projects := s.projects.insert id row} :=
  ⟨sound.insertProject row shared free,extends_insertProject s id row⟩

theorem live_insertProject (s : Tables) (id : String) (row : Project) :
    ({s with projects := s.projects.insert id row} : Tables).live id = true := by
  rw [live_insert]; simp

theorem grown_placeIn (sound : Sound s) (project : String) (workspace : Option String) :
    Grown s (placeIn s project workspace) :=
  ⟨sound.placeIn project workspace,extends_placeIn s project workspace⟩

theorem grown_insertRoots (sound : Sound s) (blake3 : Digest) {project : String} (live : s.live project = true)
    (entries : List (String × Option RootKey)) : Grown s (entries.foldl (insertRoot blake3 project) s) :=
  ⟨sound.insertRoots blake3 live entries,extends_insertRoots blake3 project entries s⟩

theorem grown_insertParents (sound : Sound s) {project : String} (live : s.live project = true)
    (parents : List String) :
    Grown s {s with derived := parents.foldl (fun derived parent =>
      derived.insertOrIgnore parent ⟨project,none,none⟩) s.derived} :=
  ⟨sound.insertParents live parents,⟨fun _ live => live,fun _ _ _ found => found⟩⟩

/-- The alias of a name that is not live, to a live project. -/
theorem grown_insertAlias (sound : Sound s) {old project : String} (live : s.live project = true)
    (dead : s.live old = false) (agrees : ∀ target, s.aliases.get? old = some target → target = project) :
    Grown s {s with aliases := s.aliases.insert old project} := by
  have entry : ∀ name target, (s.aliases.insert old project).get? name = some target →
      (name = old ∧ target = project) ∨ s.aliases.get? name = some target := by
    intro name target found
    rw [Table.get?_insert] at found
    split at found
    next same => cases found; exact .inl ⟨same,rfl⟩
    next => exact .inr found
  refine ⟨⟨?_,?_,sound.rooted,sound.parented,sound.keyed,sound.named⟩,⟨fun _ here => here,?_⟩⟩
  · intro name target found
    rcases entry name target found with ⟨rfl,_⟩ | before
    · exact dead
    · exact sound.dead name target before
  · intro name target found
    rcases entry name target found with ⟨_,rfl⟩ | before
    · exact live
    · exact sound.direct name target before
  · intro name target _ found
    rw [Table.get?_insert]
    split
    next same => rw [agrees target (by rw [← same]; exact found)]
    next => exact found

end Rows

/-! ### register -/

section Register

variable {site : Site} {s : Tables} {req : RegisterRequest} {rootKeys : String → Option (Option RootKey)}
  {action : Action}

theorem registerIn_ok (ok : registerIn site s req rootKeys = .ok action) :
    ∃ project, registerId site s req = .ok project ∧ registerUnoccupied site s req project = .ok () ∧
      ((s.live project = true ∧ action.store = s) ∨
        ∃ chosen, action.store = registerWrites site.blake3 s req project chosen) := by
  obtain ⟨project,chosen_id,ok⟩ := bind_ok ok
  obtain ⟨_,unoccupied,ok⟩ := bind_ok ok
  obtain ⟨chosen,_,ok⟩ := bind_ok ok
  obtain ⟨_,_,ok⟩ := bind_ok ok
  obtain ⟨_,_,ok⟩ := bind_ok ok
  obtain ⟨_,_,ok⟩ := bind_ok ok
  obtain ⟨_,_,ok⟩ := bind_ok ok
  refine ⟨project,chosen_id,unoccupied,?_⟩
  dsimp only at ok
  split at ok
  next =>
    obtain ⟨_,_,ok⟩ := bind_ok ok
    cases ok
    exact .inr ⟨chosen,rfl⟩
  next unchanged =>
    cases ok
    refine .inl ⟨?_,rfl⟩
    by_contra dead
    have no_row : s.projects.get? project = none := by simpa [Tables.live,Table.has] using dead
    simp [registerChanges,no_row] at unchanged

theorem mem_sortDedup {paths : List String} {path : String} : path ∈ sortDedup paths ↔ path ∈ paths := by
  simp [sortDedup]

/-- The owners are live projects. -/
theorem owners_live (sound : Sound s) {owner : String} (member : owner ∈ owners s req) : s.live owner = true := by
  rw [owners,mem_sortDedup,List.mem_append,List.mem_filterMap,List.mem_filterMap] at member
  rcases member with ⟨root,_,found⟩ | ⟨parent,_,found⟩
  · obtain ⟨row,at_root,rfl⟩ := Option.map_eq_some_iff.mp found
    exact sound.rooted root row at_root
  · obtain ⟨row,at_parent,rfl⟩ := Option.map_eq_some_iff.mp found
    exact sound.parented parent row at_parent

/-- The id of an accepted registration: a given one, the owner of the roots, or a minted
one for roots nobody has. -/
theorem registerId_ok {project : String} (ok : registerId site s req = .ok project) :
    req.projectId = some project ∨ (req.projectId = none ∧ project ∈ owners s req) ∨
      (req.projectId = none ∧ owners s req = [] ∧ project = mint site.blake3 "register1" req.name req.roots) := by
  rw [registerId] at ok
  split at ok
  next given => cases ok; exact .inl given
  next none_given no_owner => cases ok; exact .inr (.inr ⟨none_given,no_owner,rfl⟩)
  next none_given one => cases ok; exact .inr (.inl ⟨none_given,by rw [one]; exact List.mem_singleton_self _⟩)
  next => cases ok

theorem registerUnoccupied_given {project : String} (ok : registerUnoccupied site s req project = .ok ())
    (given : req.projectId = some project) (dead : s.live project = false) : s.aliases.get? project = none := by
  rw [registerUnoccupied,given,dead] at ok
  simp only [Option.isNone_some,Bool.false_and,Bool.false_eq_true,if_false,Option.isSome_some,Bool.not_false,
    Bool.true_and] at ok
  split at ok
  next => cases ok
  next free => simpa [Table.has] using free

/-- A registration writes one row of the project. -/
theorem registerWrites_eq (blake3 : Digest) (s : Tables) (req : RegisterRequest) (project : String)
    (chosen : List (String × Option RootKey)) : ∃ row : Project, registerWrites blake3 s req project chosen =
      let rooted := chosen.foldl (insertRoot blake3 project) {s with projects := s.projects.insert project row}
      placeIn {rooted with derived := req.derivedRootParents.foldl (fun derived parent =>
        derived.insertOrIgnore parent ⟨project,none,none⟩) rooted.derived} project req.workspaceId := ⟨_,rfl⟩

theorem grown_registerWrites (sound : Sound s) {project : String} (shared : machineLocal project = false)
    (free : s.aliases.get? project = none) (chosen : List (String × Option RootKey)) :
    Grown s (registerWrites site.blake3 s req project chosen) := by
  obtain ⟨row,written⟩ := registerWrites_eq site.blake3 s req project chosen
  rw [written]
  have named := grown_insertProject sound row shared free
  have live := live_insertProject s project row
  have rooted := grown_insertRoots named.1 site.blake3 live chosen
  have parented := grown_insertParents rooted.1 (rooted.2.alive project live) req.derivedRootParents
  exact named.trans (rooted.trans (parented.trans (grown_placeIn parented.1 project req.workspaceId)))

/-- A minted id of the registration is no alias key. -/
def MintsFree (site : Site) (s : Tables) (req : RegisterRequest) : Prop :=
  req.projectId = none → owners s req = [] →
    s.aliases.get? (mint site.blake3 "register1" req.name req.roots) = none

theorem grown_registerIn (sound : Sound s) (named : ∀ id, req.projectId = some id → machineLocal id = false)
    (fits : MintsFree site s req) (ok : registerIn site s req rootKeys = .ok action) :
    Grown s action.store := by
  obtain ⟨project,chosen_id,unoccupied,⟨_,unchanged⟩ | ⟨chosen,written⟩⟩ := registerIn_ok ok
  · rw [unchanged]; exact .refl sound
  rw [written]
  rcases registerId_ok chosen_id with given | ⟨_,owner⟩ | ⟨none_given,no_owner,rfl⟩
  · refine grown_registerWrites sound (named project given) ?_ chosen
    cases live : s.live project with
    | true => exact sound.unaliased live
    | false => exact registerUnoccupied_given unoccupied given live
  · have live := owners_live sound owner
    exact grown_registerWrites sound (sound.named project live) (sound.unaliased live) chosen
  · exact grown_registerWrites sound (mint_not_machineLocal _ _ _ _) (fits none_given no_owner) chosen

theorem unreserved_ok {projectId : Option String} (ok : unreserved projectId = .ok ()) {id : String}
    (given : projectId = some id) : machineLocal id = false := by
  subst given
  cases isLocal : machineLocal id with
  | false => rfl
  | true => simp [unreserved,reserved_machineLocal isLocal] at ok

theorem grown_register (sound : Sound s) (fits : MintsFree site s req.sorted)
    (ok : register site s req = .ok action) : Grown s action.store := by
  obtain ⟨_,_,ok⟩ := bind_ok ok
  obtain ⟨_,unreserved,ok⟩ := bind_ok ok
  obtain ⟨_,_,ok⟩ := bind_ok ok
  obtain ⟨_,_,ok⟩ := bind_ok ok
  have named : ∀ id, req.sorted.projectId = some id → machineLocal id = false :=
    fun id given => unreserved_ok unreserved given
  exact grown_registerIn sound named fits ok

/-- The tables a registration writes have its project and every shared alias there was. -/
theorem extends_registerWrites (site : Site) (s : Tables) (req : RegisterRequest) (project : String)
    (chosen : List (String × Option RootKey)) :
    Extends s (registerWrites site.blake3 s req project chosen) ∧
      (registerWrites site.blake3 s req project chosen).live project = true := by
  obtain ⟨row,written⟩ := registerWrites_eq site.blake3 s req project chosen
  rw [written]
  let rooted := chosen.foldl (insertRoot site.blake3 project) {s with projects := s.projects.insert project row}
  have named := extends_insertProject s project row
  have grown := extends_insertRoots site.blake3 project chosen {s with projects := s.projects.insert project row}
  have placed := extends_placeIn {rooted with derived := req.derivedRootParents.foldl (fun derived parent =>
    derived.insertOrIgnore parent ⟨project,none,none⟩) rooted.derived} project req.workspaceId
  refine ⟨named.trans (grown.trans ⟨placed.alive,placed.kept⟩),placed.alive project ?_⟩
  exact grown.alive project (live_insertProject s project row)

/-- A registration that mints an alias key leaves it naming a live project. -/
theorem register_unfit (sound : Sound s) (unfit : ¬ MintsFree site s req.sorted)
    (ok : register site s req = .ok action) :
    ∃ id target, action.store.aliases.get? id = some target ∧ action.store.live id = true := by
  obtain ⟨_,_,ok⟩ := bind_ok ok
  obtain ⟨_,_,ok⟩ := bind_ok ok
  obtain ⟨_,_,ok⟩ := bind_ok ok
  obtain ⟨_,_,ok⟩ := bind_ok ok
  simp only [MintsFree,not_forall] at unfit
  obtain ⟨none_given,no_owner,taken⟩ := unfit
  obtain ⟨target,found⟩ := Option.ne_none_iff_exists'.mp taken
  have dead := sound.dead _ target found
  obtain ⟨project,chosen_id,_,outcome⟩ := registerIn_ok ok
  have minted : project = mint site.blake3 "register1" req.sorted.name req.sorted.roots := by
    rcases registerId_ok chosen_id with given | ⟨_,owner⟩ | ⟨_,_,same⟩
    · exact nomatch none_given.symm.trans given
    · rw [no_owner] at owner
      exact nomatch owner
    · exact same
  rw [← minted] at found dead
  rcases outcome with ⟨live,_⟩ | ⟨chosen,written⟩
  · exact absurd live (by simp [dead])
  · have shared : machineLocal project = false := by rw [minted]; exact mint_not_machineLocal _ _ _ _
    obtain ⟨grown,live⟩ := extends_registerWrites site s req.sorted project chosen
    exact ⟨project,target,by rw [written]; exact grown.kept project target shared found,by rw [written]; exact live⟩

end Register

/-! ### upgrade_implicit -/

section Upgrade

variable {site : Site} {s : Tables} {req : UpgradeImplicitRequest} {action : Action}

theorem upgradeImplicit_ok (ok : upgradeImplicit site s req = .ok action) :
    unreserved req.projectId = .ok () ∧
      (∀ target, s.aliases.get? req.implicitId = some target → target = upgradeId site.blake3 req) ∧
      ((s.live (upgradeId site.blake3 req) = true ∧ s.aliases.has req.implicitId = true ∧ action.store = s) ∨
        ∃ chosen, action.store = upgradeWrites site.blake3 s req (upgradeId site.blake3 req) chosen) := by
  obtain ⟨_,unreserved,ok⟩ := bind_ok ok
  obtain ⟨_,_,ok⟩ := bind_ok ok
  obtain ⟨_,unoccupied,ok⟩ := bind_ok ok
  refine ⟨unreserved,?_,?_⟩
  · rw [upgradeUnoccupied] at unoccupied
    split at unoccupied
    next => cases unoccupied
    next agrees =>
      intro target found
      simpa using filter_none agrees target found
  · split at ok
    next =>
      obtain ⟨_,_,ok⟩ := bind_ok ok
      obtain ⟨_,_,ok⟩ := bind_ok ok
      obtain ⟨chosen,_,ok⟩ := bind_ok ok
      cases ok
      exact .inr ⟨chosen,rfl⟩
    next unchanged =>
      cases ok
      simp only [upgradeChanges,Bool.or_eq_true,not_or,Bool.not_eq_true,Bool.not_eq_false'] at unchanged
      obtain ⟨⟨same,_⟩,aliased⟩ := unchanged
      refine .inl ⟨?_,aliased,rfl⟩
      by_contra dead
      have no_row : s.projects.get? (upgradeId site.blake3 req) = none := by
        simpa [Tables.live,Table.has] using dead
      simp [no_row] at same

/-- The upgraded id is no alias key unless it is live, and the implicit id is no live
project and not the upgraded id. -/
def UpgradesFree (site : Site) (s : Tables) (req : UpgradeImplicitRequest) : Prop :=
  (s.live (upgradeId site.blake3 req) = false → s.aliases.get? (upgradeId site.blake3 req) = none) ∧
    s.live req.implicitId = false ∧ req.implicitId ≠ upgradeId site.blake3 req

/-- The alias entries of inserted roots lead to their project. -/
theorem insertRoots_aliases {blake3 : Digest} {project : String} (entries : List (String × Option RootKey))
    {s : Tables} {old target : String}
    (found : (entries.foldl (insertRoot blake3 project) s).aliases.get? old = some target) :
    target = project ∨ s.aliases.get? old = some target := by
  induction entries generalizing s with
  | nil => exact .inr found
  | cons entry rest ih =>
    rcases ih found with same | before
    · exact .inl same
    · rw [insertRoot_aliases,Table.get?_insertOrIgnore] at before
      split at before
      next here =>
        cases row : s.aliases.get? (implicitProjectId blake3 entry.1) with
        | none => rw [row] at before; cases before; exact .inl rfl
        | some other => rw [row] at before; cases before; exact .inr (by rw [here,row]; rfl)
      next => exact .inr before

theorem insertRoots_live {blake3 : Digest} {project : String} (entries : List (String × Option RootKey))
    (s : Tables) (id : String) : (entries.foldl (insertRoot blake3 project) s).live id = s.live id := by
  induction entries generalizing s with
  | nil => rfl
  | cons entry rest ih => rw [List.foldl_cons,ih,Tables.live,insertRoot_projects]; rfl

theorem upgradeId_not_machineLocal (unreserved : unreserved req.projectId = .ok ()) :
    machineLocal (upgradeId site.blake3 req) = false := by
  rw [upgradeId]
  cases given : req.projectId with
  | none => exact mint_not_machineLocal _ _ _ _
  | some explicit => exact unreserved_ok unreserved given

/-- An upgrade writes one row of the project. -/
theorem upgradeWrites_eq (blake3 : Digest) (s : Tables) (req : UpgradeImplicitRequest) (id : String)
    (chosen : List (String × Option RootKey)) : ∃ row : Project, upgradeWrites blake3 s req id chosen =
      let rooted := chosen.foldl (insertRoot blake3 id) {s with projects := s.projects.insert id row}
      placeIn {rooted with aliases := rooted.aliases.insert req.implicitId id} id req.workspaceId := ⟨_,rfl⟩

theorem grown_upgradeImplicit (sound : Sound s) (fits : UpgradesFree site s req)
    (ok : upgradeImplicit site s req = .ok action) : Grown s action.store := by
  obtain ⟨unreserved,agrees,⟨_,_,unchanged⟩ | ⟨chosen,written⟩⟩ := upgradeImplicit_ok ok
  · rw [unchanged]; exact .refl sound
  obtain ⟨free,dead,other⟩ := fits
  rw [written]
  let id := upgradeId site.blake3 req
  obtain ⟨row,writes⟩ := upgradeWrites_eq site.blake3 s req id chosen
  rw [writes]
  have shared : machineLocal id = false := upgradeId_not_machineLocal unreserved
  have unaliased : s.aliases.get? id = none := by
    cases live : s.live id with
    | true => exact sound.unaliased live
    | false => exact free live
  have named := grown_insertProject sound row shared unaliased
  have live := live_insertProject s id row
  have rooted := grown_insertRoots named.1 site.blake3 live chosen
  have still_dead : (chosen.foldl (insertRoot site.blake3 id)
      {s with projects := s.projects.insert id row}).live req.implicitId = false := by
    have apart : req.implicitId ≠ id := other
    rw [insertRoots_live,live_insert,dead,decide_eq_false apart]
    rfl
  have aliased := grown_insertAlias rooted.1 (rooted.2.alive id live) still_dead fun target found =>
    (insertRoots_aliases chosen found).elim (fun same => same) (agrees target)
  exact named.trans (rooted.trans (aliased.trans (grown_placeIn aliased.1 id req.workspaceId)))

/-- The tables an upgrade writes have its project and the alias of the implicit id, and
every other shared alias there was. -/
theorem upgradeWrites_spec (site : Site) (s : Tables) (req : UpgradeImplicitRequest) (id : String)
    (chosen : List (String × Option RootKey)) :
    (∀ other, s.live other = true → (upgradeWrites site.blake3 s req id chosen).live other = true) ∧
      (upgradeWrites site.blake3 s req id chosen).live id = true ∧
      (upgradeWrites site.blake3 s req id chosen).aliases.get? req.implicitId = some id ∧
      ∀ old target, machineLocal old = false → s.aliases.get? old = some target → old ≠ req.implicitId →
        (upgradeWrites site.blake3 s req id chosen).aliases.get? old = some target := by
  obtain ⟨row,writes⟩ := upgradeWrites_eq site.blake3 s req id chosen
  rw [writes]
  let rooted := chosen.foldl (insertRoot site.blake3 id) {s with projects := s.projects.insert id row}
  have named := extends_insertProject s id row
  have grown := extends_insertRoots site.blake3 id chosen {s with projects := s.projects.insert id row}
  have placed := extends_placeIn {rooted with aliases := rooted.aliases.insert req.implicitId id} id req.workspaceId
  have aliases : (placeIn {rooted with aliases := rooted.aliases.insert req.implicitId id} id req.workspaceId).aliases =
      rooted.aliases.insert req.implicitId id := by
    cases req.workspaceId <;> rfl
  refine ⟨?_,?_,?_,?_⟩
  · exact fun other live => placed.alive other (grown.alive other (named.alive other live))
  · exact placed.alive id (grown.alive id (live_insertProject s id row))
  · rw [aliases,Table.get?_insert,if_pos rfl]
  · intro old target shared found other
    rw [aliases,Table.get?_insert,if_neg other]
    exact grown.kept old target shared (named.kept old target shared found)

/-- An upgrade to an alias key, or of a live project's id, leaves an alias that names a
live project. -/
theorem upgradeImplicit_unfit (sound : Sound s) (unfit : ¬ UpgradesFree site s req)
    (ok : upgradeImplicit site s req = .ok action) :
    ∃ id target, action.store.aliases.get? id = some target ∧ action.store.live id = true := by
  obtain ⟨unreserved,_,outcome⟩ := upgradeImplicit_ok ok
  rcases outcome with ⟨live,aliased,_⟩ | ⟨chosen,written⟩
  · have dead : s.live req.implicitId = false := by
      obtain ⟨target,found⟩ := Table.has_iff.mp aliased
      exact sound.dead _ target found
    refine absurd ⟨fun dead_id => ?_,dead,?_⟩ unfit
    · rw [live] at dead_id
      cases dead_id
    · rintro same
      rw [same,live] at dead
      cases dead
  obtain ⟨alive,live,aliased,kept⟩ := upgradeWrites_spec site s req (upgradeId site.blake3 req) chosen
  rw [written]
  by_cases same : req.implicitId = upgradeId site.blake3 req
  · exact ⟨req.implicitId,_,aliased,by rw [same]; exact live⟩
  cases implicit_lives : s.live req.implicitId with
  | true => exact ⟨req.implicitId,_,aliased,alive _ implicit_lives⟩
  | false =>
    have taken : s.aliases.get? (upgradeId site.blake3 req) ≠ none := by
      intro free
      exact unfit ⟨fun _ => free,implicit_lives,same⟩
    obtain ⟨target,found⟩ := Option.ne_none_iff_exists'.mp taken
    exact ⟨_,target,kept _ target (upgradeId_not_machineLocal unreserved) found (Ne.symm same),live⟩

end Upgrade

/-! ### Roots -/

section Roots

variable {site : Site} {s : Tables} {action : Action}

theorem grown_insertRoot (sound : Sound s) (blake3 : Digest) {project : String} (live : s.live project = true)
    (entry : String × Option RootKey) : Grown s (insertRoot blake3 project s entry) :=
  ⟨sound.insertRoot blake3 live entry,extends_insertRoot blake3 project s entry⟩

theorem grown_addRoot {req : AddRootRequest} (sound : Sound s) (ok : addRoot site s req = .ok action) :
    Grown s action.store := by
  obtain ⟨_,_,ok⟩ := bind_ok ok
  dsimp only at ok
  split at ok
  next live =>
    split at ok
    next =>
      split at ok
      next => cases ok; exact .refl sound
      next => cases ok
    next =>
      obtain ⟨_,_,ok⟩ := bind_ok ok
      obtain ⟨key,_,ok⟩ := bind_ok ok
      split at ok
      next => cases ok
      next => cases ok; exact grown_insertRoot sound site.blake3 live _
  next => cases ok

theorem remoteOwner_live {rootKey owner : String} {other : String → Bool} (sound : Sound s)
    (found : remoteOwner s rootKey other = some owner) : s.live owner = true := by
  obtain ⟨⟨row,_⟩,at_row,rfl⟩ := Option.map_eq_some_iff.mp found
  exact sound.keyed row (Table.has_iff.mpr ⟨_,(Table.find?_some at_row).1⟩)

theorem attachOwner_live {req : AttachRootRequest} {key : RootKey} {project : String} (sound : Sound s)
    (ok : attachOwner s req key = .ok project) : s.live project = true := by
  rw [attachOwner] at ok
  split at ok
  next =>
    split at ok
    next => cases ok
    next owner found =>
      split at ok
      next => cases ok
      next => cases ok; exact remoteOwner_live sound found
  next =>
    split at ok
    next => cases ok
    next project _ =>
      split at ok
      next has => cases ok; exact sound.keyed _ has
      next => cases ok

theorem attachMatch_live {req : AttachRootRequest} {matched : String × RootKey} (sound : Sound s)
    (ok : attachMatch site s req = .ok matched) : s.live matched.1 = true := by
  rw [attachMatch] at ok
  dsimp only at ok
  split at ok
  next =>
    obtain ⟨_,_,ok⟩ := bind_ok ok
    split at ok
    next => cases ok
    next =>
      split at ok
      next => cases ok
      next key _ =>
        obtain ⟨project,owner,ok⟩ := bind_ok ok
        have live := attachOwner_live sound owner
        split at ok
        next =>
          split at ok
          next => cases ok
          next => cases ok; exact live
        next =>
          obtain ⟨_,_,ok⟩ := bind_ok ok
          cases ok; exact live
  next => cases ok

theorem grown_attachRoot {req : AttachRootRequest} (sound : Sound s) (ok : attachRoot site s req = .ok action) :
    Grown s action.store := by
  obtain ⟨matched,is_matched,ok⟩ := bind_ok ok
  dsimp only at ok
  split at ok
  next => cases ok; exact .refl sound
  next =>
    obtain ⟨_,_,ok⟩ := bind_ok ok
    cases ok
    exact grown_insertRoot sound site.blake3 (attachMatch_live sound is_matched) _

theorem grown_removeRoot {req : RemoveRootRequest} (sound : Sound s) (ok : removeRoot site s req = .ok action) :
    Grown s action.store := by
  obtain ⟨_,_,ok⟩ := bind_ok ok
  split at ok
  next => cases ok
  next =>
    cases ok
    exact ⟨sound.applyRemoveRoot _ _ _,extends_applyRemoveRoot _ _ _ _⟩

theorem grown_detached (sound : Sound s) (blake3 : Digest) (req : MoveRootToNewProjectRequest)
    (key : Option RootKey) : Grown s (detached blake3 s req key) := by
  have removed : Grown s (applyRemoveRoot blake3 s req.fromProjectId req.root) :=
    ⟨sound.applyRemoveRoot _ _ _,extends_applyRemoveRoot _ _ _ _⟩
  cases key with
  | none => exact removed
  | some key =>
    exact removed.trans ⟨removed.1.release _ _,⟨fun _ live => live,fun _ _ _ found => found⟩⟩

theorem detached_aliases {blake3 : Digest} {req : MoveRootToNewProjectRequest} {key : Option RootKey} {id : String}
    (free : s.aliases.get? id = none) : (detached blake3 s req key).aliases.get? id = none := by
  have removed : (applyRemoveRoot blake3 s req.fromProjectId req.root).aliases.get? id = none := by
    simp [applyRemoveRoot,free]
  cases key with
  | none => exact removed
  | some key => exact removed

theorem grown_moveRootToNewProject {req : MoveRootToNewProjectRequest} (sound : Sound s)
    (ok : moveRootToNewProject site s req = .ok action) : Grown s action.store := by
  obtain ⟨_,_,ok⟩ := bind_ok ok
  split at ok
  next => cases ok
  next =>
    dsimp only at ok
    split at ok
    next => cases ok
    next =>
      split at ok
      next => cases ok
      next unoccupied =>
        obtain ⟨registered,is_registered,ok⟩ := bind_ok ok
        cases ok
        have free : s.aliases.get? (mint site.blake3 "register1" req.name [req.root]) = none := by
          rw [not_or] at unoccupied
          simpa [Table.has] using unoccupied.2
        have away := grown_detached sound site.blake3 req (mappedKey site s req.root)
        have no_id : ∀ id, req.registration.projectId = some id → machineLocal id = false :=
          fun _ given => by cases given
        have fits : MintsFree site (detached site.blake3 s req (mappedKey site s req.root)) req.registration :=
          fun _ _ => detached_aliases free
        have anew := grown_registerIn away.1 no_id fits is_registered
        exact away.trans anew

theorem grown_attachDerivedParent {req : AttachDerivedParentRequest} (sound : Sound s)
    (ok : attachDerivedParent site s req = .ok action) : Grown s action.store := by
  obtain ⟨_,_,ok⟩ := bind_ok ok
  dsimp only at ok
  split at ok
  next => cases ok
  next row at_root =>
    split at ok
    next => cases ok
    next owned =>
      obtain ⟨_,_,ok⟩ := bind_ok ok
      split at ok
      next =>
        split at ok
        next => cases ok; exact .refl sound
        next => cases ok
      next =>
        split at ok
        next => cases ok
        next =>
          split at ok
          next => cases ok
          next =>
            cases ok
            refine ⟨⟨sound.dead,sound.direct,sound.rooted,?_,sound.keyed,sound.named⟩,
              ⟨fun _ live => live,fun _ _ _ found => found⟩⟩
            intro parent attached found
            rw [Table.get?_insert] at found
            split at found
            next =>
              cases found
              rw [← not_ne_iff.mp owned]
              exact sound.rooted _ row at_root
            next => exact sound.parented parent attached found

theorem grown_assignWorkspace {req : AssignWorkspaceRequest} (sound : Sound s)
    (ok : assignWorkspace site s req = .ok action) : Grown s action.store := by
  rw [assignWorkspace] at ok
  dsimp only at ok
  split at ok
  next =>
    split at ok
    next => cases ok; exact .refl sound
    next =>
      obtain ⟨_,_,ok⟩ := bind_ok ok
      obtain ⟨_,_,ok⟩ := bind_ok ok
      cases ok
      exact ⟨⟨sound.dead,sound.direct,sound.rooted,sound.parented,sound.keyed,sound.named⟩,
        ⟨fun _ live => live,fun _ _ _ found => found⟩⟩
  next => cases ok

end Roots

/-! ### seed_import -/

section Seed

variable {site : Site} {s : Tables} {req : SeedImportRequest}

theorem grown_seedWorkspaces (workspaces : List (String × String)) {state : SeedState}
    (so_far : Grown s state.store) : Grown s (seedWorkspaces state workspaces).store := by
  induction workspaces generalizing state with
  | nil => exact so_far
  | cons workspace rest ih =>
    apply ih
    dsimp only
    split
    next => exact so_far
    next =>
      obtain ⟨kept,grown⟩ := so_far
      exact ⟨⟨kept.dead,kept.direct,kept.rooted,kept.parented,kept.keyed,kept.named⟩,⟨grown.alive,grown.kept⟩⟩

theorem grown_seedPlacement {project : String} {claims : List String} {placed : Tables} (sound : Sound s)
    (ok : seedPlacement s project claims = .ok placed) : Grown s placed := by
  rw [seedPlacement.eq_def] at ok
  split at ok
  next =>
    split at ok
    next =>
      cases ok
      exact ⟨⟨sound.dead,sound.direct,sound.rooted,sound.parented,sound.keyed,sound.named⟩,
        ⟨fun _ live => live,fun _ _ _ found => found⟩⟩
    next => cases ok
  next => cases ok; exact .refl sound

theorem grown_seedRoots {project : String} {pairs : List SeedPair} {rooted : Tables} (sound : Sound s)
    (live : s.live project = true) (ok : pairs.foldlM (seedRoot site project) s = .ok rooted) :
    Grown s rooted := by
  refine foldlM_ok (Grown s) ?_ (.refl sound) ok
  intro before pair after so_far taken
  obtain ⟨key,_,taken⟩ := bind_ok taken
  cases taken
  exact so_far.trans (grown_insertRoot so_far.1 site.blake3 (so_far.2.alive project live) _)

theorem grown_seedProject {state after : SeedState} {identity project : String} {rows available : List SeedPair}
    (ok : seedProject site req state identity project rows available = .ok after)
    (sound : Sound state.store) (shared : machineLocal project = false)
    (free : state.store.aliases.get? project = none) :
    Grown state.store after.store := by
  obtain ⟨_,_,ok⟩ := bind_ok ok
  obtain ⟨rooted,is_rooted,ok⟩ := bind_ok ok
  obtain ⟨placed,is_placed,ok⟩ := bind_ok ok
  cases ok
  have named : Grown state.store (if state.store.live project then state.store
      else {state.store with projects :=
        state.store.projects.insert project ⟨seedName req identity rows,none,some identity⟩}) ∧
      (if state.store.live project then state.store
        else {state.store with projects :=
          state.store.projects.insert project ⟨seedName req identity rows,none,some identity⟩}).live project = true := by
    split
    next live => exact ⟨.refl sound,live⟩
    next => exact ⟨grown_insertProject sound _ shared free,live_insertProject _ _ _⟩
  have with_roots := grown_seedRoots named.1.1 named.2 is_rooted
  exact named.1.trans (with_roots.trans (grown_seedPlacement with_roots.1 is_placed))

/-- The project of a group is live or under an id that is no alias key. -/
theorem seedTarget_free {minted identity project : String} (sound : Sound s)
    (target : (seedTarget s minted identity).1 = some project) :
    project = minted ∧ s.aliases.get? project = none := by
  rw [seedTarget] at target
  split at target
  next row live =>
    split at target
    next => cases target; exact ⟨rfl,sound.unaliased (Table.has_iff.mpr ⟨row,live⟩)⟩
    next => cases target
  next =>
    split at target
    next => cases target
    next free => cases target; exact ⟨rfl,free⟩

theorem grown_seedGroup {state after : SeedState} {group : String × List SeedPair} (sound : Sound state.store)
    (ok : seedGroup site req state group = .ok after) : Grown state.store after.store := by
  rw [seedGroup] at ok
  split at ok
  next => cases ok; exact .refl sound
  next project target =>
    obtain ⟨rfl,free⟩ := seedTarget_free sound target
    split at ok
    next =>
      have seeded := grown_seedProject ok sound (seedId_not_machineLocal _ _) free
      exact seeded
    next => cases ok; exact .refl sound

theorem grown_seedImport {action : Action} (sound : Sound s) (ok : seedImport site s req = .ok action) :
    Grown s action.store := by
  rw [seedImport] at ok
  dsimp only at ok
  split at ok
  next =>
    obtain ⟨_,_,ok⟩ := bind_ok ok
    obtain ⟨state,grouped,ok⟩ := bind_ok ok
    split at ok
    next =>
      obtain ⟨_,_,ok⟩ := bind_ok ok
      cases ok
      refine foldlM_ok (fun state => Grown s state.store) ?_ ?_ grouped
      · exact fun before group after so_far taken => so_far.trans (grown_seedGroup so_far.1 taken)
      · exact grown_seedWorkspaces req.workspaces (.refl sound)
    next => cases ok; exact .refl sound
  next => cases ok

end Seed

end Entorhinal.Registry
