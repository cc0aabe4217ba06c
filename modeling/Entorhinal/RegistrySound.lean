import Entorhinal.RegistrySeed
import Entorhinal.RegistryRoots

/-! What the registry's tables keep: an alias never names a live project and always leads
to one, and every row belongs to a live project. -/
namespace Entorhinal.Registry

structure Sound (s : Tables) : Prop where
  dead : ∀ old target, s.aliases.get? old = some target → s.live old = false
  direct : ∀ old target, s.aliases.get? old = some target → s.live target = true
  rooted : ∀ root row, s.roots.get? root = some row → s.live row.projectId = true
  parented : ∀ parent row, s.derived.get? parent = some row → s.live row.projectId = true
  keyed : ∀ row, s.keys.has row = true → s.live row.project = true
  named : ∀ id, s.live id = true → machineLocal id = false

theorem Sound.unaliased {s : Tables} (sound : Sound s) {id : String} (live : s.live id = true) :
    s.aliases.get? id = none := by
  cases found : s.aliases.get? id with
  | none => rfl
  | some target => exact absurd (sound.dead id target found) (by simp [live])

/-- No project goes, and no alias that other machines share changes. -/
structure Extends (s s' : Tables) : Prop where
  alive : ∀ id, s.live id = true → s'.live id = true
  kept : ∀ old target, machineLocal old = false → s.aliases.get? old = some target →
    s'.aliases.get? old = some target

theorem Extends.refl (s : Tables) : Extends s s := ⟨fun _ live => live,fun _ _ _ found => found⟩

theorem Extends.trans {a b c : Tables} (first : Extends a b) (second : Extends b c) : Extends a c where
  alive id live := second.alive id (first.alive id live)
  kept old target shared found := second.kept old target shared (first.kept old target shared found)

theorem Sound.empty : Sound Tables.empty where
  dead _ _ found := nomatch found
  direct _ _ found := nomatch found
  rooted _ _ found := nomatch found
  parented _ _ found := nomatch found
  keyed _ found := nomatch found
  named _ found := nomatch found

section Writes

variable {s : Tables}

theorem live_insert {id other : String} {row : Project} :
    ({s with projects := s.projects.insert id row} : Tables).live other =
      (decide (other = id) || s.live other) :=
  Table.has_insert _ _ _ _

/-- A project row under an id that is no alias key. -/
theorem Sound.insertProject (sound : Sound s) {id : String} (row : Project)
    (shared : machineLocal id = false) (free : s.aliases.get? id = none) :
    Sound {s with projects := s.projects.insert id row} where
  dead old target found := by
    have other : old ≠ id := fun same => by rw [same] at found; exact nomatch free.symm.trans found
    rw [live_insert]
    simp [other,sound.dead old target found]
  direct old target found := by rw [live_insert,sound.direct old target found,Bool.or_true]
  rooted root row found := by rw [live_insert,sound.rooted root row found,Bool.or_true]
  parented parent row found := by rw [live_insert,sound.parented parent row found,Bool.or_true]
  keyed row found := by rw [live_insert,sound.keyed row found,Bool.or_true]
  named other live := by
    rw [live_insert,Bool.or_eq_true,decide_eq_true_eq] at live
    rcases live with rfl | live
    · exact shared
    · exact sound.named other live

theorem extends_insertProject (s : Tables) (id : String) (row : Project) :
    Extends s {s with projects := s.projects.insert id row} where
  alive other live := by rw [live_insert,live,Bool.or_true]
  kept _ _ _ found := found

theorem insertKey_frame (s : Tables) (project : String) (key : RootKey) :
    (insertKey s project key).projects = s.projects ∧ (insertKey s project key).roots = s.roots ∧
      (insertKey s project key).derived = s.derived ∧ (insertKey s project key).aliases = s.aliases := by
  rw [insertKey]
  split <;> exact ⟨rfl,rfl,rfl,rfl⟩

theorem insertKey_keys {project : String} {key : RootKey} {row : KeyRow}
    (has : (insertKey s project key).keys.has row = true) : row.project = project ∨ s.keys.has row = true := by
  rw [insertKey] at has
  split at has
  next => exact .inr has
  next =>
    rw [Table.has_insertOrIgnore,Bool.or_eq_true,decide_eq_true_eq] at has
    exact has.imp_left fun same => by rw [same]; rfl

theorem assign_frame (s : Tables) (project root : String) (key : Option RootKey) :
    (assign s project root key).projects = s.projects ∧ (assign s project root key).derived = s.derived ∧
      (assign s project root key).aliases = s.aliases := by
  cases key with
  | none => exact ⟨rfl,rfl,rfl⟩
  | some key =>
    obtain ⟨projects,_,derived,aliases⟩ := insertKey_frame s project key
    exact ⟨projects,derived,aliases⟩

theorem assign_roots {project root path : String} {key : Option RootKey} {row : Root}
    (found : (assign s project root key).roots.get? path = some row) :
    ∃ before, s.roots.get? path = some before ∧ before.projectId = row.projectId := by
  cases key with
  | none => exact ⟨row,found,rfl⟩
  | some key =>
    simp only [assign,Table.get?_update,Option.map_eq_some_iff] at found
    obtain ⟨before,at_path,rfl⟩ := found
    refine ⟨before,at_path,?_⟩
    split <;> rfl

theorem assign_keys {project root : String} {key : Option RootKey} {row : KeyRow}
    (has : (assign s project root key).keys.has row = true) : row.project = project ∨ s.keys.has row = true := by
  cases key with
  | none => exact .inr has
  | some key => exact insertKey_keys has

theorem insertRoot_projects (blake3 : Digest) (project : String) (s : Tables) (entry : String × Option RootKey) :
    (insertRoot blake3 project s entry).projects = s.projects :=
  (assign_frame _ project entry.1 entry.2).1

theorem insertRoot_aliases (blake3 : Digest) (project : String) (s : Tables) (entry : String × Option RootKey) :
    (insertRoot blake3 project s entry).aliases =
      s.aliases.insertOrIgnore (implicitProjectId blake3 entry.1) project := by
  simp only [insertRoot,(assign_frame _ project entry.1 entry.2).2.2]

theorem insertRoot_roots {blake3 : Digest} {project path : String} {entry : String × Option RootKey} {row : Root}
    (found : (insertRoot blake3 project s entry).roots.get? path = some row) :
    row.projectId = project ∨ ∃ before, s.roots.get? path = some before ∧ before.projectId = row.projectId := by
  obtain ⟨before,at_path,same⟩ := assign_roots found
  rw [Table.get?_insertOrIgnore] at at_path
  split at at_path
  next here =>
    cases registered : s.roots.get? entry.1 with
    | none =>
      rw [registered] at at_path
      cases at_path
      exact .inl same.symm
    | some old =>
      rw [registered] at at_path
      cases at_path
      exact .inr ⟨old,by rw [here,registered],same⟩
  next => exact .inr ⟨before,at_path,same⟩

/-- A root of a live project. -/
theorem Sound.insertRoot (sound : Sound s) (blake3 : Digest) {project : String} (live : s.live project = true)
    (entry : String × Option RootKey) : Sound (insertRoot blake3 project s entry) := by
  have lives : ∀ id, (Registry.insertRoot blake3 project s entry).live id = s.live id := by
    intro id
    rw [Tables.live,insertRoot_projects]; rfl
  have aliased : ∀ old target, (Registry.insertRoot blake3 project s entry).aliases.get? old = some target →
      s.aliases.get? old = some target ∨ (machineLocal old = true ∧ target = project) := by
    intro old target found
    rw [insertRoot_aliases,Table.get?_insertOrIgnore] at found
    split at found
    next same =>
      cases before : s.aliases.get? (implicitProjectId blake3 entry.1) with
      | none =>
        rw [before] at found
        cases found
        exact .inr ⟨by rw [same]; exact machineLocal_implicit blake3 _,rfl⟩
      | some other =>
        rw [before] at found
        cases found
        exact .inl (by rw [same,before]; rfl)
    next => exact .inl found
  refine ⟨?_,?_,?_,?_,?_,fun id here => sound.named id (by rwa [lives] at here)⟩
  · intro old target found
    rw [lives]
    rcases aliased old target found with before | ⟨isLocal,_⟩
    · exact sound.dead old target before
    · cases here : s.live old with
      | false => rfl
      | true => exact absurd (sound.named old here) (by simp [isLocal])
  · intro old target found
    rw [lives]
    rcases aliased old target found with before | ⟨_,rfl⟩
    · exact sound.direct old target before
    · exact live
  · intro path row found
    rw [lives]
    rcases insertRoot_roots found with same | ⟨before,at_path,same⟩
    · rw [same]; exact live
    · rw [← same]; exact sound.rooted path before at_path
  · intro parent row found
    rw [lives]
    have unchanged : (Registry.insertRoot blake3 project s entry).derived = s.derived :=
      (assign_frame _ project entry.1 entry.2).2.1
    rw [unchanged] at found
    exact sound.parented parent row found
  · intro row has
    rw [lives]
    have from_assign : (assign {s with roots := s.roots.insertOrIgnore entry.1 ⟨project,none⟩} project entry.1
      entry.2).keys.has row = true := has
    rcases assign_keys from_assign with same | before
    · rw [same]; exact live
    · exact sound.keyed row before

theorem extends_insertRoot (blake3 : Digest) (project : String) (s : Tables) (entry : String × Option RootKey) :
    Extends s (insertRoot blake3 project s entry) where
  alive id live := by rw [Tables.live,insertRoot_projects]; exact live
  kept old target shared found := by
    have other : old ≠ implicitProjectId blake3 entry.1 := by
      rintro rfl
      rw [machineLocal_implicit] at shared
      cases shared
    rw [insertRoot_aliases,Table.get?_insertOrIgnore,if_neg other]
    exact found

theorem extends_insertRoots (blake3 : Digest) (project : String) (entries : List (String × Option RootKey))
    (s : Tables) : Extends s (entries.foldl (insertRoot blake3 project) s) := by
  induction entries generalizing s with
  | nil => exact .refl s
  | cons entry rest ih => exact (extends_insertRoot blake3 project s entry).trans (ih _)

theorem Sound.insertRoots (sound : Sound s) (blake3 : Digest) {project : String} (live : s.live project = true)
    (entries : List (String × Option RootKey)) : Sound (entries.foldl (Registry.insertRoot blake3 project) s) := by
  induction entries generalizing s with
  | nil => exact sound
  | cons entry rest ih =>
    have grown := extends_insertRoot blake3 project s entry
    exact ih (sound.insertRoot blake3 live entry) (grown.alive project live)

/-- Parents of a live project. -/
theorem Sound.insertParents (sound : Sound s) {project : String} (live : s.live project = true)
    (parents : List String) :
    Sound {s with derived := parents.foldl (fun derived parent =>
      derived.insertOrIgnore parent ⟨project,none,none⟩) s.derived} := by
  have owned : ∀ parent row, (parents.foldl (fun derived parent =>
      Table.insertOrIgnore derived parent (⟨project,none,none⟩ : DerivedParent)) s.derived).get? parent = some row →
      s.live row.projectId = true := by
    have step : ∀ (derived : Table String DerivedParent), (∀ parent row, derived.get? parent = some row →
        s.live row.projectId = true) → ∀ parent row, (parents.foldl (fun derived parent =>
          derived.insertOrIgnore parent ⟨project,none,none⟩) derived).get? parent = some row →
          s.live row.projectId = true := by
      induction parents with
      | nil => exact fun derived all => all
      | cons first rest ih =>
        intro derived all
        apply ih
        intro parent row found
        rw [Table.get?_insertOrIgnore] at found
        split at found
        next =>
          cases before : derived.get? first with
          | none => rw [before] at found; cases found; exact live
          | some old => rw [before] at found; cases found; exact all first _ before
        next => exact all parent row found
    exact step s.derived sound.parented
  exact ⟨sound.dead,sound.direct,sound.rooted,owned,sound.keyed,sound.named⟩

theorem Sound.placeIn (sound : Sound s) (project : String) (workspace : Option String) :
    Sound (placeIn s project workspace) := by
  cases workspace with
  | none => exact sound
  | some workspace =>
    exact ⟨sound.dead,sound.direct,sound.rooted,sound.parented,sound.keyed,sound.named⟩

theorem extends_placeIn (s : Tables) (project : String) (workspace : Option String) :
    Extends s (placeIn s project workspace) := by
  cases workspace with
  | none => exact .refl s
  | some workspace => exact ⟨fun _ live => live,fun _ _ _ found => found⟩

theorem Sound.clearUnownedMappings (sound : Sound s) : Sound (clearUnownedMappings s) := by
  refine ⟨sound.dead,sound.direct,?_,sound.parented,sound.keyed,sound.named⟩
  intro root row found
  simp only [Registry.clearUnownedMappings,Table.get?_update,Option.map_eq_some_iff] at found
  obtain ⟨before,at_root,rfl⟩ := found
  have live : s.live before.projectId = true := sound.rooted root before at_root
  split
  next => exact live
  next => split <;> exact live

theorem Sound.release (sound : Sound s) (project : String) (key : RootKey) : Sound (release s project key) := by
  apply Sound.clearUnownedMappings
  refine ⟨sound.dead,sound.direct,sound.rooted,sound.parented,?_,sound.named⟩
  intro row has
  rw [Table.has_erase,Bool.and_eq_true] at has
  exact sound.keyed row has.2

theorem Sound.applyRemoveRoot (sound : Sound s) (blake3 : Digest) (project root : String) :
    Sound (applyRemoveRoot blake3 s project root) where
  dead old target found := by
    rw [Registry.applyRemoveRoot] at found
    exact sound.dead old target (Option.filter_eq_some_iff.mp ((Table.get?_filter _ _ _).symm.trans found)).1
  direct old target found := by
    rw [Registry.applyRemoveRoot] at found
    exact sound.direct old target (Option.filter_eq_some_iff.mp ((Table.get?_filter _ _ _).symm.trans found)).1
  rooted path row found := by
    simp only [Registry.applyRemoveRoot,Table.get?_erase] at found
    split at found
    next => cases found
    next => exact sound.rooted path row found
  parented parent row found := by
    rw [Registry.applyRemoveRoot] at found
    exact sound.parented parent row (Option.filter_eq_some_iff.mp ((Table.get?_filter _ _ _).symm.trans found)).1
  keyed := sound.keyed
  named := sound.named

theorem extends_applyRemoveRoot (blake3 : Digest) (s : Tables) (project root : String) :
    Extends s (applyRemoveRoot blake3 s project root) where
  alive _ live := live
  kept old target shared found := by
    have other : old ≠ implicitProjectId blake3 root := by
      rintro rfl
      rw [machineLocal_implicit] at shared
      cases shared
    simp [applyRemoveRoot,found,Option.filter,other]

end Writes
end Entorhinal.Registry
