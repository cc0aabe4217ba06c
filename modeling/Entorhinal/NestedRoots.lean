import Entorhinal.RootKeyRuns

/-! Nested roots: a root that is added or attached lies apart from every other root and
container, but one that is registered, upgraded or imported is checked only in part. -/
namespace Entorhinal.Registry
open Transition

def overlaps (a b : String) : Bool := pathPrefixOrEqual a b || pathPrefixOrEqual b a

theorem overlaps_comm (a b : String) : overlaps a b = overlaps b a := Bool.or_comm _ _

/-- Roots do not nest, and overlap no container of another project. -/
structure Apart (s : Tables) : Prop where
  roots : ∀ a b rowA rowB, s.roots.get? a = some rowA → s.roots.get? b = some rowB → a ≠ b → overlaps a b = false
  containers : ∀ root row parent container, s.roots.get? root = some row → s.derived.get? parent = some container →
    container.projectId ≠ row.projectId → overlaps root parent = false

/-- A folder lies under one root at most. -/
theorem Apart.unique {s : Tables} (apart : Apart s) {folder a b : String} (left : s.roots.has a = true)
    (right : s.roots.has b = true) (above : pathPrefixOrEqual a folder = true)
    (covers : pathPrefixOrEqual b folder = true) : a = b := by
  obtain ⟨rowA,atA⟩ := Table.has_iff.mp left
  obtain ⟨rowB,atB⟩ := Table.has_iff.mp right
  by_contra other
  have free := apart.roots a b rowA rowB atA atB other
  rw [overlaps,Bool.or_eq_false_iff] at free
  rw [pathPrefixOrEqual,List.isPrefixOf_iff_prefix] at above covers
  rcases List.prefix_or_prefix_of_prefix above covers with first | second
  · exact Bool.eq_false_iff.mp free.1 (List.isPrefixOf_iff_prefix.mpr first)
  · exact Bool.eq_false_iff.mp free.2 (List.isPrefixOf_iff_prefix.mpr second)

/-- A new root of the project would lie apart from the roots and the other projects' containers. -/
def LiesApart (s : Tables) (project root : String) : Prop :=
  nestedRoot s root = none ∧
    ∀ parent row, s.derived.get? parent = some row → row.projectId ≠ project → overlaps root parent = false

/-- New roots of one request do not nest. -/
def Separate (roots : List String) : Prop := ∀ a ∈ roots, ∀ b ∈ roots, a ≠ b → overlaps a b = false

def newRoots (s : Tables) (roots : List String) : List String := roots.filter fun root => !s.roots.has root

/-- The unregistered roots of an import's groups, with the projects they go to. -/
def newSeeds (site : Site) (s : Tables) (req : SeedImportRequest) : List (String × String) :=
  (groups (surviving site req)).flatMap fun (identity,rows) =>
    let project := seedId site.blake3 identity
    if (seedTarget s project identity).1.isSome then
      (newRoots s (rows.map (·.canonicalRoot))).map (·,project)
    else []

/-- What a step would have to check for the roots to stay apart. -/
def Clear (s : Tables) : Label → Prop
  | .register site req => Separate (newRoots s req.roots) ∧
      ∀ project, registerId site s req.sorted = .ok project →
        (∀ root ∈ newRoots s req.roots, LiesApart s project root) ∧
        ∀ parent ∈ req.derivedRootParents, s.derived.has parent = false →
          ∀ root row, s.roots.get? root = some row → row.projectId ≠ project → overlaps root parent = false
  | .upgradeImplicit site req => Separate (newRoots s req.roots) ∧
      ∀ root ∈ newRoots s req.roots, LiesApart s (upgradeId site.blake3 req) root
  | .seedImport site req => Separate ((newSeeds site s req).map (·.1)) ∧
      ∀ seed ∈ newSeeds site s req, LiesApart s seed.2 seed.1
  | .moveRootToNewProject _ req => ∀ parent row, s.derived.get? parent = some row →
      row.sourceRoot ≠ some req.root → row.projectId = req.fromProjectId → overlaps req.root parent = false
  | _ => True

section Steps

variable {s t : Tables}

theorem Apart.empty : Apart Tables.empty :=
  ⟨fun _ _ _ _ found => (by cases found),fun _ _ _ _ found => (by cases found)⟩

theorem nestedRoot_none {path : String} (free : nestedRoot s path = none) {root : String} {row : Root}
    (found : s.roots.get? root = some row) (other : root ≠ path) : overlaps path root = false := by
  have := Table.find?_none.mp free root row found
  simp only [bne_iff_ne.mpr other,Bool.true_and] at this
  rwa [overlaps_comm]

/-- Roots and containers that are dropped, or go to another project together, stay apart. -/
theorem Apart.follow (apart : Apart s) (goes : String → String)
    (roots : ∀ root row, t.roots.get? root = some row →
      ∃ old, s.roots.get? root = some old ∧ row.projectId = goes old.projectId)
    (derived : ∀ parent row, t.derived.get? parent = some row →
      ∃ old, s.derived.get? parent = some old ∧ row.projectId = goes old.projectId) : Apart t where
  roots a b rowA rowB atA atB other := by
    obtain ⟨_,beforeA,_⟩ := roots a rowA atA
    obtain ⟨_,beforeB,_⟩ := roots b rowB atB
    exact apart.roots a b _ _ beforeA beforeB other
  containers root row parent container atRoot atParent foreign := by
    obtain ⟨old,before,same⟩ := roots root row atRoot
    obtain ⟨was,earlier,same'⟩ := derived parent container atParent
    refine apart.containers root old parent was before earlier ?_
    intro equal
    rw [same,same',equal] at foreign
    exact foreign rfl

theorem Apart.drop (apart : Apart s)
    (roots : ∀ root row, t.roots.get? root = some row →
      ∃ old, s.roots.get? root = some old ∧ row.projectId = old.projectId)
    (derived : ∀ parent row, t.derived.get? parent = some row →
      ∃ old, s.derived.get? parent = some old ∧ row.projectId = old.projectId) : Apart t :=
  apart.follow id roots derived

/-- A project's roots and containers go to its heir. -/
theorem Apart.rehomed (apart : Apart s) (id heir : String)
    (roots : t.roots = s.roots.update fun _ row => if row.projectId = id then {row with projectId := heir} else row)
    (derived : t.derived = s.derived.update fun _ row => if row.projectId = id then {row with projectId := heir} else row) :
    Apart t := by
  refine apart.follow (fun project => if project = id then heir else project) ?_ ?_
  · intro root row found
    simp only [roots,Table.get?_update,Option.map_eq_some_iff] at found
    obtain ⟨old,here,rfl⟩ := found
    exact ⟨old,here,by split <;> rfl⟩
  · intro parent row found
    simp only [derived,Table.get?_update,Option.map_eq_some_iff] at found
    obtain ⟨old,here,rfl⟩ := found
    exact ⟨old,here,by split <;> rfl⟩

/-- A project's roots and containers go with it. -/
theorem Apart.without (apart : Apart s) (id : String)
    (roots : t.roots = s.roots.filter fun _ row => row.projectId ≠ id)
    (derived : t.derived = s.derived.filter fun _ row => row.projectId ≠ id) : Apart t := by
  refine apart.drop ?_ ?_
  · intro root row found
    simp only [roots,Table.get?_filter,Option.filter_eq_some_iff] at found
    exact ⟨row,found.1,rfl⟩
  · intro parent row found
    simp only [derived,Table.get?_filter,Option.filter_eq_some_iff] at found
    exact ⟨row,found.1,rfl⟩

/-- New roots and containers of one project. -/
theorem Apart.grow (apart : Apart s) {project : String} {fresh parents : List String}
    (roots : ∀ root row, t.roots.get? root = some row →
      (∃ old, s.roots.get? root = some old ∧ row.projectId = old.projectId) ∨
        (row.projectId = project ∧ root ∈ fresh))
    (derived : ∀ parent row, t.derived.get? parent = some row →
      (∃ old, s.derived.get? parent = some old ∧ row.projectId = old.projectId) ∨
        (row.projectId = project ∧ parent ∈ parents))
    (separate : Separate fresh) (lie : ∀ root ∈ fresh, LiesApart s project root)
    (free : ∀ parent ∈ parents, ∀ root row, s.roots.get? root = some row → row.projectId ≠ project →
      overlaps root parent = false) : Apart t where
  roots a b rowA rowB atA atB other := by
    rcases roots a rowA atA with ⟨_,beforeA,_⟩ | ⟨_,newA⟩ <;>
      rcases roots b rowB atB with ⟨_,beforeB,_⟩ | ⟨_,newB⟩
    · exact apart.roots a b _ _ beforeA beforeB other
    · rw [overlaps_comm]
      exact nestedRoot_none (lie b newB).1 beforeA other
    · exact nestedRoot_none (lie a newA).1 beforeB (Ne.symm other)
    · exact separate a newA b newB other
  containers root row parent container atRoot atParent foreign := by
    rcases roots root row atRoot with ⟨old,before,same⟩ | ⟨own,isNew⟩ <;>
      rcases derived parent container atParent with ⟨was,earlier,same'⟩ | ⟨own',isNew'⟩
    · exact apart.containers root old parent was before earlier (by rwa [← same,← same'])
    · exact free parent isNew' root old before (by rw [← same,← own']; exact Ne.symm foreign)
    · exact (lie root isNew).2 parent was earlier (by rw [← own,← same']; exact foreign)
    · exact absurd (own'.trans own.symm) foreign

theorem insertRoots_cases {blake3 : Digest} {project path : String} (entries : List (String × Option RootKey))
    {s : Tables} {row : Root} (found : (entries.foldl (insertRoot blake3 project) s).roots.get? path = some row) :
    (∃ old, s.roots.get? path = some old ∧ row.projectId = old.projectId) ∨
      (row.projectId = project ∧ s.roots.get? path = none ∧ path ∈ entries.map Prod.fst) := by
  induction entries generalizing s with
  | nil => exact .inl ⟨row,found,rfl⟩
  | cons entry rest ih =>
    have one : ∀ row, (insertRoot blake3 project s entry).roots.get? path = some row →
        (∃ old, s.roots.get? path = some old ∧ row.projectId = old.projectId) ∨
          (row.projectId = project ∧ s.roots.get? path = none ∧ path = entry.1) := by
      intro row found
      obtain ⟨before,here,same⟩ := assign_roots found
      rw [Table.get?_insertOrIgnore] at here
      split at here
      next at_entry =>
        cases old : s.roots.get? entry.1 with
        | none =>
          rw [old] at here
          cases here
          exact .inr ⟨same.symm,by rw [at_entry,old],at_entry⟩
        | some old_row =>
          rw [old] at here
          cases here
          exact .inl ⟨_,by rw [at_entry,old]; rfl,same.symm⟩
      next => exact .inl ⟨before,here,same.symm⟩
    rcases ih found with ⟨old,here,same⟩ | ⟨own,absent,member⟩
    · rcases one old here with ⟨first,before,same'⟩ | ⟨own,absent,at_entry⟩
      · exact .inl ⟨first,before,same.trans same'⟩
      · exact .inr ⟨same.trans own,absent,by simp [at_entry]⟩
    · refine .inr ⟨own,?_,List.mem_cons_of_mem _ member⟩
      by_contra there
      obtain ⟨old,before⟩ := Option.ne_none_iff_exists'.mp there
      cases entry with
      | mk at_path key =>
        by_cases same : path = at_path
        · subst same
          cases key <;> simp [insertRoot,assign,before] at absent
        · cases key <;> simp [insertRoot,assign,before,same] at absent

theorem insertRoots_derived {blake3 : Digest} {project : String} (entries : List (String × Option RootKey))
    (s : Tables) : (entries.foldl (insertRoot blake3 project) s).derived = s.derived := by
  induction entries generalizing s with
  | nil => rfl
  | cons entry rest ih => rw [List.foldl_cons,ih]; exact (assign_frame _ project entry.1 entry.2).2.1

theorem placeIn_rows (s : Tables) (project : String) (workspace : Option String) :
    (placeIn s project workspace).roots = s.roots ∧ (placeIn s project workspace).derived = s.derived := by
  cases workspace <;> exact ⟨rfl,rfl⟩

end Steps
section Mutations

variable {site : Site} {s s' : Tables} {action : Action}

theorem mem_newRoots {roots : List String} {root : String} :
    root ∈ newRoots s roots ↔ root ∈ roots ∧ s.roots.get? root = none := by
  simp [newRoots,Table.has]

theorem insertParents_cases {project parent : String} (parents : List String) {t : Table String DerivedParent}
    {row : DerivedParent}
    (found : (parents.foldl (fun derived parent => derived.insertOrIgnore parent ⟨project,none,none⟩) t).get?
      parent = some row) :
    t.get? parent = some row ∨ (row.projectId = project ∧ t.get? parent = none ∧ parent ∈ parents) := by
  induction parents generalizing t with
  | nil => exact .inl found
  | cons first rest ih =>
    rcases ih found with before | ⟨own,absent,member⟩
    · rw [Table.get?_insertOrIgnore] at before
      split at before
      next same =>
        cases old : t.get? first with
        | none => rw [old] at before; cases before; exact .inr ⟨rfl,by rw [same,old],by simp [same]⟩
        | some was => rw [old] at before; cases before; exact .inl (by rw [same,old]; rfl)
      next => exact .inl before
    · rw [Table.get?_insertOrIgnore] at absent
      split at absent
      next => cases absent
      next => exact .inr ⟨own,absent,List.mem_cons_of_mem _ member⟩

/-- The roots and containers of the tables a registration writes. -/
theorem registerWrites_cases {req : RegisterRequest} {project : String} {chosen : List (String × Option RootKey)} :
    (∀ root row, (registerWrites site.blake3 s req project chosen).roots.get? root = some row →
      (∃ old, s.roots.get? root = some old ∧ row.projectId = old.projectId) ∨
        (row.projectId = project ∧ s.roots.get? root = none ∧ root ∈ chosen.map Prod.fst)) ∧
    ∀ parent row, (registerWrites site.blake3 s req project chosen).derived.get? parent = some row →
      s.derived.get? parent = some row ∨
        (row.projectId = project ∧ s.derived.get? parent = none ∧ parent ∈ req.derivedRootParents) := by
  rw [registerWrites]
  constructor
  · intro root row found
    rw [(placeIn_rows _ _ _).1] at found
    dsimp only at found
    have written := insertRoots_cases chosen found
    exact written
  · intro parent row found
    rw [(placeIn_rows _ _ _).2] at found
    dsimp only at found
    rw [insertRoots_derived] at found
    exact insertParents_cases req.derivedRootParents found

/-- A registration keeps the roots apart when its new roots and containers lie apart. -/
theorem apart_registerIn {req : RegisterRequest} {rootKeys : String → Option (Option RootKey)} (apart : Apart s)
    (separate : Separate (newRoots s req.roots))
    (clear : ∀ project, registerId site s req = .ok project →
      (∀ root ∈ newRoots s req.roots, (∀ parent row, s.derived.get? parent = some row →
        row.projectId ≠ project → pathPrefixOrEqual parent root = false) → LiesApart s project root) ∧
      ∀ parent ∈ req.derivedRootParents, s.derived.has parent = false →
        ∀ root row, s.roots.get? root = some row → row.projectId ≠ project → overlaps root parent = false)
    (ok : registerIn site s req rootKeys = .ok action) : Apart action.store := by
  obtain ⟨project,chosen,routes,unchanged | written⟩ := registerIn_routes ok
  · rw [unchanged]; exact apart
  · rw [written]
    obtain ⟨roots,derived⟩ := @registerWrites_cases site s req project chosen
    obtain ⟨lie,free⟩ := clear project routes.id
    refine (@Apart.grow _ _ apart project (newRoots s req.roots)
      (req.derivedRootParents.filter fun parent => !s.derived.has parent)) ?_ ?_ separate ?_ ?_
    · intro root row found
      refine (roots root row found).imp_right ?_
      rintro ⟨own,absent,member⟩
      obtain ⟨entry,inside,rfl⟩ := List.mem_map.mp member
      exact ⟨own,mem_newRoots.mpr ⟨routes.listed entry inside,absent⟩⟩
    · intro parent row found
      rcases derived parent row found with before | ⟨own,absent,member⟩
      · exact .inl ⟨row,before,rfl⟩
      · exact .inr ⟨own,by simp [member,Table.has,absent]⟩
    · intro root isNew
      exact lie root isNew (rootFree_ok (routes.roots root (mem_newRoots.mp isNew).1))
    · intro parent isNew
      obtain ⟨member,absent⟩ := List.mem_filter.mp isNew
      exact free parent member (by simpa using absent)

theorem mem_sorted_roots {req : RegisterRequest} {root : String} : root ∈ req.sorted.roots ↔ root ∈ req.roots :=
  mem_sortDedup

theorem apart_register {req : RegisterRequest} (apart : Apart s) (clear : Clear s (.register site req))
    (ok : register site s req = .ok action) : Apart action.store := by
  obtain ⟨_,_,ok⟩ := bind_ok ok
  obtain ⟨_,_,ok⟩ := bind_ok ok
  obtain ⟨_,_,ok⟩ := bind_ok ok
  obtain ⟨_,_,ok⟩ := bind_ok ok
  obtain ⟨separate,free⟩ := clear
  have sorted : ∀ root, root ∈ newRoots s req.sorted.roots ↔ root ∈ newRoots s req.roots := by
    intro root
    rw [mem_newRoots,mem_newRoots,mem_sorted_roots]
  refine apart_registerIn apart (fun a memberA b memberB => ?_) ?_ ok
  · exact separate a ((sorted a).mp memberA) b ((sorted b).mp memberB)
  · intro project named
    obtain ⟨lie,parents⟩ := free project named
    refine ⟨fun root isNew _ => lie root ((sorted root).mp isNew),?_⟩
    intro parent member
    exact parents parent (mem_sortDedup.mp member)

theorem apart_upgradeImplicit {req : UpgradeImplicitRequest} (apart : Apart s)
    (clear : Clear s (.upgradeImplicit site req)) (ok : upgradeImplicit site s req = .ok action) :
    Apart action.store := by
  rcases upgradeImplicit_routes ok with unchanged | ⟨chosen,checked,written⟩
  · rw [unchanged]; exact apart
  · rw [written]
    obtain ⟨separate,lie⟩ := clear
    refine (@Apart.grow _ _ apart _ (newRoots s req.roots) []) ?_ ?_ separate lie
      (fun _ member => absurd member List.not_mem_nil)
    · intro root row found
      rw [upgradeWrites,(placeIn_rows _ _ _).1] at found
      refine (insertRoots_cases chosen found).imp_right ?_
      rintro ⟨own,absent,member⟩
      obtain ⟨entry,inside,rfl⟩ := List.mem_map.mp member
      exact ⟨own,mem_newRoots.mpr ⟨(checked entry inside).1,absent⟩⟩
    · intro parent row found
      rw [upgradeWrites,(placeIn_rows _ _ _).2] at found
      dsimp only at found
      rw [insertRoots_derived] at found
      exact .inl ⟨row,found,rfl⟩

theorem mem_newSeeds {req : SeedImportRequest} {group : String × List SeedPair} {pair : SeedPair}
    (inside : group ∈ groups (surviving site req)) (member : pair ∈ group.2)
    (unregistered : s.roots.get? pair.canonicalRoot = none)
    (target : (seedTarget s (seedId site.blake3 group.1) group.1).1.isSome = true) :
    (pair.canonicalRoot,seedId site.blake3 group.1) ∈ newSeeds site s req := by
  rw [newSeeds,List.mem_flatMap]
  refine ⟨group,inside,?_⟩
  simp only [target,if_true]
  refine List.mem_map.mpr ⟨_,mem_newRoots.mpr ⟨?_,unregistered⟩,rfl⟩
  exact List.mem_map.mpr ⟨pair,member,rfl⟩

theorem apart_seedImport {req : SeedImportRequest} (apart : Apart s) (clear : Clear s (.seedImport site req))
    (ok : seedImport site s req = .ok action) : Apart action.store := by
  obtain ⟨separate,lie⟩ := clear
  -- so far the roots are apart, and each is an old one or a seed
  let holds (t : Tables) : Prop := Apart t ∧ t.derived = s.derived ∧
    ∀ root row, t.roots.get? root = some row →
      (∃ old, s.roots.get? root = some old) ∨ root ∈ (newSeeds site s req).map (·.1)
  suffices holds action.store from this.1
  refine seedImport_routes holds ?_ ?_ ⟨apart,rfl,fun root row found => .inl ⟨row,found⟩⟩ ok
  · rintro t t' roots derived _ ⟨now,same,where_from⟩
    refine ⟨now.drop ?_ ?_,derived.trans same,by rwa [roots]⟩
    · intro root row found
      exact ⟨row,by rwa [roots] at found,rfl⟩
    · intro parent row found
      exact ⟨row,by rwa [derived] at found,rfl⟩
  · rintro t group pair key inside member unregistered target _ ⟨now,same,where_from⟩
    have seed := mem_newSeeds inside member unregistered target
    have lies := lie _ seed
    have listed : pair.canonicalRoot ∈ (newSeeds site s req).map (·.1) := List.mem_map.mpr ⟨_,seed,rfl⟩
    have one : ∀ root row, (insertRoot site.blake3 (seedId site.blake3 group.1) t (pair.canonicalRoot,key)).roots.get?
        root = some row → (∃ old, t.roots.get? root = some old ∧ row.projectId = old.projectId) ∨
          (row.projectId = seedId site.blake3 group.1 ∧ root ∈ [pair.canonicalRoot]) := by
      intro root row found
      refine (insertRoots_cases [(pair.canonicalRoot,key)] found).imp_right ?_
      rintro ⟨own,_,at_root⟩
      exact ⟨own,at_root⟩
    have containers : (insertRoot site.blake3 (seedId site.blake3 group.1) t (pair.canonicalRoot,key)).derived =
        t.derived := (assign_frame _ _ _ _).2.1
    refine ⟨?_,containers.trans same,?_⟩
    · refine (@Apart.grow _ _ now _ [pair.canonicalRoot] []) one ?_ ?_ ?_
        (fun _ nothing => absurd nothing List.not_mem_nil)
      · intro parent row found
        rw [containers] at found
        exact .inl ⟨row,found,rfl⟩
      · intro a atA b atB other
        rw [List.mem_singleton.mp atA,List.mem_singleton.mp atB] at other
        exact absurd rfl other
      · intro root at_root
        rw [List.mem_singleton.mp at_root]
        refine ⟨?_,by rw [same]; exact lies.2⟩
        refine Table.find?_none.mpr ?_
        intro other row found
        by_cases itself : other = pair.canonicalRoot
        · simp [itself]
        · have free : overlaps pair.canonicalRoot other = false := by
            rcases where_from other row found with ⟨old,before⟩ | seeded
            · exact nestedRoot_none lies.1 before itself
            · exact separate _ listed other seeded (Ne.symm itself)
          rw [overlaps_comm] at free
          rw [overlaps] at free
          simp [free]
    · intro root row found
      rcases one root row found with ⟨old,before,_⟩ | ⟨_,at_root⟩
      · exact where_from root old before
      · rw [List.mem_singleton.mp at_root]
        exact .inr listed

theorem checkRootLocation_ok {root : String} (ok : checkRootLocation s root = .ok ()) (project : String) :
    LiesApart s project root := by
  rw [checkRootLocation] at ok
  split at ok
  next => cases ok
  next free =>
    split at ok
    next => cases ok
    next clear =>
      refine ⟨free,?_⟩
      intro parent row found _
      have := Table.find?_none.mp clear parent row found
      rwa [overlaps,Bool.or_comm]

/-- One root that lies apart. -/
theorem apart_insertRoot (apart : Apart s) {blake3 : Digest} {project root : String} {key : Option RootKey}
    (lies : LiesApart s project root) : Apart (insertRoot blake3 project s (root,key)) := by
  refine (@Apart.grow _ _ apart project [root] []) ?_ ?_ ?_ ?_
    (fun _ nothing => absurd nothing List.not_mem_nil)
  · intro path row found
    refine (insertRoots_cases [(root,key)] found).imp_right ?_
    rintro ⟨own,_,at_root⟩
    exact ⟨own,at_root⟩
  · intro parent row found
    have containers : (insertRoot blake3 project s (root,key)).derived = s.derived := (assign_frame _ _ _ _).2.1
    rw [containers] at found
    exact .inl ⟨row,found,rfl⟩
  · intro a atA b atB other
    rw [List.mem_singleton.mp atA,List.mem_singleton.mp atB] at other
    exact absurd rfl other
  · intro path at_root
    rw [List.mem_singleton.mp at_root]
    exact lies

theorem apart_addRoot {req : AddRootRequest} (apart : Apart s) (ok : addRoot site s req = .ok action) :
    Apart action.store := by
  rcases addRoot_routes ok with unchanged | ⟨key,_,checked,_,written⟩
  · rw [unchanged]; exact apart
  · rw [written]; exact apart_insertRoot apart (checkRootLocation_ok checked _)

theorem apart_attachRoot {req : AttachRootRequest} (apart : Apart s) (ok : attachRoot site s req = .ok action) :
    Apart action.store := by
  rcases attachRoot_routes ok with unchanged | ⟨project,key,_,checked,_,written⟩
  · rw [unchanged]; exact apart
  · rw [written]; exact apart_insertRoot apart (checkRootLocation_ok checked _)

theorem applyRemoveRoot_rows (blake3 : Digest) (s : Tables) (project removed : String) :
    (∀ root row, (applyRemoveRoot blake3 s project removed).roots.get? root = some row →
      root ≠ removed ∧ s.roots.get? root = some row) ∧
    ∀ parent row, (applyRemoveRoot blake3 s project removed).derived.get? parent = some row →
      row.sourceRoot ≠ some removed ∧ s.derived.get? parent = some row := by
  constructor
  · intro root row found
    simp only [applyRemoveRoot,Table.get?_erase] at found
    split at found
    next => cases found
    next other => exact ⟨other,found⟩
  · intro parent row found
    simp only [applyRemoveRoot,Table.get?_filter,Option.filter_eq_some_iff] at found
    exact ⟨by simpa using found.2,found.1⟩

theorem apart_removeRoot {req : RemoveRootRequest} (apart : Apart s) (ok : removeRoot site s req = .ok action) :
    Apart action.store := by
  rw [removeRoot_routes ok]
  obtain ⟨roots,derived⟩ := applyRemoveRoot_rows site.blake3 s req.projectId req.root
  exact apart.drop (fun root row found => ⟨row,(roots root row found).2,rfl⟩)
    fun parent row found => ⟨row,(derived parent row found).2,rfl⟩

theorem detached_rows (blake3 : Digest) (s : Tables) (req : MoveRootToNewProjectRequest) (key : Option RootKey) :
    (∀ root row, (detached blake3 s req key).roots.get? root = some row →
      root ≠ req.root ∧ ∃ old, s.roots.get? root = some old ∧ row.projectId = old.projectId) ∧
    ∀ parent row, (detached blake3 s req key).derived.get? parent = some row →
      row.sourceRoot ≠ some req.root ∧ s.derived.get? parent = some row := by
  obtain ⟨roots,derived⟩ := applyRemoveRoot_rows blake3 s req.fromProjectId req.root
  cases key with
  | none =>
    refine ⟨?_,derived⟩
    intro root row found
    obtain ⟨other,before⟩ := roots root row found
    exact ⟨other,row,before,rfl⟩
  | some key =>
    refine ⟨?_,derived⟩
    intro root row found
    obtain ⟨before,here,same,_⟩ := clearUnownedMappings_roots found
    obtain ⟨other,stored⟩ := roots root before here
    exact ⟨other,before,stored,same.symm⟩

/-- The moved root lies where it lay; only containers of the project it left can overlap it. -/
theorem apart_moveRootToNewProject {req : MoveRootToNewProjectRequest} (apart : Apart s)
    (clear : Clear s (.moveRootToNewProject site req)) (ok : moveRootToNewProject site s req = .ok action) :
    Apart action.store := by
  obtain ⟨row,registered,found,owner,_,is_registered,written⟩ := moveRootToNewProject_routes ok
  obtain ⟨roots,derived⟩ := detached_rows site.blake3 s req (mappedKey site s req.root)
  have away : Apart (detached site.blake3 s req (mappedKey site s req.root)) :=
    apart.drop (fun root row found => (roots root row found).2)
      fun parent row found => ⟨row,(derived parent row found).2,rfl⟩
  have only : ∀ root ∈ newRoots (detached site.blake3 s req (mappedKey site s req.root)) req.registration.roots,
      root = req.root := fun root isNew => List.mem_singleton.mp (mem_newRoots.mp isNew).1
  rw [written]
  refine apart_registerIn away ?_ ?_ is_registered
  · intro a atA b atB other
    rw [only a atA,only b atB] at other
    exact absurd rfl other
  · intro project _
    refine ⟨?_,fun _ nothing => absurd nothing List.not_mem_nil⟩
    intro root isNew _
    rw [only root isNew]
    refine ⟨Table.find?_none.mpr ?_,?_⟩
    · intro other otherRow here
      obtain ⟨apart_from,old,before,_⟩ := roots other otherRow here
      have free := apart.roots other req.root old row before found apart_from
      rw [overlaps] at free
      simp [free]
    · intro parent container here foreign
      obtain ⟨unattached,before⟩ := derived parent container here
      by_cases own : container.projectId = req.fromProjectId
      · exact clear parent container before unattached own
      · exact apart.containers req.root row parent container found before (by rwa [owner])

theorem apart_attachDerivedParent {req : AttachDerivedParentRequest} (apart : Apart s)
    (ok : attachDerivedParent site s req = .ok action) : Apart action.store := by
  rcases attachDerivedParent_routes ok with unchanged | ⟨_,free,attached,_,written⟩
  · rw [unchanged]; exact apart
  · rw [written]
    refine ⟨apart.roots,?_⟩
    intro root row parent container atRoot atParent foreign
    rw [Table.get?_insert] at atParent
    split at atParent
    next same =>
      rw [same,overlaps,Bool.or_eq_false_iff]
      exact free root row atRoot
    next => exact apart.containers root row parent container atRoot atParent foreign

theorem apart_remove {req : RemoveRequest} (apart : Apart s) (ok : remove site s req = .ok action) :
    Apart action.store := by
  rcases remove_ok ok with ⟨workspace,_,written⟩ | ⟨id,_,_,_,_,written⟩
  · rw [written]
    exact apart.drop (fun root row found => ⟨row,found,rfl⟩) fun parent row found => ⟨row,found,rfl⟩
  · rw [written,removeProject.eq_def]
    split
    next heir _ => exact apart.rehomed id heir rfl rfl
    next => exact apart.without id rfl rfl

/-- Deleted projects take their roots and containers along, to the same successor. -/
theorem apart_cascade {e : ProjectEntry} (ids : List String) {t : Tables} (apart : Apart t) :
    Apart (ids.foldl (cascadeProject e) t) := by
  induction ids generalizing t with
  | nil => exact apart
  | cons id rest ih =>
    refine ih ?_
    rw [cascadeProject]
    split
    next heir _ => exact apart.rehomed id heir rfl rfl
    next => exact apart.without id rfl rfl

theorem apart_apply {e : ProjectEntry} (apart : Apart s) (ok : e.apply s = some s') : Apart s' := by
  obtain ⟨_,_,rfl⟩ := apply_ok ok
  have parents : Apart {s with
      workspaces := upsertTable s.workspaces e.workspaces.upsert
      projects := upsertTable s.projects e.projects.upsert} :=
    apart.drop (fun root row found => ⟨row,found,rfl⟩) fun parent row found => ⟨row,found,rfl⟩
  have followed := apart_cascade (e := e) e.projects.delete parents
  rw [ProjectEntry.restore]
  split
  next => exact followed.drop (fun root row found => ⟨row,found,rfl⟩) fun parent row found => ⟨row,found,rfl⟩
  next =>
    refine followed.drop ?_ fun parent row found => ⟨row,found,rfl⟩
    intro root row found
    obtain ⟨before,here,same,_⟩ := clearUnownedMappings_roots found
    exact ⟨before,here,same.symm⟩

end Mutations

theorem apart_next {s s' : Tables} {label : Label} (apart : Apart s) (clear : Clear s label)
    (taken : next s label = some s') : Apart s' := by
  cases label with
  | register site req =>
    obtain ⟨_,ok,rfl⟩ := committed_eq_some taken
    exact apart_register apart clear ok
  | upgradeImplicit site req =>
    obtain ⟨_,ok,rfl⟩ := committed_eq_some taken
    exact apart_upgradeImplicit apart clear ok
  | seedImport site req =>
    obtain ⟨_,ok,rfl⟩ := committed_eq_some taken
    exact apart_seedImport apart clear ok
  | addRoot site req =>
    obtain ⟨_,ok,rfl⟩ := committed_eq_some taken
    exact apart_addRoot apart ok
  | attachRoot site req =>
    obtain ⟨_,ok,rfl⟩ := committed_eq_some taken
    exact apart_attachRoot apart ok
  | removeRoot site req =>
    obtain ⟨_,ok,rfl⟩ := committed_eq_some taken
    exact apart_removeRoot apart ok
  | moveRootToNewProject site req =>
    obtain ⟨_,ok,rfl⟩ := committed_eq_some taken
    exact apart_moveRootToNewProject apart clear ok
  | attachDerivedParent site req =>
    obtain ⟨_,ok,rfl⟩ := committed_eq_some taken
    exact apart_attachDerivedParent apart ok
  | assignWorkspace site req =>
    obtain ⟨_,ok,rfl⟩ := committed_eq_some taken
    obtain ⟨roots,derived,_⟩ := assignWorkspace_routes ok
    exact apart.drop (fun root row found => ⟨row,by rwa [roots] at found,rfl⟩)
      fun parent row found => ⟨row,by rwa [derived] at found,rfl⟩
  | remove site req =>
    obtain ⟨_,ok,rfl⟩ := committed_eq_some taken
    exact apart_remove apart ok
  | entry change => exact apart_apply apart taken
  | snapshot image supersedes => exact apart_apply apart (installSnapshot_ok taken)

/-- In every run whose registrations, upgrades, imports and moves write only roots and
containers that lie apart, no root is nested in another and none overlaps a container of
another project, so a folder lies under one root at most. -/
theorem roots_never_nest {s : Tables} (reached : Reach next Clear Tables.empty s) :
    (∀ a b, s.roots.has a = true → s.roots.has b = true → a ≠ b → pathPrefixOrEqual a b = false) ∧
    (∀ root row parent container, s.roots.get? root = some row → s.derived.get? parent = some container →
      container.projectId ≠ row.projectId →
        pathPrefixOrEqual root parent = false ∧ pathPrefixOrEqual parent root = false) ∧
    ∀ folder a b, s.roots.has a = true → s.roots.has b = true →
      pathPrefixOrEqual a folder = true → pathPrefixOrEqual b folder = true → a = b := by
  have apart := reached.invariant Apart .empty fun _ _ _ apart clear taken => apart_next apart clear taken
  refine ⟨?_,?_,fun folder a b left right above covers => apart.unique left right above covers⟩
  · intro a b left right other
    obtain ⟨rowA,atA⟩ := Table.has_iff.mp left
    obtain ⟨rowB,atB⟩ := Table.has_iff.mp right
    exact (Bool.or_eq_false_iff.mp (apart.roots a b rowA rowB atA atB other)).1
  · intro root row parent container atRoot atParent foreign
    exact Bool.or_eq_false_iff.mp (apart.containers root row parent container atRoot atParent foreign)

namespace Nested
open Reminted

theorem apart_registered : ∃ s, next Tables.empty (registration none "ab" ["/a","/b"]) = some s ∧
    s.roots.has "/a" = true ∧ s.roots.has "/b" = true ∧ pathPrefixOrEqual "/a" "/b" = false := by
  have runs : (next Tables.empty (registration none "ab" ["/a","/b"])).isSome = true := by decide +kernel
  obtain ⟨s,ran⟩ := Option.isSome_iff_exists.mp runs
  have facts : (next Tables.empty (registration none "ab" ["/a","/b"])).all (fun s =>
      s.roots.has "/a" && s.roots.has "/b") = true := by decide +kernel
  rw [ran,Option.all_some,Bool.and_eq_true] at facts
  have clear : Clear Tables.empty (registration none "ab" ["/a","/b"]) := by
    refine ⟨by unfold Separate; decide +kernel,?_⟩
    intro project _
    exact ⟨fun root _ => ⟨rfl,fun _ _ found => by cases found⟩,fun _ nothing => absurd nothing List.not_mem_nil⟩
  have law := (roots_never_nest (.step _ .refl clear ran)).1 "/a" "/b" facts.1 facts.2 (by decide)
  exact ⟨s,ran,facts.1,facts.2,law⟩

/-- A folder inside a registered root is registered as a root of another project. -/
theorem roots_nest : ¬ ∀ s, Reach next Free Tables.empty s → ∀ folder a b,
    s.roots.has a = true → s.roots.has b = true →
    pathPrefixOrEqual a folder = true → pathPrefixOrEqual b folder = true → a = b := by
  intro law
  let labels : List Label := [registration none "a" ["/a"],registration none "b" ["/a/b"]]
  have runs : (exec next Tables.empty labels).isSome = true := by decide +kernel
  obtain ⟨s,ran⟩ := Option.isSome_iff_exists.mp runs
  have facts : (exec next Tables.empty labels).all (fun s =>
      s.roots.has "/a" && s.roots.has "/a/b") = true := by decide +kernel
  rw [ran,Option.all_some,Bool.and_eq_true] at facts
  have one := law s (exec_reach ran) "/a/b/c" "/a" "/a/b" facts.1 facts.2 (by decide +kernel) (by decide +kernel)
  exact absurd one (by decide +kernel)

end Nested

end Entorhinal.Registry
