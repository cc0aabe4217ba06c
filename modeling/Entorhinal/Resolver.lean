import Mathlib.Data.List.Find
import Mathlib.Data.List.Sort
import Entorhinal.PackageTypes
import Entorhinal.Traverse
import Entorhinal.Search
import Entorhinal.Semver

/-! The closure of a package: passes over the required packages, each picking from
the ranges recorded so far, until a pass records no new one. -/
namespace Entorhinal.Resolver

open Package Semver

inductive RefField
  | extends
  | skills
  | flows
  | memoryProfile
  | delegatesTo
deriving DecidableEq, Repr

def RefField.kind : RefField → Kind
  | .extends | .delegatesTo => .persona
  | .skills => .skill
  | .flows => .flow
  | .memoryProfile => .memoryProfile

structure BodyRef where
  field : RefField
  package : String
deriving DecidableEq, Repr

structure RegistryVersion where
  version : String
  kind : Kind
  status : State
  requires : Requires
  refs : List BodyRef
deriving DecidableEq, Repr

abbrev Registry := Table String (List RegistryVersion)

structure Root where
  package : String
  range : String
deriving DecidableEq, Repr

structure AskedRange where
  requestedBy : String
  range : String
deriving DecidableEq, Repr

inductive ResolveError
  | pinConflict (package pinnedVersion range requestedBy : String)
  | packageNotFound (package : String)
  | rangeInvalid (package range requestedBy : String)
  | versionInvalid (package version : String)
  | noMatchingVersion (package : String) (ranges : List AskedRange)
  | rangeConflict (package : String) (ranges : List AskedRange)
  | dependencyCycle (cycle : List String)
  | bodyRefMissing (package : String) (field : RefField) (reference : String)
  | kindMismatch (package : String) (field : RefField) (reference : String) (expected found : Kind)
deriving DecidableEq, Repr

inductive Direction
  | added
  | removed
  | down
  | same
  | up
deriving DecidableEq, Repr

structure Move where
  fromVersion : Option String
  toVersion : Option String
  direction : Direction
deriving DecidableEq, Repr

structure Resolution where
  picks : Table String String
  moves : Option (Table String Move)
deriving DecidableEq, Repr

/-- The ranges asked of a package, by who asks. -/
abbrev Ranges := Table String (Table String String)

/-- What the requester asked of the package. -/
def asked (ranges : Ranges) (pkg requester : String) : Option String :=
  ((ranges.get? pkg).getD ∅).get? requester

abbrev Picks := Table String RegistryVersion

def requester (pkg version : String) : String := pkg ++ "@" ++ version

def parseVersion (pkg version : String) : Except ResolveError Version :=
  match Version.parse version with
  | some parsed => .ok parsed
  | none => .error (.versionInvalid pkg version)

def parseRange (pkg : String) (asked : String × String) : Except ResolveError Range :=
  match Range.parse asked.2 with
  | some range => .ok range
  | none => .error (.rangeInvalid pkg asked.2 asked.1)

def isUsable (caps : List String) (rv : RegistryVersion) : Bool :=
  rv.status == .available && rv.requires.capabilities.all (caps.contains ·)

abbrev Candidate := RegistryVersion × Version

/-- The higher version first, then the text of the version. -/
def precedes (a b : Candidate) : Prop := (b.2.cmp a.2).then (compare a.1.version b.1.version) ≠ .gt

instance (a b : Candidate) : Decidable (precedes a b) := inferInstanceAs (Decidable (_ ≠ _))

def parseUsable (caps : List String) (pkg : String) (versions : List RegistryVersion) :
    Except ResolveError (List Candidate) :=
  (versions.filter (isUsable caps)).mapM fun rv => do return (rv,← parseVersion pkg rv.version)

/-- No version of the package fits the ranges: one of them fits none, or they conflict. -/
def noCandidate (pkg : String) (asked : List (String × String)) (parsed : List Range)
    (usable : List Candidate) : ResolveError :=
  let each := parsed.all fun range => usable.any fun c => range.satisfies c.2
  let detail := asked.map fun x => AskedRange.mk x.1 x.2
  if 1 < parsed.length ∧ each = true then .rangeConflict pkg detail else .noMatchingVersion pkg detail

def pickVersion (registry : Registry) (caps : List String) (ranges : Ranges) (pkg : String) :
    Except ResolveError RegistryVersion :=
  match registry.get? pkg with
  | none => .error (.packageNotFound pkg)
  | some versions => do
    let asked := ((ranges.get? pkg).getD ∅).rows
    let parsed ← asked.mapM (parseRange pkg)
    let usable ← parseUsable caps pkg versions
    let candidates := usable.filter fun c => parsed.all (·.satisfies c.2)
    match candidates.insertionSort precedes with
    | [] => .error (noCandidate pkg asked parsed usable)
    | pick :: _ => .ok pick.1

/-- Records a requirement, unless its requester asked before. -/
def recordRange (asker : String) (state : Ranges × Bool) (required : String × String) : Ranges × Bool :=
  let recorded := (state.1.get? required.1).getD ∅
  if recorded.has asker then (state.1.insert required.1 recorded,state.2)
  else (state.1.insert required.1 (recorded.insert asker required.2),true)

/-- What a pass has so far; `added` says that it recorded a range. -/
structure Pass where
  picks : Picks
  ranges : Ranges
  added : Bool

def Pass.pick (pass : Pass) (pkg : String) (pick : RegistryVersion) : Pass :=
  let recorded := pick.requires.packages.rows.foldl (recordRange (requester pkg pick.version))
    (pass.ranges,pass.added)
  ⟨pass.picks.insert pkg pick,recorded.1,recorded.2⟩

/-- The registry's packages that have no pick yet. -/
def unpicked (registry : Registry) (picks : Picks) : Nat :=
  registry.keys.countP fun pkg => !picks.has pkg

/-- More than any version requires. -/
def mostRequired (registry : Registry) : Nat :=
  (registry.rows.map fun x => (x.2.map fun rv => rv.requires.packages.size).sum).sum + 1

/-- The sorted list starts with the first of those that nothing precedes. -/
theorem insertionSort_first {α : Type} {r : α → α → Prop} [DecidableRel r] {items rest : List α} {first : α}
    (sorted : items.insertionSort r = first :: rest) :
    ∃ front back, items = front ++ first :: back ∧ ∀ a ∈ front, ¬ r a first := by
  induction items generalizing first rest with
  | nil => cases sorted
  | cons a items ih =>
    rw [List.insertionSort_cons] at sorted
    cases tail : items.insertionSort r with
    | nil =>
      rw [tail] at sorted
      cases sorted
      exact ⟨[],items,rfl,fun _ none => absurd none List.not_mem_nil⟩
    | cons b others =>
      rw [tail,List.orderedInsert_cons] at sorted
      split at sorted
      next =>
        cases sorted
        exact ⟨[],items,rfl,fun _ none => absurd none List.not_mem_nil⟩
      next later =>
        cases sorted
        obtain ⟨front,back,shape,behind⟩ := ih tail
        refine ⟨a :: front,back,by rw [shape,List.cons_append],fun x inside => ?_⟩
        rcases List.mem_cons.mp inside with rfl | inside
        · exact later
        · exact behind x inside

theorem compareNat_self (n : Nat) : compare n n = .eq := compare_eq_iff_eq.mpr rfl

theorem compareIds_self (x : String) : compareIds x x = .eq := by
  unfold compareIds
  cases isNumeric x.toList <;> simp

theorem comparePre_self (ids : List String) : comparePre ids ids = .eq := by
  induction ids with
  | nil => rfl
  | cons x xs ih => rw [comparePre,compareIds_self,ih]; rfl

theorem cmp_self (v : Version) : v.cmp v = .eq := by
  unfold Version.cmp
  rw [compareNat_self,compareNat_self,compareNat_self]
  cases v.pre.isEmpty <;> exact comparePre_self v.pre

theorem precedes_same {a b : Candidate} (version : a.2 = b.2) (text : a.1.version = b.1.version) :
    precedes a b := by
  rw [precedes,version,text,cmp_self]
  simp

/-- The first usable version of the package with that text. -/
def entryOf (registry : Registry) (caps : List String) (pkg version : String) : Option RegistryVersion :=
  (registry.get? pkg).bind fun versions =>
    (versions.filter (isUsable caps)).find? fun rv => rv.version == version

/-- What a package is picked as: the first usable version with its text, and one that
every recorded range admits. -/
structure Picked (registry : Registry) (caps : List String) (ranges : Ranges) (pkg : String)
    (pick : RegistryVersion) : Prop where
  entry : entryOf registry caps pkg pick.version = some pick
  admitted : ∃ version, Version.parse pick.version = some version ∧
    ∀ requester text, asked ranges pkg requester = some text →
      ∃ range, Range.parse text = some range ∧ range.satisfies version = true

theorem parseVersion_ok {pkg text : String} {version : Version}
    (ok : parseVersion pkg text = .ok version) : Version.parse text = some version := by
  unfold parseVersion at ok
  split at ok
  next parsed => rw [parsed]; cases ok; rfl
  next => cases ok

theorem parseRange_ok {pkg : String} {asked : String × String} {range : Range}
    (ok : parseRange pkg asked = .ok range) : Range.parse asked.2 = some range := by
  unfold parseRange at ok
  split at ok
  next parsed => rw [parsed]; cases ok; rfl
  next => cases ok

theorem pickVersion_ok {registry : Registry} {caps : List String} {ranges : Ranges} {pkg : String}
    {pick : RegistryVersion} (picked : pickVersion registry caps ranges pkg = .ok pick) :
    Picked registry caps ranges pkg pick := by
  unfold pickVersion at picked
  split at picked
  next => cases picked
  next versions found =>
    obtain ⟨parsed,ranges',picked⟩ := bind_ok picked
    obtain ⟨usable,listed,picked⟩ := bind_ok picked
    dsimp only at picked
    split at picked
    next => cases picked
    next first rest sorted =>
      cases picked
      have texts : usable.map Prod.fst = versions.filter (isUsable caps) := by
        refine (mapM_map id Prod.fst (fun rv c made => ?_) listed).trans (List.map_id _)
        obtain ⟨version,_,made⟩ := bind_ok made
        cases made
        rfl
      have parses : ∀ c ∈ usable, Version.parse c.1.version = some c.2 := by
        intro c member
        obtain ⟨rv,_,made⟩ := mapM_ok listed c member
        obtain ⟨version,parse,made⟩ := bind_ok made
        cases made
        exact parseVersion_ok parse
      obtain ⟨front,back,shape,behind⟩ := insertionSort_first sorted
      have candidate : first ∈ usable.filter fun c => parsed.all (·.satisfies c.2) :=
        shape ▸ List.mem_append_right _ List.mem_cons_self
      obtain ⟨inside,satisfied⟩ := List.mem_filter.mp candidate
      have same_version : ∀ c ∈ usable, c.1.version = first.1.version → c.2 = first.2 := by
        intro c member same
        have parse := parses c member
        rw [same,parses first inside] at parse
        exact (Option.some.inj parse).symm
      refine ⟨?_,first.2,parses first inside,?_⟩
      · -- A version with the same text is admitted too, so the first of them is the pick.
        have among : (usable.filter fun c => parsed.all (·.satisfies c.2)).find?
            (fun c => c.1.version == first.1.version) = some first := by
          rw [shape]
          refine List.find?_eq_some_iff_append.mpr ⟨beq_self_eq_true _,front,back,rfl,fun c member => ?_⟩
          rw [Bool.not_eq_true',beq_eq_false_iff_ne]
          intro same
          have listed : c ∈ usable := (List.mem_filter.mp (shape ▸ List.mem_append_left _ member)).1
          exact behind c member (precedes_same (same_version c listed same) same)
        rw [List.find?_filter] at among
        have every : usable.find? (fun c => c.1.version == first.1.version) = some first := by
          rw [← among]
          refine List.find?_congr fun c member => ?_
          by_cases same : c.1.version = first.1.version
          · rw [same_version c member same,satisfied,same,beq_self_eq_true]
            rfl
          · rw [beq_eq_false_iff_ne.mpr same]
            simp only [Bool.false_eq_true,and_false,decide_false]
        rw [entryOf,found,Option.bind_some,← texts,List.find?_map]
        exact congrArg (Option.map Prod.fst) every
      · intro requester text recorded
        obtain ⟨range,listed,parse⟩ := mapM_item ranges' (requester,text) (Table.mem_rows.mpr recorded)
        exact ⟨range,parseRange_ok parse,List.all_eq_true.mp satisfied range listed⟩

theorem Picked.listed {registry : Registry} {caps : List String} {ranges : Ranges} {pkg : String}
    {pick : RegistryVersion} (picked : Picked registry caps ranges pkg pick) :
    ∃ versions, registry.get? pkg = some versions ∧ pick ∈ versions ∧ isUsable caps pick = true := by
  obtain ⟨versions,found,first⟩ := Option.bind_eq_some_iff.mp picked.entry
  have member := List.mem_filter.mp (List.mem_of_find?_eq_some first)
  exact ⟨versions,found,member.1,member.2⟩

theorem unpicked_lt {registry : Registry} {picks : Picks} {pkg : String} (pick : RegistryVersion)
    (listed : registry.has pkg = true) (fresh : ¬ picks.has pkg = true) :
    unpicked registry (picks.insert pkg pick) < unpicked registry picks := by
  refine Search.Graph.countP_lt (fun other => ?_) (Table.mem_keys.mpr listed) ?_ ?_
  · rw [Table.has_insert]
    simp only [Bool.not_or,Bool.and_eq_true]
    exact And.right
  · rw [Table.has_insert]
    simp
  · rw [Bool.eq_false_iff.mpr fresh]
    rfl

theorem required_lt {registry : Registry} {pkg : String} {versions : List RegistryVersion}
    {rv : RegistryVersion} (found : registry.get? pkg = some versions) (member : rv ∈ versions) :
    rv.requires.packages.keys.length < mostRequired registry := by
  have inner : rv.requires.packages.size ≤ (versions.map fun rv => rv.requires.packages.size).sum :=
    Search.Graph.le_sum (List.mem_map_of_mem member)
  have outer : (versions.map fun rv => rv.requires.packages.size).sum ≤
      (registry.rows.map fun x => (x.2.map fun rv => rv.requires.packages.size).sum).sum :=
    Search.Graph.le_sum (List.mem_map.mpr ⟨(pkg,versions),Table.mem_rows.mpr found,rfl⟩)
  rw [Table.keys,List.length_map]
  exact Nat.lt_succ_of_le (Nat.le_trans inner outer)

/-- One pass: picks each queued package once and queues what the pick requires. -/
def visit (registry : Registry) (caps : List String) (pass : Pass) (queue : List String) :
    Except ResolveError Pass :=
  match queue with
  | [] => .ok pass
  | pkg :: queue =>
    if pass.picks.has pkg then visit registry caps pass queue
    else match _picked : pickVersion registry caps pass.ranges pkg with
      | .error e => .error e
      | .ok pick => visit registry caps (pass.pick pkg pick) (queue ++ pick.requires.packages.keys)
termination_by unpicked registry pass.picks * mostRequired registry + queue.length
decreasing_by
  · rw [List.length_cons]
    omega
  · rename_i fresh
    obtain ⟨versions,found,member,_⟩ := (pickVersion_ok _picked).listed
    have fewer := Nat.mul_le_mul_right (mostRequired registry) (Nat.succ_le_of_lt
      (unpicked_lt pick (Table.has_iff.mpr ⟨versions,found⟩) fresh))
    have short := required_lt found member
    rw [Nat.succ_mul] at fewer
    show unpicked registry (pass.picks.insert pkg pick) * _ + _ < _
    rw [List.length_append,List.length_cons]
    omega

/-- Every range that a pass can record. -/
def askable (registry : Registry) : List (String × String) :=
  registry.rows.flatMap fun x => x.2.flatMap fun rv =>
    rv.requires.packages.keys.map fun dep => (dep,requester x.1 rv.version)

def unrecorded (registry : Registry) (ranges : Ranges) : Nat :=
  (askable registry).countP fun x => (asked ranges x.1 x.2).isNone

theorem asked_insert (ranges : Ranges) (pkg : String) (requesters : Table String String) (dep other : String) :
    asked (ranges.insert pkg requesters) dep other =
      if dep = pkg then requesters.get? other else asked ranges dep other := by
  rw [asked,asked,Table.get?_insert]
  split
  next => rfl
  next => rfl

theorem asked_recordRange (asker : String) (state : Ranges × Bool) (required : String × String)
    (dep other : String) : asked (recordRange asker state required).1 dep other =
      (asked state.1 dep other).or (if dep = required.1 ∧ other = asker then some required.2 else none) := by
  unfold recordRange
  dsimp only
  split
  next has =>
    rw [asked_insert]
    split
    next same =>
      subst same
      by_cases own : other = asker
      · subst own
        obtain ⟨text,found⟩ := Table.has_iff.mp has
        rw [asked,found]
        rfl
      · rw [if_neg (fun both => own both.2),Option.or_none]
        rfl
    next other' => rw [if_neg (fun both => other' both.1),Option.or_none]
  next missing =>
    rw [asked_insert]
    split
    next same =>
      subst same
      rw [Table.get?_insert]
      by_cases own : other = asker
      · subst own
        have none : asked state.1 required.1 other = none := by
          rw [asked]
          exact Option.not_isSome_iff_eq_none.mp missing
        rw [if_pos rfl,if_pos ⟨rfl,rfl⟩,none]
        rfl
      · rw [if_neg own,if_neg (fun both => own both.2),Option.or_none]
        rfl
    next other' => rw [if_neg (fun both => other' both.1),Option.or_none]

theorem added_recordRange (asker : String) (state : Ranges × Bool) (required : String × String) :
    (recordRange asker state required).2 = true ↔ state.2 = true ∨ asked state.1 required.1 asker = none := by
  unfold recordRange asked
  dsimp only
  split
  next has =>
    obtain ⟨text,found⟩ := Table.has_iff.mp has
    rw [found]
    simp
  next missing =>
    rw [Option.not_isSome_iff_eq_none.mp missing]
    simp

/-- Requirements of one requester are recorded where it has none. -/
theorem recordRanges (asker : String) (rows : List (String × String)) (state : Ranges × Bool) :
    (∀ dep other, asked (rows.foldl (recordRange asker) state).1 dep other =
      (asked state.1 dep other).or (if other = asker then Table.lookup rows dep else none)) ∧
    ((rows.foldl (recordRange asker) state).2 = true ↔
      state.2 = true ∨ ∃ x ∈ rows, asked state.1 x.1 asker = none) := by
  induction rows generalizing state with
  | nil =>
    refine ⟨fun dep other => ?_,?_⟩
    · rw [Table.lookup,ite_self,Option.or_none]
      rfl
    · simp
  | cons x rows ih =>
    obtain ⟨texts,flag⟩ := ih (recordRange asker state x)
    rw [List.foldl_cons]
    refine ⟨fun dep other => ?_,?_⟩
    · rw [texts,asked_recordRange,Option.or_assoc,Table.lookup]
      congr 1
      by_cases own : other = asker
      · rw [if_pos own,if_pos own]
        by_cases same : dep = x.1
        · rw [if_pos ⟨same,own⟩,if_pos same.symm]
          rfl
        · rw [if_neg (fun both => same both.1),if_neg (Ne.symm same)]
          rfl
      · rw [if_neg (fun both => own both.2),if_neg own,if_neg own]
        rfl
    · rw [flag,added_recordRange]
      constructor
      · rintro ((before | first) | ⟨y,inside,none⟩)
        · exact .inl before
        · exact .inr ⟨x,List.mem_cons_self,first⟩
        · rw [asked_recordRange,Option.or_eq_none_iff] at none
          exact .inr ⟨y,List.mem_cons_of_mem _ inside,none.1⟩
      · rintro (before | ⟨y,inside,none⟩)
        · exact .inl (.inl before)
        · rcases List.mem_cons.mp inside with rfl | later
          · exact .inl (.inr none)
          · by_cases same : y.1 = x.1
            · exact .inl (.inr (same ▸ none))
            · refine .inr ⟨y,later,?_⟩
              rw [asked_recordRange,none,if_neg (fun both => same both.1)]
              rfl

theorem asked_pick (pass : Pass) (pkg : String) (pick : RegistryVersion) (dep other : String) :
    asked (pass.pick pkg pick).ranges dep other = (asked pass.ranges dep other).or
      (if other = requester pkg pick.version then pick.requires.packages.get? dep else none) :=
  (recordRanges (requester pkg pick.version) pick.requires.packages.rows (pass.ranges,pass.added)).1 dep other

theorem added_pick (pass : Pass) (pkg : String) (pick : RegistryVersion) :
    (pass.pick pkg pick).added = true ↔ pass.added = true ∨
      ∃ dep text, pick.requires.packages.get? dep = some text ∧
        asked pass.ranges dep (requester pkg pick.version) = none := by
  refine (recordRanges (requester pkg pick.version) pick.requires.packages.rows
    (pass.ranges,pass.added)).2.trans (or_congr_right ?_)
  constructor
  · rintro ⟨x,inside,none⟩
    exact ⟨x.1,x.2,Table.mem_rows.mp inside,none⟩
  · rintro ⟨dep,text,found,none⟩
    exact ⟨(dep,text),Table.mem_rows.mpr found,none⟩

theorem mem_askable {registry : Registry} {caps : List String} {ranges : Ranges} {pkg dep text : String}
    {pick : RegistryVersion} (picked : Picked registry caps ranges pkg pick)
    (required : pick.requires.packages.get? dep = some text) :
    (dep,requester pkg pick.version) ∈ askable registry := by
  obtain ⟨versions,found,member,_⟩ := picked.listed
  refine List.mem_flatMap.mpr ⟨(pkg,versions),Table.mem_rows.mpr found,List.mem_flatMap.mpr ⟨pick,member,?_⟩⟩
  exact List.mem_map.mpr ⟨dep,Table.mem_keys.mpr (Table.has_iff.mpr ⟨text,required⟩),rfl⟩

/-- A pass keeps what was asked; when it adds a range, that is a new one of the askable. -/
theorem visit_grows {registry : Registry} {caps : List String} {pass pass' : Pass} {queue : List String}
    (ok : visit registry caps pass queue = .ok pass') :
    (∀ dep other, asked pass'.ranges dep other = none → asked pass.ranges dep other = none) ∧
    (pass'.added = true → pass.added = true ∨ ∃ x ∈ askable registry,
      asked pass.ranges x.1 x.2 = none ∧ asked pass'.ranges x.1 x.2 ≠ none) := by
  fun_induction visit with
  | case1 pass => cases ok; exact ⟨fun _ _ none => none,.inl⟩
  | case2 pass pkg queue seen ih => exact ih ok
  | case3 pass pkg queue fresh e failed => cases ok
  | case4 pass pkg queue fresh pick picked ih =>
    obtain ⟨kept,grew⟩ := ih ok
    have before (dep other : String) (absent : asked (pass.pick pkg pick).ranges dep other = none) :
        asked pass.ranges dep other = none := by
      rw [asked_pick,Option.or_eq_none_iff] at absent
      exact absent.1
    refine ⟨fun dep other none => before dep other (kept dep other none),fun added => ?_⟩
    rcases grew added with here | ⟨x,inside,none,some⟩
    · rcases (added_pick pass pkg pick).mp here with already | ⟨dep,text,required,none⟩
      · exact .inl already
      · refine .inr ⟨_,mem_askable (pickVersion_ok picked) required,none,fun gone => ?_⟩
        have lost := kept dep _ gone
        rw [asked_pick,none,if_pos rfl,required] at lost
        cases lost
    · exact .inr ⟨x,inside,before x.1 x.2 none,some⟩

theorem unrecorded_lt {registry : Registry} {caps : List String} {ranges : Ranges} {pass : Pass}
    {queue : List String} (ok : visit registry caps ⟨∅,ranges,false⟩ queue = .ok pass)
    (added : pass.added = true) : unrecorded registry pass.ranges < unrecorded registry ranges := by
  obtain ⟨kept,grew⟩ := visit_grows ok
  obtain ⟨x,inside,none,some⟩ := (grew added).resolve_left Bool.false_ne_true
  refine Search.Graph.countP_lt (fun y => ?_) inside ?_ ?_
  · rw [Option.isNone_iff_eq_none,Option.isNone_iff_eq_none]
    exact kept y.1 y.2
  · rw [Option.isNone_eq_false_iff,Option.isSome_iff_ne_none]
    exact some
  · rw [none]
    rfl

/-- Passes with the ranges recorded so far, until one records none. -/
def closure (registry : Registry) (root : Root) (caps : List String) (ranges : Ranges) :
    Except ResolveError Picks :=
  match _visited : visit registry caps ⟨∅,ranges,false⟩ [root.package] with
  | .error e => .error e
  | .ok pass => if pass.added then closure registry root caps pass.ranges else .ok pass.picks
termination_by unrecorded registry ranges
decreasing_by exact unrecorded_lt _visited ‹_›

/-- The packages that the pick of a package requires. -/
def required (picks : Picks) (pkg : String) : List String :=
  match picks.get? pkg with
  | some pick => pick.requires.packages.keys
  | none => []

def requirements (picks : Picks) : Search.Graph String where
  nodes := picks.keys
  next := required picks
  listed pkg some := by
    unfold required at some
    split at some
    next pick found => exact Table.mem_keys.mpr (Table.has_iff.mpr ⟨pick,found⟩)
    next => exact absurd rfl some

def checkCycle (picks : Picks) (root : String) : Except ResolveError Unit :=
  match (requirements picks).walk (Search.Graph.start root) with
  | .error cycle => .error (.dependencyCycle cycle)
  | .ok () => .ok ()

def checkDeclared (picks : Picks) : Except ResolveError Unit :=
  picks.rows.forM fun x => x.2.refs.forM fun r =>
    if x.2.requires.packages.has r.package then .ok ()
    else .error (.bodyRefMissing x.1 r.field r.package)

def checkKinds (picks : Picks) : Except ResolveError Unit :=
  picks.rows.forM fun x => x.2.refs.forM fun r =>
    match picks.get? r.package with
    | none => .error (.packageNotFound r.package)
    | some pick =>
      if pick.kind = r.field.kind then .ok ()
      else .error (.kindMismatch x.1 r.field r.package r.field.kind pick.kind)

def direction (pkg : String) : Option String → Option String → Except ResolveError Direction
  | none,_ => .ok .added
  | _,none => .ok .removed
  | some fromVersion,some toVersion => do
    let newer ← parseVersion pkg toVersion
    let older ← parseVersion pkg fromVersion
    return match newer.cmp older with
      | .lt => .down
      | .eq => .same
      | .gt => .up

def moveOf (pins out : Table String String) (pkg : String) : Except ResolveError (String × Move) := do
  let moved ← direction pkg (pins.get? pkg) (out.get? pkg)
  return (pkg,⟨pins.get? pkg,out.get? pkg,moved⟩)

/-- A move for each package that is pinned or picked. -/
def movesOf (pins out : Table String String) : Except ResolveError (Table String Move) := do
  let names : Table String Unit := Table.insertAll ∅ ((pins.keys ++ out.keys).map (·,()))
  let moves ← names.keys.mapM (moveOf pins out)
  return Table.insertAll ∅ moves

def resolve (registry : Registry) (root : Root) (caps : List String) (pins : Option (Table String String)) :
    Except ResolveError Resolution := do
  let ranges : Ranges := (∅ : Ranges).insert root.package ((∅ : Table String String).insert "(root)" root.range)
  let picks ← closure registry root caps ranges
  checkCycle picks root.package
  checkDeclared picks
  checkKinds picks
  let out := picks.update fun _ pick => pick.version
  match pins with
  | none => return ⟨out,none⟩
  | some pins => do
    let moves ← movesOf pins out
    return ⟨out,some moves⟩

end Entorhinal.Resolver
