import Entorhinal.Abides
import Entorhinal.RemoteEntry

/-! What an installation may change: the parts of a store under one preorder each, along which every statement of an
arm goes. -/
namespace Entorhinal.Remote

section Rules

abbrev Machine := MachineTable → List Row

/-- How the agents and claims, the members' names and the machine's own tables may change. -/
structure Rules where
  identity : Identity → Identity → Prop
  names : Table String String → Table String String → Prop
  machine : Machine → Machine → Prop
  identityOrder : IsPreorder Identity identity
  namesOrder : IsPreorder (Table String String) names
  machineOrder : IsPreorder Machine machine

variable {F R : Type} {rules : Rules}

/-- The store changes by the rules, and neither in its other tables nor in its position. -/
structure Rules.Holds (rules : Rules) (s t : Store F R) : Prop where
  identity : rules.identity s.identity t.identity
  names : rules.names s.memberNames t.memberNames
  machine : rules.machine s.machine t.machine
  rest : t.rest = s.rest
  position : t.lastAppliedPosition = s.lastAppliedPosition

instance : IsPreorder (Store F R) rules.Holds where
  refl _ := ⟨rules.identityOrder.refl _,rules.namesOrder.refl _,rules.machineOrder.refl _,rfl,rfl⟩
  trans _ _ _ a b := ⟨rules.identityOrder.trans _ _ _ a.identity b.identity,rules.namesOrder.trans _ _ _ a.names b.names,
    rules.machineOrder.trans _ _ _ a.machine b.machine,b.rest.trans a.rest,b.position.trans a.position⟩

/-- The shared tables and the journal are under no rule. -/
theorem Rules.still {s t : Store F R} (identity : t.identity = s.identity) (names : t.memberNames = s.memberNames)
    (machine : t.machine = s.machine) (rest : t.rest = s.rest) (position : t.lastAppliedPosition = s.lastAppliedPosition) :
    rules.Holds s t :=
  ⟨identity ▸ rules.identityOrder.refl _,names ▸ rules.namesOrder.refl _,machine ▸ rules.machineOrder.refl _,rest,
    position⟩

theorem Rules.wrote {s : Store F R} {identity : Identity} (so : rules.identity s.identity identity) :
    rules.Holds s { s with identity := identity } :=
  ⟨so,rules.namesOrder.refl _,rules.machineOrder.refl _,rfl,rfl⟩

theorem Rules.named {s : Store F R} {names : Table String String} (so : rules.names s.memberNames names) :
    rules.Holds s { s with memberNames := names } :=
  ⟨rules.identityOrder.refl _,so,rules.machineOrder.refl _,rfl,rfl⟩

theorem Rules.moved {s : Store F R} {table : MachineTable} {rows : List Row}
    (so : rules.machine s.machine fun t => if t = table then rows else s.machine t) : rules.Holds s (s.setMachine table rows) :=
  ⟨rules.identityOrder.refl _,rules.namesOrder.refl _,so,rfl,rfl⟩

theorem Rules.shared {s : Store F R} {table : SharedTable} {rows : List Row} : rules.Holds s (s.setShared table rows) :=
  Rules.still rfl rfl rfl rfl rfl

theorem Rules.journaled {s : Store F R} {seq : Int} {f : JournalRow F → JournalRow F} : rules.Holds s (s.journaled seq f) :=
  Rules.still rfl rfl rfl rfl rfl

theorem Rules.appended {s : Store F R} {op actor principal : String} {payload : Payload F} {now : Int} :
    rules.Holds s (append op payload actor now principal s).1 :=
  Rules.still rfl rfl rfl rfl rfl

theorem Rules.tagged {s : Store F R} {seq : Int} {entry : RemoteEntry} {payload : Payload F} :
    rules.Holds s (tag seq entry payload s) :=
  Rules.journaled

end Rules

section Statements
variable {F R : Type} {outside : Outside F R} {rules : Rules}

theorem execute_ok {write : Store F R → Store F R} {s t : Store F R} (ok : execute outside write s = .ok t) : t = write s := by
  rw [execute] at ok
  split at ok
  · exact (Except.ok.inj ok).symm
  · cases ok

theorem execute_keeps {write : Store F R → Store F R} (so : ∀ s, rules.Holds s (write s)) :
    Abides rules.Holds (execute outside write) :=
  fun s _ ok => execute_ok ok ▸ so s

theorem upsertRow_holds {table : SharedTable} {row : Row} (s : Store F R) : rules.Holds s (upsertRow table row s) := Rules.shared

theorem upsertTable_keeps {entry : ProjectEntry F} {table : SharedTable} :
    Abides rules.Holds fun s => upsertTable outside entry table s :=
  Abides.fold fun _ _ => Abides.given fun _ => execute_keeps upsertRow_holds

/-- An after-image writes its own row and its own claims. -/
theorem replay_keeps {entry : AgentChangeEntry} (row : ∀ i, rules.identity i (i.writeRow entry.row))
    (claims : ∀ claim ∈ entry.claims, ∀ i, rules.identity i (i.writeClaim claim)) :
    Abides rules.Holds fun s => replayAgentEntry outside entry s :=
  Abides.branch Abides.ret (Abides.bind (execute_keeps fun s => Rules.wrote (row s.identity))
    (Abides.fold fun claim inside => execute_keeps fun s => Rules.wrote (claims claim inside s.identity)))

theorem member_keeps {name : MemberName} (so : ∀ names, rules.names names (names.insert name.author name.displayName)) :
    Abides rules.Holds fun s => restoreMemberName outside name s :=
  Abides.given fun _ => execute_keeps fun s => Rules.named (so s.memberNames)

theorem pins_keeps {set : CatalogPinSet} : Abides rules.Holds fun s => set.restore outside s :=
  Abides.given fun _ => Abides.bind (execute_keeps upsertRow_holds)
    (Abides.bind (execute_keeps fun _ => Rules.shared) (Abides.fold fun _ _ => execute_keeps fun _ => Rules.shared))

theorem expertise_keeps {scope : UserScope} {value : Cell} : Abides rules.Holds fun s => restoreExpertise outside scope value s :=
  Abides.branch (execute_keeps fun _ => Rules.shared) (execute_keeps upsertRow_holds)

theorem profile_keeps {field : String} {value : Cell} : Abides rules.Holds fun s => restoreProfile outside field value s := by
  refine Abides.bind (execute_keeps fun s => ?_) (Abides.bind (execute_keeps fun _ => Rules.shared)
    (execute_keeps fun _ => Rules.shared))
  split
  · exact refl s
  · exact Rules.shared

theorem user_keeps {user : UserEntry F} : Abides rules.Holds fun s => user.restore outside s := by
  refine Abides.given fun _ => Abides.given fun value => ?_
  cases user.scope with
  | some scope => exact expertise_keeps
  | none => exact profile_keeps

end Statements

section Cascade

@[simp] theorem Row.get_set_ne {row : Row} {column other : String} {cell : Cell} (apart : other ≠ column) :
    (row.set column cell).get other = row.get other := by
  simp only [Row.get,Row.set]
  induction row with
  | nil => rfl
  | cons c rest ih =>
    obtain ⟨name,old⟩ := c
    rw [List.map_cons]
    split
    next here =>
      cases here
      rw [List.lookup_cons,List.lookup_cons,beq_false_of_ne apart]
      exact ih
    next =>
      rw [List.lookup_cons,List.lookup_cons]
      cases other == name with
      | true => rfl
      | false => exact ih

theorem Row.of_iff {row : Row} {column : String} {cell : Cell} :
    row.of column cell = true ↔ row.get column = cell ∧ cell ≠ .null := by
  simp [Row.of]

/-- The projects and the workspaces that an entry deletes, and whether it deletes root keys. -/
structure Gone where
  projects : List Cell
  workspaces : List Cell
  rootKeys : Bool

def ProjectEntry.gone {F R : Type} (outside : Outside F R) (entry : ProjectEntry F) : Gone where
  projects := (entry.changes .project).delete.filterMap fun row => (asText row "project_id").map .text
  workspaces := (entry.changes .workspace).delete.filterMap fun row =>
    (sqlValue ((row.get? "workspace_id").getD .null)).toOption.map (outside.affinity .workspace "workspace_id")
  rootKeys := !(entry.changes .projectRootKey).delete.isEmpty

/-- A row as it is afterwards: a root of a deleted project may be of another, and without its key where keys are
deleted. -/
structure Gone.Follows (gone : Gone) (table : MachineTable) (row after : Row) : Prop where
  same : table ≠ .projectRoot → table ≠ .derivedRootParent → after = row
  others : ∀ column, column ≠ "project_id" → column ≠ "root_key" → column ≠ "root_key_kind" →
    after.get column = row.get column
  project : row.get "project_id" ∉ gone.projects → after.get "project_id" = row.get "project_id"
  key : table ≠ .projectRoot ∨ gone.rootKeys = false →
    after.get "root_key" = row.get "root_key" ∧ after.get "root_key_kind" = row.get "root_key_kind"

/-- The rows of what is deleted, and the index of the placements. -/
def Gone.Taken (gone : Gone) (m : Machine) (table : MachineTable) (row : Row) : Prop :=
  match table with
  | .workspaceRoot => row.get "workspace_id" ∈ gone.workspaces
  | .workspaceMember => row.get "workspace_id" ∈ gone.workspaces ∨ row.of "ref_kind" (.text "local") = true
  | .projectRoot | .derivedRootParent | .rootBinding => row.get "project_id" ∈ gone.projects
  | .retiredBinding => False
  | .rootApproval => ∃ b ∈ m .rootBinding, b.get "project_id" ∈ gone.projects ∧
    row.get "registration_epoch" = b.get "registration_epoch"

/-- A retired binding of a deleted project, or a placement. -/
def Gone.Born (gone : Gone) (m : Machine) (table : MachineTable) (row : Row) : Prop :=
  (table = .retiredBinding ∧ ∃ b ∈ m .rootBinding, b.get "project_id" ∈ gone.projects ∧
    ∀ column ∈ ["registration_epoch","canonical_root","project_id","incarnation"], row.get column = b.get column) ∨
  (table = .workspaceMember ∧ row.of "ref_kind" (.text "local") = true)

/-- Only what is deleted goes, and what is new tells of it. -/
structure Gone.Cascades (gone : Gone) (m m' : Machine) : Prop where
  stays : ∀ table, ∀ row ∈ m table, ¬ gone.Taken m table row → ∃ after ∈ m' table, gone.Follows table row after
  comes : ∀ table, ∀ after ∈ m' table, (∃ row ∈ m table, gone.Follows table row after) ∨ gone.Born m table after

variable {gone : Gone}

theorem Gone.Follows.refl {table : MachineTable} (row : Row) : gone.Follows table row row :=
  ⟨fun _ _ => rfl,fun _ _ _ _ => rfl,fun _ => rfl,fun _ => ⟨rfl,rfl⟩⟩

theorem Gone.Follows.trans {table : MachineTable} {a b c : Row} (first : gone.Follows table a b)
    (second : gone.Follows table b c) : gone.Follows table a c where
  same root derived := (second.same root derived).trans (first.same root derived)
  others column p k l := (second.others column p k l).trans (first.others column p k l)
  project apart := (second.project (by rw [first.project apart]; exact apart)).trans (first.project apart)
  key so := ⟨(second.key so).1.trans (first.key so).1,(second.key so).2.trans (first.key so).2⟩

/-- A deleted project's row was one before. -/
theorem Gone.Follows.before {table : MachineTable} {a b : Row} (follows : gone.Follows table a b)
    (inside : b.get "project_id" ∈ gone.projects) : a.get "project_id" ∈ gone.projects := by
  by_contra apart
  exact apart (follows.project apart ▸ inside)

theorem Gone.Cascades.binding {m m' : Machine} (cascades : gone.Cascades m m') {b : Row} (inside : b ∈ m' .rootBinding) :
    b ∈ m .rootBinding := by
  rcases cascades.comes .rootBinding b inside with ⟨row,member,follows⟩ | ⟨off,_⟩ | ⟨off,_⟩
  · rw [follows.same (by decide) (by decide)]
    exact member
  · cases off
  · cases off

theorem Gone.Taken.before {m m' : Machine} {table : MachineTable} {row after : Row} (cascades : gone.Cascades m m')
    (follows : gone.Follows table row after) (taken : gone.Taken m' table after) : gone.Taken m table row := by
  cases table with
  | workspaceRoot | workspaceMember => exact follows.same (by decide) (by decide) ▸ taken
  | projectRoot | derivedRootParent | rootBinding => exact follows.before taken
  | retiredBinding => exact taken
  | rootApproval =>
    obtain ⟨b,inside,project,epoch⟩ := taken
    exact ⟨b,cascades.binding inside,project,follows.same (by decide) (by decide) ▸ epoch⟩

instance : IsPreorder Machine gone.Cascades where
  refl _ := ⟨fun _ row inside _ => ⟨row,inside,.refl row⟩,fun _ row inside => .inl ⟨row,inside,.refl row⟩⟩
  trans m m' m'' a b := by
    refine ⟨fun table row inside apart => ?_,fun table after inside => ?_⟩
    · obtain ⟨middle,member,follows⟩ := a.stays table row inside apart
      obtain ⟨after,last,follows'⟩ := b.stays table middle member fun taken => apart (taken.before a follows)
      exact ⟨after,last,follows.trans follows'⟩
    · rcases b.comes table after inside with ⟨middle,member,follows'⟩ | ⟨is,binding,member,project,columns⟩ | local'
      · rcases a.comes table middle member with ⟨row,first,follows⟩ | ⟨is,binding,first,project,columns⟩ | ⟨is,kind⟩
        · exact .inl ⟨row,first,follows.trans follows'⟩
        · cases is
          rw [follows'.same (by decide) (by decide)]
          exact .inr (.inl ⟨rfl,binding,first,project,columns⟩)
        · cases is
          rw [follows'.same (by decide) (by decide)]
          exact .inr (.inr ⟨rfl,kind⟩)
      · exact .inr (.inl ⟨is,binding,a.binding member,project,columns⟩)
      · exact .inr (.inr local')

/-- The rows of one table are written. -/
theorem Gone.Cascades.table {m : Machine} {table : MachineTable} {rows : List Row}
    (stays : ∀ row ∈ m table, ¬ gone.Taken m table row → ∃ after ∈ rows, gone.Follows table row after)
    (comes : ∀ after ∈ rows, (∃ row ∈ m table, gone.Follows table row after) ∨ gone.Born m table after) :
    gone.Cascades m fun t => if t = table then rows else m t := by
  refine ⟨fun t row inside apart => ?_,fun t after inside => ?_⟩
  · by_cases here : t = table
    · cases here
      simpa using stays row inside apart
    · exact ⟨row,by simpa [here] using inside,.refl row⟩
  · split at inside
    next here =>
      cases here
      exact comes after inside
    next => exact .inl ⟨after,inside,.refl after⟩

theorem Gone.Cascades.dropped {m : Machine} {table : MachineTable} {keep : Row → Bool}
    (taken : ∀ row ∈ m table, keep row = false → gone.Taken m table row) :
    gone.Cascades m fun t => if t = table then (m table).filter keep else m t := by
  refine .table (fun row inside apart => ⟨row,List.mem_filter.mpr ⟨inside,?_⟩,.refl row⟩)
    fun after inside => .inl ⟨after,List.mem_of_mem_filter inside,.refl after⟩
  by_contra off
  exact apart (taken row inside (Bool.eq_false_iff.mpr off))

theorem Gone.Cascades.rewritten {m : Machine} {table : MachineTable} {f : Row → Row}
    (follows : ∀ row ∈ m table, gone.Follows table row (f row)) :
    gone.Cascades m fun t => if t = table then (m table).map f else m t := by
  refine .table (fun row inside _ => ⟨f row,List.mem_map_of_mem inside,follows row inside⟩) fun after inside => ?_
  obtain ⟨row,member,rfl⟩ := List.mem_map.mp inside
  exact .inl ⟨row,member,follows row member⟩

end Cascade

section Projects
variable {F R : Type} {outside : Outside F R} {rules : Rules} {entry : ProjectEntry F}

theorem mem_workspaces {row : SharedRow F} {cell : Cell} (inside : row ∈ (entry.changes .workspace).delete)
    (ok : sqlValue ((row.get? "workspace_id").getD .null) = .ok cell) :
    outside.affinity .workspace "workspace_id" cell ∈ (entry.gone outside).workspaces :=
  List.mem_filterMap.mpr ⟨row,inside,by rw [ok]; rfl⟩

theorem mem_projects {row : SharedRow F} {id : String} (inside : row ∈ (entry.changes .project).delete)
    (is : asText row "project_id" = some id) : .text id ∈ (entry.gone outside).projects :=
  List.mem_filterMap.mpr ⟨row,inside,by rw [is]; rfl⟩

/-- A root or a derived root goes to the project that takes the deleted one's name, or with it. -/
theorem follow_cascades {id : String} (gone : Cell.text id ∈ (entry.gone outside).projects) {successor : Option String}
    {table : MachineTable} (root : table = .projectRoot ∨ table = .derivedRootParent) (m : Machine) :
    (entry.gone outside).Cascades m fun t => if t = table then match successor with
      | some project => (m table).map fun row =>
        if (row.of "project_id" (.text id) && true) = true then row.set "project_id" (.text project) else row
      | none => (m table).filter fun row => !(row.of "project_id" (.text id) && true)
    else m t := by
  cases successor with
  | some project =>
    refine .rewritten fun row _ => ?_
    split
    next own =>
      obtain ⟨is,_⟩ := Row.of_iff.mp (by simpa using own)
      exact ⟨by rcases root with rfl | rfl <;> simp,fun column apart _ _ => Row.get_set_ne apart,
        fun off => absurd (is ▸ gone) off,fun _ => ⟨Row.get_set_ne (by decide),Row.get_set_ne (by decide)⟩⟩
    next => exact .refl row
  | none =>
    refine .dropped fun row _ off => ?_
    have own : row.get "project_id" ∈ (entry.gone outside).projects := (Row.of_iff.mp (by simpa using off)).1 ▸ gone
    rcases root with rfl | rfl <;> exact own

variable (cascades : ∀ m m', (entry.gone outside).Cascades m m' → rules.machine m m')
include cascades

theorem dropWorkspace_keeps {row : SharedRow F} {cell : Cell} (inside : row ∈ (entry.changes .workspace).delete)
    (ok : sqlValue ((row.get? "workspace_id").getD .null) = .ok cell) :
    Abides rules.Holds fun s => dropWorkspace outside (outside.affinity .workspace "workspace_id" cell) s := by
  have gone : outside.affinity .workspace "workspace_id" cell ∈ (entry.gone outside).workspaces := mem_workspaces inside ok
  refine Abides.bind (execute_keeps fun s => Rules.moved (cascades _ _ (.dropped fun row _ off => ?_)))
    (execute_keeps fun s => Rules.moved (cascades _ _ (.dropped fun row _ off => ?_)))
  · obtain ⟨is,_⟩ := Row.of_iff.mp (by simpa using off)
    exact show row.get "workspace_id" ∈ _ from is ▸ gone
  · obtain ⟨is,_⟩ := Row.of_iff.mp (by simpa using off)
    exact .inl (is ▸ gone)

theorem retire_keeps {id : String} (gone : Cell.text id ∈ (entry.gone outside).projects) {seq : Int} :
    Abides rules.Holds fun s => retireProjectBindings outside id seq s := by
  intro s t ok
  obtain ⟨one,first,ok⟩ := bind_ok ok
  obtain ⟨two,second,third⟩ := bind_ok ok
  have bound : ∀ b ∈ (s.machine .rootBinding).filter (·.of "project_id" (.text id)),
      b ∈ s.machine .rootBinding ∧ b.get "project_id" ∈ (entry.gone outside).projects := by
    intro b inside
    obtain ⟨member,own⟩ := List.mem_filter.mp inside
    exact ⟨member,(Row.of_iff.mp own).1 ▸ gone⟩
  have retired : rules.Holds s one := by
    rw [execute_ok first]
    refine Rules.moved (cascades _ _ (.table (fun row inside _ => ⟨row,List.mem_append_left _ inside,.refl row⟩)
      fun after inside => ?_))
    rcases List.mem_append.mp inside with old | new
    · exact .inl ⟨after,old,.refl after⟩
    · obtain ⟨b,member,rfl⟩ := List.mem_map.mp new
      exact .inr (.inl ⟨rfl,b,(bound b member).1,(bound b member).2,by simp [Row.get,List.lookup_cons]⟩)
  have bindings : one.machine .rootBinding = s.machine .rootBinding := by
    rw [execute_ok first]
    simp [Store.setMachine]
  have approved : rules.Holds one two := by
    rw [execute_ok second]
    refine Rules.moved (cascades _ _ (.dropped fun row _ off => ?_))
    obtain ⟨b,member,own⟩ := List.any_eq_true.mp (by simpa only [Bool.not_eq_false'] using off)
    exact ⟨b,bindings ▸ (bound b member).1,(bound b member).2,(Row.of_iff.mp own).1⟩
  have unbound : rules.Holds two t := by
    rw [execute_ok third]
    refine Rules.moved (cascades _ _ (.dropped fun row _ off => ?_))
    exact show row.get "project_id" ∈ _ from (Row.of_iff.mp (by simpa using off)).1 ▸ gone
  exact IsTrans.trans _ _ _ retired (IsTrans.trans _ _ _ approved unbound)

theorem dropProject_keeps {id : String} (gone : Cell.text id ∈ (entry.gone outside).projects) {seq : Int} :
    Abides rules.Holds fun s => dropProject outside entry id seq s :=
  Abides.bind (retire_keeps cascades gone) (Abides.bind
    (execute_keeps fun s => Rules.moved (cascades _ _ (follow_cascades gone (.inl rfl) s.machine)))
    (Abides.bind (execute_keeps fun s => Rules.moved (cascades _ _ (follow_cascades gone (.inr rfl) s.machine)))
      (execute_keeps fun _ => Rules.shared)))

theorem cascadeLocal_keeps {seq : Int} : Abides rules.Holds fun s => cascadeLocal outside entry seq s := by
  refine Abides.bind (Abides.fold fun row inside s t ok => ?_) (Abides.fold fun row inside s t ok => ?_)
  · obtain ⟨cell,read,ok⟩ := bind_ok ok
    exact dropWorkspace_keeps cascades inside read s t ok
  · split at ok
    next => cases ok
    next id is => exact dropProject_keeps cascades (mem_projects inside is) s t ok

theorem deleteRow_holds {table : SharedTable} {row : SharedRow F} {cells : Row} (inside : row ∈ (entry.changes table).delete)
    (read : cellsOf outside table table.keys row = .ok cells) (s : Store F R) : rules.Holds s (deleteRow table cells s) := by
  have removed : rules.Holds s (s.setShared table ((s.shared table).filter fun row => !agrees table.keys cells row)) :=
    Rules.shared
  refine IsTrans.trans _ _ _ removed ?_
  cases table with
  | workspace =>
    refine IsTrans.trans _ _ _ (IsTrans.trans _ _ _ Rules.shared Rules.shared)
      (Rules.moved (cascades _ _ (.dropped fun other _ off => ?_)))
    simp only [Bool.not_eq_false',List.contains_iff_mem,List.mem_map] at off
    obtain ⟨old,member,same⟩ := off
    have key := List.all_eq_true.mp (List.mem_filter.mp member).2 "workspace_id" (by decide)
    obtain ⟨out,made,ok⟩ := bind_ok (show (_ >>= fun c => _) = Except.ok cells from read)
    obtain ⟨cell,value,rfl⟩ := map_ok made
    cases ok
    have is : outside.affinity .workspace "workspace_id" cell = old.get "workspace_id" := by
      simpa [Row.get] using key
    exact show other.get "workspace_id" ∈ _ from same ▸ is ▸ mem_workspaces inside value
  | project => exact Rules.shared
  | workspaceDocument | projectWorkspace | projectAlias | projectRootKey | catalogPinSet | catalogPin | userProfile
    | userExpertise => exact refl _

theorem deleteTable_keeps {table : SharedTable} : Abides rules.Holds fun s => deleteTable outside entry table s := by
  refine Abides.fold fun row inside s t ok => ?_
  obtain ⟨cells,read,ok⟩ := bind_ok ok
  exact execute_keeps (deleteRow_holds cascades inside read) s t ok

theorem rebuildMembers_holds (s : Store F R) : rules.Holds s (rebuildMembers s) := by
  refine Rules.moved (cascades _ _ (.table (fun row inside apart => ?_) fun after inside => ?_))
  · refine ⟨row,List.mem_append_left _ (List.mem_filter.mpr ⟨inside,?_⟩),.refl row⟩
    by_contra placed
    exact apart (.inr (by simpa using placed))
  · rcases List.mem_append.mp inside with old | new
    · exact .inl ⟨after,List.mem_of_mem_filter old,.refl after⟩
    · obtain ⟨row,_,rfl⟩ := List.mem_map.mp new
      exact .inr (.inr ⟨rfl,by simp [Row.of,Row.get,List.lookup_cons]⟩)

theorem clearUnowned_holds (deletes : (entry.changes .projectRootKey).delete.isEmpty = false) (s : Store F R) :
    rules.Holds s (clearUnownedMappings s) := by
  refine Rules.moved (cascades _ _ (.rewritten fun row _ => ?_))
  split
  · refine ⟨fun off => absurd rfl off,fun column _ key kind => ?_,fun _ => ?_,fun so => ?_⟩
    · rw [unkeyed,Row.get_set_ne kind,Row.get_set_ne key]
    · rw [unkeyed,Row.get_set_ne (by decide),Row.get_set_ne (by decide)]
    · rcases so with off | off
      · exact absurd rfl off
      · simp [ProjectEntry.gone,deletes] at off
  · exact .refl row

omit cascades in
theorem carriedName_keeps (names : ∀ name ∈ entry.memberName, ∀ n, rules.names n (n.insert name.author name.displayName)) :
    Abides rules.Holds fun s => restoreCarriedName outside entry s := by
  intro s t ok
  simp only [restoreCarriedName] at ok
  split at ok
  next name named => exact member_keeps (names name named) s t ok
  next => exact Abides.ret s t ok

theorem apply_keeps [DecidableEq F] {seq : Int}
    (names : ∀ name ∈ entry.memberName, ∀ n, rules.names n (n.insert name.author name.displayName))
    (agents : ∀ agent ∈ entry.agents, Abides rules.Holds fun s => replayAgentEntry outside agent s) :
    Abides rules.Holds fun s => entry.apply outside seq s := by
  refine Abides.given fun _ => Abides.bind (carriedName_keeps names) (Abides.bind upsertTable_keeps (Abides.bind upsertTable_keeps
    (Abides.bind (cascadeLocal_keeps cascades) (Abides.bind (Abides.fold fun _ _ => deleteTable_keeps cascades)
      (Abides.bind (Abides.fold fun _ _ => upsertTable_keeps) (Abides.bind (Abides.fold agents) (Abides.given fun _ =>
        Abides.branch Abides.refused (Abides.bind (execute_keeps (rebuildMembers_holds cascades)) ?_))))))))
  intro s t ok
  split at ok
  · exact Abides.ret s t ok
  next deletes => exact execute_keeps (clearUnowned_holds cascades (Bool.eq_false_iff.mpr deletes)) s t ok

end Projects

section Installs
variable {F R : Type} {outside : Outside F R} {rules : Rules} {entry : RemoteEntry}

/-- The writes of an after-image are by the rules. -/
def Rules.Allows (rules : Rules) (agent : AgentChangeEntry) : Prop :=
  (∀ i, rules.identity i (i.writeRow agent.row)) ∧ ∀ claim ∈ agent.claims, ∀ i, rules.identity i (i.writeClaim claim)

theorem allowed_keeps {agent : AgentChangeEntry} (allowed : rules.Allows agent) :
    Abides rules.Holds fun s => replayAgentEntry outside agent s :=
  replay_keeps allowed.1 allowed.2

theorem installAgent_ok {agent : AgentChangeEntry} {s t : Store F R} {seq : Int} {payload : Payload F}
    (ok : installAgent outside agent entry s = .ok (t,seq,payload)) :
    replayAgentEntry outside { agent with seq := s.nextSeq }
      (append agent.op .empty "log" agent.row.updatedAtMs "entorhinal" s).1 = .ok t ∧
    (t.identity.activeClaims agent.agentId).length = if agent.row.status = "live" then 1 else 0 := by
  obtain ⟨u,replayed,ok⟩ := bind_ok ok
  by_cases counted : (u.identity.activeClaims agent.agentId).length = if agent.row.status = "live" then 1 else 0
  · rw [if_neg (not_not.mpr counted)] at ok
    cases ok
    exact ⟨replayed,counted⟩
  · rw [if_pos counted] at ok
    cases ok

theorem installAgent_holds {agent : AgentChangeEntry} (allowed : rules.Allows agent) {s t : Store F R} {seq : Int}
    {payload : Payload F} (ok : installAgent outside agent entry s = .ok (t,seq,payload)) : rules.Holds s t :=
  have same : rules.Allows { agent with seq := s.nextSeq } := allowed
  IsTrans.trans _ _ _ Rules.appended (allowed_keeps same _ _ (installAgent_ok ok).1)

theorem importAgent_keeps {agent : AgentChangeEntry} (allowed : rules.Allows agent) :
    Abides rules.Holds fun s => importAgent outside agent s := by
  intro s t ok
  obtain ⟨u,replayed,ok⟩ := bind_ok ok
  cases ok
  have same : rules.Allows { agent with seq := s.nextSeq, op := "agent.import" } := allowed
  exact IsTrans.trans _ _ _ Rules.appended (IsTrans.trans _ _ _ (allowed_keeps same _ _ replayed) Rules.journaled)

/-- One carried agent, as the fold takes it. -/
def carriedStep (outside : Outside F R) (entry : RemoteEntry) (empty : Bool) (state : Store F R × Option (Int × Payload F))
    (agent : AgentChangeEntry) : Except String (Store F R × Option (Int × Payload F)) := do
  let (s,seq,payload) ← installAgent outside agent entry state.1
  let s := s.journaled seq fun row => { row with payload := payload, origin := "log" }
  return (s,if empty then some (seq,payload) else state.2)

theorem carriedStep_ok {empty : Bool} {agent : AgentChangeEntry} {before after : Store F R × Option (Int × Payload F)}
    (ok : carriedStep outside entry empty before agent = .ok after) :
    ∃ u seq payload, installAgent outside agent entry before.1 = .ok (u,seq,payload) ∧ after.1.identity = u.identity ∧
      ∀ rules : Rules, rules.Holds u after.1 := by
  obtain ⟨⟨u,seq,payload⟩,installed,ok⟩ := bind_ok ok
  cases ok
  exact ⟨u,seq,payload,installed,rfl,fun _ => Rules.journaled⟩

variable [DecidableEq F]

theorem applyCarried_ok {project : ProjectEntry F} {s t : Store F R} (ok : applyCarried outside project entry s = .ok t) :
    ∃ one tagged last,
      (one = s ∨ project.apply outside s.nextSeq (append project.op .empty "log" 0 "entorhinal" s).1 = .ok one) ∧
      project.agents.foldlM (carriedStep outside entry project.tables.rows.isEmpty) (one,tagged) = .ok last ∧
      t.identity = last.1.identity ∧ ∀ rules : Rules, rules.Holds last.1 t := by
  obtain ⟨⟨one,tagged⟩,started,ok⟩ := bind_ok ok
  obtain ⟨⟨two,tagged'⟩,installed,ok⟩ := bind_ok ok
  refine ⟨one,tagged,(two,tagged'),?_,installed,?_⟩
  · split at started
    · cases started
      exact .inl rfl
    · obtain ⟨u,applied,started⟩ := bind_ok started
      cases started
      exact .inr applied
  · cases tagged' with
    | none =>
      cases ok
      exact ⟨rfl,fun _ => refl _⟩
    | some pair =>
      cases ok
      exact ⟨rfl,fun _ => Rules.tagged⟩

/-- The agents that an entry carries. -/
def Decoded.agents : Decoded F → List AgentChangeEntry
  | .project carrier => carrier.agents
  | .agent change => [change]
  | .member _ | .pins _ | .user _ => []

/-- The name that an entry carries. -/
def Decoded.memberName : Decoded F → Option MemberName
  | .project carrier => carrier.memberName
  | .member name => some name
  | .agent _ | .pins _ | .user _ => none

/-- An installation goes along the rules that allow its after-images, its name and the cascade of its deletes. -/
theorem install_keeps {decoded : Decoded F} (agents : ∀ agent ∈ decoded.agents, rules.Allows agent)
    (names : ∀ name ∈ decoded.memberName, ∀ n, rules.names n (n.insert name.author name.displayName))
    (machine : ∀ project, decoded = .project project →
      ∀ m m', (project.gone outside).Cascades m m' → rules.machine m m') :
    Abides rules.Holds fun s => install outside decoded entry s := by
  intro s t ok
  cases decoded with
  | user user =>
    obtain ⟨u,restored,ok⟩ := bind_ok ok
    cases ok
    exact IsTrans.trans _ _ _ Rules.appended (IsTrans.trans _ _ _ (user_keeps _ _ restored) Rules.tagged)
  | pins pins =>
    obtain ⟨u,restored,ok⟩ := bind_ok ok
    cases ok
    exact IsTrans.trans _ _ _ Rules.appended (IsTrans.trans _ _ _ (pins_keeps _ _ restored) Rules.tagged)
  | member name =>
    obtain ⟨u,restored,ok⟩ := bind_ok ok
    cases ok
    exact IsTrans.trans _ _ _ Rules.appended (IsTrans.trans _ _ _ (member_keeps (names name rfl) _ _ restored) Rules.tagged)
  | agent agent =>
    obtain ⟨⟨u,seq,payload⟩,installed,ok⟩ := bind_ok ok
    cases ok
    exact IsTrans.trans _ _ _ (installAgent_holds (agents agent List.mem_cons_self) installed) Rules.tagged
  | project project =>
    obtain ⟨one,started,ok⟩ := bind_ok ok
    have begun : rules.Holds s one := by
      split at started
      · obtain ⟨u,imported,started⟩ := bind_ok started
        cases started
        refine IsTrans.trans _ _ _ (Abides.fold (fun agent inside => importAgent_keeps (agents agent inside)) _ _ imported) ?_
        split
        · exact refl _
        · exact Rules.appended
      · cases started
        exact refl _
    have applied := @apply_keeps F R outside rules project (machine project rfl)
    refine IsTrans.trans _ _ _ begun ?_
    split at ok
    · obtain ⟨two,tagged,last,first,folded,_,ended⟩ := applyCarried_ok ok
      have before : rules.Holds one two := by
        rcases first with rfl | first
        · exact refl _
        · exact IsTrans.trans _ _ _ Rules.appended
            (applied names (fun agent inside => allowed_keeps (agents agent inside)) _ _ first)
      refine IsTrans.trans _ _ _ (foldlM_mem (fun p => rules.Holds one p.1) (fun p agent q inside so taken => ?_)
        before folded) (ended rules)
      obtain ⟨u,seq,payload,installed,_,after⟩ := carriedStep_ok taken
      exact IsTrans.trans _ _ _ so (IsTrans.trans _ _ _ (installAgent_holds (agents agent inside) installed) (after rules))
    · obtain ⟨u,done,ok⟩ := bind_ok ok
      cases ok
      exact IsTrans.trans _ _ _ Rules.appended (IsTrans.trans _ _ _
        (applied names (fun agent inside => allowed_keeps (agents agent inside)) _ _ done) Rules.tagged)

end Installs

end Entorhinal.Remote
