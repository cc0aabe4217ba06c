import Entorhinal.RootKeys
import Entorhinal.RegistryLaw

/-! Root keys over whole runs of one store: its sharing is turned on with a key for every
root that has one, and mutations and received changes follow in any order. -/
namespace Entorhinal.Registry
open Transition

/-! ### Received changes -/

section Entries

variable {s s' : Tables} {e : ProjectEntry}

theorem consistent_keys (fine : consistent s = true) :
    (∀ row, s.keys.has row = true → s.live (KeyRow.project row) = true) ∧
    ∀ project other rootKey, s.keys.has (keyRow project "remote" rootKey) = true →
      s.keys.has (keyRow other "remote" rootKey) = true → project = other := by
  simp only [consistent,Bool.and_eq_true,List.all_eq_true] at fine
  obtain ⟨⟨_,live⟩,unique⟩ := fine
  have stored : ∀ row, s.keys.has row = true → (row,()) ∈ s.keys.rows := by
    intro row has
    obtain ⟨_,found⟩ := Table.has_iff.mp has
    exact Table.mem_rows.mpr found
  refine ⟨fun row has => live _ (stored row has),?_⟩
  intro project other rootKey left right
  have := unique _ (stored _ left) _ (stored _ right)
  have key_of : ∀ p, KeyRow.key (keyRow p "remote" rootKey) = ⟨"remote",rootKey⟩ := fun _ => rfl
  have project_of : ∀ p, KeyRow.project (keyRow p "remote" rootKey) = p := fun _ => rfl
  simpa [key_of,project_of] using this

theorem cascade_keys (ids : List String) (t : Tables) : (ids.foldl (cascadeProject e) t).keys = t.keys := by
  induction ids generalizing t with
  | nil => rfl
  | cons id rest ih =>
    rw [List.foldl_cons,ih,cascadeProject]
    split <;> rfl

/-- The roots that follow deleted projects keep their keys, and move only away from one. -/
theorem cascade_roots (ids : List String) {t : Tables} {root : String} {row : Root}
    (found : (ids.foldl (cascadeProject e) t).roots.get? root = some row) :
    ∃ before, t.roots.get? root = some before ∧ before.key = row.key ∧
      (before.projectId = row.projectId ∨ before.projectId ∈ ids) := by
  induction ids generalizing t with
  | nil => exact ⟨row,found,rfl,.inl rfl⟩
  | cons id rest ih =>
    obtain ⟨middle,here,key,where_to⟩ := ih found
    have step : ∃ before, t.roots.get? root = some before ∧ before.key = middle.key ∧
        (before.projectId = middle.projectId ∨ before.projectId = id) := by
      rw [cascadeProject] at here
      split at here
      next heir _ =>
        simp only [Table.get?_update,Option.map_eq_some_iff] at here
        obtain ⟨before,at_root,rfl⟩ := here
        refine ⟨before,at_root,?_⟩
        by_cases own : before.projectId = id
        · simp [own]
        · simp [own]
      next =>
        rw [Table.get?_filter,Option.filter_eq_some_iff] at here
        exact ⟨middle,here.1,rfl,.inl rfl⟩
    obtain ⟨before,at_root,same,moved⟩ := step
    refine ⟨before,at_root,same.trans key,?_⟩
    rcases moved with stays | left
    · rw [stays]
      exact where_to.imp_right (List.mem_cons_of_mem _)
    · exact .inr (by rw [left]; exact List.mem_cons_self)

/-- A received change that deletes no key leaves every key a local root is mapped to; one
that does clears the mappings it takes away. -/
theorem keyed_apply (keyed : Keyed s) (ok : e.apply s = some s') : Keyed s' := by
  obtain ⟨_,fine,rfl⟩ := apply_ok ok
  obtain ⟨live,unique⟩ := consistent_keys fine
  refine ⟨?_,unique⟩
  intro root row key found mapped
  by_cases taken : e.keys.delete.isEmpty = true
  · have nothing : e.keys.delete = [] := List.isEmpty_iff.mp taken
    have keys : (e.restore s).keys = upsertTable (deleteRows s.keys e.keys.delete) e.keys.upsert := by
      rw [ProjectEntry.restore,if_pos taken]
      simp only [cascade_keys]
    have grown : ∀ row, s.keys.has row = true → (e.restore s).keys.has row = true := by
      intro row has
      rw [keys,Table.has,get?_upsertTable,get?_deleteRows,nothing]
      simp only [List.not_mem_nil,if_false]
      rw [Table.has] at has
      cases given e.keys.upsert row <;> simp [has]
    rw [ProjectEntry.restore,if_pos taken] at found
    obtain ⟨before,at_root,same,moved⟩ := cascade_roots e.projects.delete found
    have had := keyed.owned root before key at_root (same.trans mapped)
    rcases moved with stays | gone
    · rw [← stays]
      exact grown _ had
    · have still := live _ (grown _ had)
      rw [restore_live] at still
      have kept := (liveAfter_cases still).1
      exact absurd gone kept
  · rw [ProjectEntry.restore,if_neg taken] at found ⊢
    obtain ⟨_,_,_,kept⟩ := clearUnownedMappings_roots found
    exact (kept key mapped).2

end Entries

/-! ### Turning sharing on -/

/-- The key rows and mappings an enable writes when it ends. -/
structure Backfill where
  keys : List KeyRow
  mappings : List (String × RootKey)

/-- Unreadable remotes keep the key the root has, whose row must exist. -/
def backfillKey (site : Site) (s : Tables) (root : String) (row : Root) :
    Except RegistryError (Option RootKey) :=
  if (site.rootRemotes root).2.isSome then
    match row.key with
    | none => .ok none
    | some key =>
      if s.keys.has (keyRow row.projectId key.kind key.rootKey) then .ok (some key)
      else .error ⟨"store","Query returned no rows"⟩
  else .ok (choose site (site.rootRemotes root).1 none)

/-- One turn of the loop over the roots; `owners` are the projects of the keys so far. -/
def backfillRoot (site : Site) (s : Tables) (state : Table String String × Backfill)
    (entry : String × Root) : Except RegistryError (Table String String × Backfill) := do
  let project := entry.2.projectId
  match ← backfillKey site s entry.1 entry.2 with
  | none => return state
  | some key =>
    match (state.1.get? key.rootKey).filter (· ≠ project) with
    | some owner =>
      throw ⟨"root_key_exists",key.rootKey ++ " belongs to both project_id " ++ owner ++ " and " ++ project⟩
    | none =>
      let row := keyRow project key.kind key.rootKey
      return (state.1.insert key.rootKey project,
        ⟨if row ∈ state.2.keys then state.2.keys else state.2.keys ++ [row],
          state.2.mappings ++ [(entry.1,key)]⟩)

def prepareEnable (site : Site) (s : Tables) : Except RegistryError Backfill := do
  let state ← s.roots.rows.foldlM (backfillRoot site s) (∅,⟨[],[]⟩)
  return state.2

/-- `replay_root_keys`: the last mapping of a root is its key. -/
def replayRootKeys (roots : Table String Root) (mappings : List (String × RootKey)) : Table String Root :=
  roots.update fun root row => match given mappings root with
    | some key => {row with key := some key}
    | none => row

/-- The rows and mappings of the plan, unless a constraint refuses them. -/
def finishEnable (s : Tables) (plan : Backfill) : Option Tables :=
  let written := {s with
    keys := upsertTable s.keys (plan.keys.map (·,()))
    roots := replayRootKeys s.roots plan.mappings}
  if consistent written then some written else none

/-- Every root of the plan that is still registered has its key row in it. -/
def Planned (s : Tables) (plan : Backfill) : Prop :=
  ∀ root key row, (root,key) ∈ plan.mappings → s.roots.get? root = some row →
    keyRow row.projectId key.kind key.rootKey ∈ plan.keys

theorem planned_prepareEnable {site : Site} {s : Tables} {plan : Backfill}
    (ok : prepareEnable site s = .ok plan) : Planned s plan := by
  obtain ⟨state,made,ok⟩ := bind_ok ok
  cases ok
  refine foldlM_mem (fun state => Planned s state.2) ?_ (fun _ _ _ member => by cases member) made
  intro before entry after inside planned taken
  obtain ⟨path,row⟩ := entry
  have here : s.roots.get? path = some row := Table.mem_rows.mp inside
  obtain ⟨chosen,_,taken⟩ := bind_ok taken
  cases chosen with
  | none => cases taken; exact planned
  | some key =>
    dsimp only at taken
    split at taken
    next => cases taken
    next =>
      cases taken
      intro root other stored member found
      have kept : ∀ r, r ∈ before.2.keys → r ∈ (if keyRow row.projectId key.kind key.rootKey ∈ before.2.keys
          then before.2.keys else before.2.keys ++ [keyRow row.projectId key.kind key.rootKey]) := by
        intro r had
        split
        next => exact had
        next => exact List.mem_append_left _ had
      rcases List.mem_append.mp member with earlier | last
      · exact kept _ (planned root other stored earlier found)
      · obtain ⟨rfl,rfl⟩ := Prod.mk.injEq .. ▸ List.mem_singleton.mp last
        rw [here] at found
        cases found
        dsimp only
        split
        next there => exact there
        next => exact List.mem_append_right _ (List.mem_singleton_self _)

theorem keyed_finishEnable {s s' : Tables} {plan : Backfill} (keyed : Keyed s) (planned : Planned s plan)
    (ok : finishEnable s plan = some s') : Keyed s' := by
  rw [finishEnable] at ok
  split at ok
  next fine =>
    cases ok
    refine ⟨?_,(consistent_keys fine).2⟩
    intro root row key found mapped
    have has : ∀ row, s.keys.has row = true ∨ row ∈ plan.keys →
        (upsertTable s.keys (plan.keys.map (·,()))).has row = true := by
      intro row either
      rw [Table.has,get?_upsertTable]
      rcases either with had | listed
      · rw [Table.has] at had
        cases given (plan.keys.map (·,())) row <;> simp [had]
      · have : (given (plan.keys.map (·,())) row).isSome = true := by
          rw [given_isSome,List.any_map,List.any_eq_true]
          exact ⟨row,listed,by simp⟩
        cases found : given (plan.keys.map (·,())) row with
        | none => simp [found] at this
        | some u => rfl
    have here : (replayRootKeys s.roots plan.mappings).get? root = some row := found
    simp only [replayRootKeys,Table.get?_update,Option.map_eq_some_iff] at here
    obtain ⟨before,at_root,rfl⟩ := here
    cases assigned : given plan.mappings root with
    | none =>
      simp only [assigned] at mapped ⊢
      exact has _ (.inl (keyed.owned root before key at_root mapped))
    | some given_key =>
      simp only [assigned,Option.some.injEq] at mapped ⊢
      subst mapped
      exact has _ (.inr (planned root given_key before (given_mem assigned) at_root))
  next => cases ok

/-! ### Runs -/

/-- The state of `identity_log_state`, with the plan an enable has saved. -/
inductive Phase
  | disabled
  | enabling (plan : Backfill)
  | joining
  | enabled

structure Store where
  tables : Tables
  phase : Phase

def Store.fresh : Store := ⟨Tables.empty,.disabled⟩

inductive KeyLabel
  | commit (label : Label)
  | beginEnable (site : Site)
  | abandonEnable
  | finishEnable
  | join (image : ProjectEntry) (supersedes : Bool)
  | finishJoin
  | adopt

/-- What a mutation reads of the log's state. -/
def Label.logEnabled : Label → Option Bool
  | .register site _ => some site.logEnabled
  | .upgradeImplicit site _ => some site.logEnabled
  | .seedImport site _ => some site.logEnabled
  | .addRoot site _ => some site.logEnabled
  | .attachRoot site _ => some site.logEnabled
  | .removeRoot site _ => some site.logEnabled
  | .moveRootToNewProject site _ => some site.logEnabled
  | .attachDerivedParent site _ => some site.logEnabled
  | .assignWorkspace site _ => some site.logEnabled
  | .remove site _ => some site.logEnabled
  | .entry _ => none
  | .snapshot _ _ => none

/-- `bootstrap_fence`: what still runs while sharing is being turned on. -/
def bootstrapFence (s : Tables) : Label → Bool
  | .removeRoot _ req => decide (1 < rootCount s req.projectId)
  | .attachDerivedParent _ _ => true
  | _ => false

/-- Mutations see the log as it is; received changes come once it is joined. -/
def Store.runs (w : Store) (label : Label) : Bool :=
  match w.phase with
  | .disabled => label.logEnabled == some false
  | .enabling _ => label.logEnabled == some false && bootstrapFence w.tables label
  | .joining => !label.mutates || (label.logEnabled == some false && bootstrapFence w.tables label)
  | .enabled => !label.mutates || label.logEnabled == some true

/-- `adopt_store`: a store that shared its registry starts over, another keeps it. -/
def adoptStore (w : Store) : Store :=
  match w.phase with
  | .disabled => ⟨{w.tables with derived := w.tables.derived.update fun _ row =>
      {row with sourceRoot := none, registrationEpoch := none}},.disabled⟩
  | _ => .fresh

def keyNext (w : Store) : KeyLabel → Option Store
  | .commit label => if w.runs label then (next w.tables label).map (⟨·,w.phase⟩) else none
  | .beginEnable site => match w.phase with
    | .disabled => (prepareEnable site w.tables).toOption.map fun plan => ⟨w.tables,.enabling plan⟩
    | _ => none
  | .abandonEnable => match w.phase with
    | .enabling _ => some ⟨w.tables,.disabled⟩
    | _ => none
  | .finishEnable => match w.phase with
    | .enabling plan => (finishEnable w.tables plan).map (⟨·,.enabled⟩)
    | _ => none
  | .join image supersedes => match w.phase with
    | .disabled => (installSnapshot image supersedes w.tables).map (⟨·,.joining⟩)
    | _ => none
  | .finishJoin => match w.phase with
    | .joining => some ⟨w.tables,.enabled⟩
    | _ => none
  | .adopt => some (adoptStore w)

/-- What each step of a store needs, and what it leaves. -/
inductive KeyStep (w : Store) : KeyLabel → Store → Prop
  | commit {label : Label} {s' : Tables} (runs : w.runs label = true) (stepped : next w.tables label = some s') :
      KeyStep w (.commit label) ⟨s',w.phase⟩
  | beginEnable {site : Site} {plan : Backfill} (phase : w.phase = .disabled)
      (prepared : prepareEnable site w.tables = .ok plan) : KeyStep w (.beginEnable site) ⟨w.tables,.enabling plan⟩
  | abandonEnable {plan : Backfill} (phase : w.phase = .enabling plan) : KeyStep w .abandonEnable ⟨w.tables,.disabled⟩
  | finishEnable {plan : Backfill} {s' : Tables} (phase : w.phase = .enabling plan)
      (finished : finishEnable w.tables plan = some s') : KeyStep w .finishEnable ⟨s',.enabled⟩
  | join {image : ProjectEntry} {supersedes : Bool} {s' : Tables} (phase : w.phase = .disabled)
      (installed : installSnapshot image supersedes w.tables = some s') : KeyStep w (.join image supersedes) ⟨s',.joining⟩
  | finishJoin (phase : w.phase = .joining) : KeyStep w .finishJoin ⟨w.tables,.enabled⟩
  | adopt : KeyStep w .adopt (adoptStore w)

theorem keyNext_step {w w' : Store} {label : KeyLabel} (taken : keyNext w label = some w') : KeyStep w label w' := by
  cases label with
  | commit label =>
    simp only [keyNext] at taken
    split at taken
    next runs =>
      obtain ⟨s',stepped,rfl⟩ := Option.map_eq_some_iff.mp taken
      exact .commit runs stepped
    next => cases taken
  | beginEnable site =>
    simp only [keyNext] at taken
    split at taken
    next phase =>
      obtain ⟨plan,made,rfl⟩ := Option.map_eq_some_iff.mp taken
      cases prepared : prepareEnable site w.tables with
      | error e => simp [prepared,Except.toOption] at made
      | ok ready =>
        rw [prepared,Except.toOption,Option.some.injEq] at made
        exact .beginEnable phase (made ▸ prepared)
    next => cases taken
  | abandonEnable =>
    simp only [keyNext] at taken
    split at taken
    next plan phase => cases taken; exact .abandonEnable phase
    next => cases taken
  | finishEnable =>
    simp only [keyNext] at taken
    split at taken
    next plan phase =>
      obtain ⟨s',finished,rfl⟩ := Option.map_eq_some_iff.mp taken
      exact .finishEnable phase finished
    next => cases taken
  | join image supersedes =>
    simp only [keyNext] at taken
    split at taken
    next phase =>
      obtain ⟨s',installed,rfl⟩ := Option.map_eq_some_iff.mp taken
      exact .join phase installed
    next => cases taken
  | finishJoin =>
    simp only [keyNext] at taken
    split at taken
    next phase => cases taken; exact .finishJoin phase
    next => cases taken
  | adopt =>
    cases taken
    exact .adopt

theorem keyed_next {s s' : Tables} {label : Label} (keyed : Keyed s) (taken : next s label = some s') :
    Keyed s' := by
  cases label with
  | register site req =>
    obtain ⟨_,ok,rfl⟩ := committed_eq_some taken
    obtain ⟨_,_,ok⟩ := bind_ok ok
    obtain ⟨_,_,ok⟩ := bind_ok ok
    obtain ⟨_,_,ok⟩ := bind_ok ok
    obtain ⟨_,_,ok⟩ := bind_ok ok
    exact keyed_registerIn keyed (fun _ _ _ given => by cases given) ok
  | upgradeImplicit site req =>
    obtain ⟨_,ok,rfl⟩ := committed_eq_some taken
    exact keyed_upgradeImplicit keyed ok
  | seedImport site req =>
    obtain ⟨_,ok,rfl⟩ := committed_eq_some taken
    exact keyed_seedImport keyed ok
  | addRoot site req =>
    obtain ⟨_,ok,rfl⟩ := committed_eq_some taken
    exact keyed_addRoot keyed ok
  | attachRoot site req =>
    obtain ⟨_,ok,rfl⟩ := committed_eq_some taken
    exact keyed_attachRoot keyed ok
  | removeRoot site req =>
    obtain ⟨_,ok,rfl⟩ := committed_eq_some taken
    rw [removeRoot_routes ok]
    exact keyed.applyRemoveRoot _ _ _
  | moveRootToNewProject site req =>
    obtain ⟨_,ok,rfl⟩ := committed_eq_some taken
    exact keyed_moveRootToNewProject keyed ok
  | attachDerivedParent site req =>
    obtain ⟨_,ok,rfl⟩ := committed_eq_some taken
    exact keyed_attachDerivedParent keyed ok
  | assignWorkspace site req =>
    obtain ⟨_,ok,rfl⟩ := committed_eq_some taken
    obtain ⟨roots,_,keys⟩ := assignWorkspace_routes ok
    exact keyed.frame roots keys
  | remove site req =>
    obtain ⟨_,ok,rfl⟩ := committed_eq_some taken
    exact keyed_remove keyed ok
  | entry change => exact keyed_apply keyed taken
  | snapshot image supersedes => exact keyed_apply keyed (installSnapshot_ok taken)

/-- While sharing is being turned on, roots are only removed. -/
theorem fenced_roots {s s' : Tables} {label : Label} (fenced : bootstrapFence s label = true)
    (taken : next s label = some s') :
    ∀ root row, s'.roots.get? root = some row → s.roots.get? root = some row := by
  cases label with
  | removeRoot site req =>
    obtain ⟨_,ok,rfl⟩ := committed_eq_some taken
    rw [removeRoot_routes ok]
    intro root row found
    simp only [applyRemoveRoot,Table.get?_erase] at found
    split at found
    next => cases found
    next => exact found
  | attachDerivedParent site req =>
    obtain ⟨_,ok,rfl⟩ := committed_eq_some taken
    rcases attachDerivedParent_routes ok with unchanged | ⟨_,_,_,_,written⟩
    · rw [unchanged]; exact fun _ _ found => found
    · rw [written]; exact fun _ _ found => found
  | _ => cases fenced

/-- The law, and a saved plan that still fits the roots. -/
structure Store.Sound (w : Store) : Prop where
  keyed : Keyed w.tables
  planned : ∀ plan, w.phase = .enabling plan → Planned w.tables plan

theorem sound_keyNext {w w' : Store} {label : KeyLabel} (sound : w.Sound)
    (taken : keyNext w label = some w') : w'.Sound := by
  obtain ⟨keyed,planned⟩ := sound
  cases keyNext_step taken with
  | commit runs stepped =>
    refine ⟨keyed_next keyed stepped,?_⟩
    intro plan enabling root key row member found
    have enabling : w.phase = .enabling plan := enabling
    rw [Store.runs,enabling,Bool.and_eq_true] at runs
    exact planned plan enabling root key row member (fenced_roots runs.2 stepped root row found)
  | beginEnable _ prepared =>
    refine ⟨keyed,?_⟩
    rintro _ ⟨rfl⟩
    exact planned_prepareEnable prepared
  | abandonEnable => exact ⟨keyed,fun _ other => by cases other⟩
  | finishEnable phase finished =>
    exact ⟨keyed_finishEnable keyed (planned _ phase) finished,fun _ other => by cases other⟩
  | join _ installed => exact ⟨keyed_apply keyed (installSnapshot_ok installed),fun _ other => by cases other⟩
  | finishJoin => exact ⟨keyed,fun _ other => by cases other⟩
  | adopt =>
    rw [adoptStore]
    split
    next => exact ⟨keyed.frame rfl rfl,fun _ other => by cases other⟩
    next => exact ⟨.empty,fun _ other => by cases other⟩

/-- In every state of a store, whatever was mutated, received, removed or adopted before:
a mapped root's key is a key of its project, a remote key has exactly one project, and a
project has a label once. -/
theorem root_keys_owned {w : Store} (reached : Reach keyNext Free Store.fresh w) :
    (∀ root row key, w.tables.roots.get? root = some row → row.key = some key →
      w.tables.keys.has (keyRow row.projectId key.kind key.rootKey) = true) ∧
    (∀ project rootKey, w.tables.keys.has (keyRow project "remote" rootKey) = true →
      ∃! owner, w.tables.keys.has (keyRow owner "remote" rootKey) = true) ∧
    ∀ project label, w.tables.keys.keys.count (keyRow project "label" label) ≤ 1 := by
  have fresh : Store.fresh.Sound := ⟨.empty,fun _ other => by cases other⟩
  have sound := reached.invariant Store.Sound fresh fun _ _ _ sound _ taken => sound_keyNext sound taken
  refine ⟨sound.keyed.owned,?_,?_⟩
  · intro project rootKey has
    exact ⟨project,has,fun other there => sound.keyed.remote other project rootKey there has⟩
  · intro project label
    have once : w.tables.keys.keys.Nodup := List.pairwise_map.mpr (w.tables.keys.sorted.imp fun less => less.ne)
    exact List.nodup_iff_count_le_one.mp once (keyRow project "label" label)

namespace Rekeyed

/-- Every checkout has one owned remote. -/
def site (logEnabled : Bool) : Site :=
  {Reminted.site with logEnabled := logEnabled, rootRemotes := fun _ => ([⟨"Owner","repo",true⟩],none)}

/-- Sharing is turned on for one root, and another machine gives its key to a new project. -/
def labels : List KeyLabel :=
  [.commit (.register (site false) ⟨none,some "p","p",none,none,["/a"],[]⟩),.beginEnable (site false),
    .finishEnable,
    .commit (.entry ⟨⟨[],[]⟩,⟨[("q",⟨"q",none,none⟩)],[]⟩,⟨[],[]⟩,⟨[],[]⟩,
      ⟨[(keyRow "q" "remote" "owner/repo",())],[keyRow "p" "remote" "owner/repo"]⟩⟩)]

def mapped (w : Store) : Option (Option RootKey) := (w.tables.roots.get? "/a").map (·.key)

theorem mapping_cleared :
    (exec keyNext Store.fresh (labels.take 3)).bind mapped = some (some ⟨"remote","owner/repo"⟩) ∧
    ∃ w, exec keyNext Store.fresh labels = some w ∧ mapped w = some none ∧
      ∃! owner, w.tables.keys.has (keyRow owner "remote" "owner/repo") = true := by
  refine ⟨by decide +kernel,?_⟩
  have runs : (exec keyNext Store.fresh labels).isSome = true := by decide +kernel
  obtain ⟨w,ran⟩ := Option.isSome_iff_exists.mp runs
  have facts : (exec keyNext Store.fresh labels).all (fun w => decide (mapped w = some none ∧
      w.tables.keys.has (keyRow "q" "remote" "owner/repo") = true)) = true := by decide +kernel
  rw [ran,Option.all_some,decide_eq_true_eq] at facts
  exact ⟨w,ran,facts.1,(root_keys_owned (exec_reach ran)).2.1 "q" "owner/repo" facts.2⟩

end Rekeyed

end Entorhinal.Registry
