import Entorhinal.RootBindings

/-! Approvals never carry over. A root that leaves its project is unbound in the same step,
an epoch that is retired is never active again, and an approval of a root is one that was
given under the epoch the root has. -/
namespace Entorhinal.RootBindings
open Registry Transition

/-! ### Roots that stay -/

/-- A root stays in its project unless it goes; a container has the epoch it had, or the one
it is attached under. -/
structure Carries (goes : String → String → Prop) (attaches : String → Prop) (s t : Tables) : Prop where
  roots : ∀ root row, s.roots.get? root = some row → ¬ goes root row.projectId →
    ∃ row', t.roots.get? root = some row' ∧ row'.projectId = row.projectId
  derived : ∀ parent row epoch, t.derived.get? parent = some row → row.registrationEpoch = some epoch →
    (∃ old, s.derived.get? parent = some old ∧ old.registrationEpoch = some epoch) ∨ attaches epoch

/-- No root goes and no container is attached. -/
abbrev Stays (s t : Tables) : Prop := Carries (fun _ _ => False) (fun _ => False) s t

section Tables

variable {s t u : Tables} {goes : String → String → Prop} {attaches : String → Prop}

theorem Carries.refl (s : Tables) : Carries goes attaches s s :=
  ⟨fun _ row found _ => ⟨row,found,rfl⟩,fun _ row _ found named => .inl ⟨row,found,named⟩⟩

theorem Carries.frame (roots : t.roots = s.roots) (derived : t.derived = s.derived) : Carries goes attaches s t :=
  ⟨fun _ row found _ => ⟨row,by rw [roots]; exact found,rfl⟩,
    fun _ row _ found named => .inl ⟨row,by rw [derived] at found; exact found,named⟩⟩

theorem Carries.widen {goes' : String → String → Prop} (carries : Carries goes attaches s t)
    (more : ∀ root project, goes root project → goes' root project) : Carries goes' attaches s t :=
  ⟨fun root row found stays => carries.roots root row found fun gone => stays (more root row.projectId gone),carries.derived⟩

/-- A project's roots pass to its heir. -/
theorem Carries.inherited {id heir : String}
    (roots : t.roots = s.roots.update fun _ row => if row.projectId = id then {row with projectId := heir} else row)
    (derived : t.derived = s.derived.update fun _ row => if row.projectId = id then {row with projectId := heir} else row) :
    Carries (fun _ project => project = id) (fun _ => False) s t := by
  refine ⟨?_,?_⟩
  · intro root row found stays
    simp only [roots,Table.get?_update,found,Option.map_some,if_neg stays,Option.some.injEq,exists_eq_left']
  · intro parent row epoch found named
    simp only [derived,Table.get?_update,Option.map_eq_some_iff] at found
    obtain ⟨old,here,rfl⟩ := found
    refine .inl ⟨old,here,?_⟩
    split at named <;> exact named

theorem Carries.dropped {id : String} (roots : t.roots = s.roots.filter fun _ row => row.projectId ≠ id)
    (derived : t.derived = s.derived.filter fun _ row => row.projectId ≠ id) :
    Carries (fun _ project => project = id) (fun _ => False) s t := by
  refine ⟨?_,?_⟩
  · intro root row found stays
    refine ⟨row,?_,rfl⟩
    simp [roots,Table.get?_filter,found,Option.filter,stays]
  · intro parent row epoch found named
    simp only [derived,Table.get?_filter,Option.filter_eq_some_iff] at found
    exact .inl ⟨row,found.1,named⟩

theorem Carries.trans (first : Carries goes attaches s t) (second : Stays t u) : Carries goes attaches s u where
  roots root row found stays := by
    obtain ⟨middle,here,same⟩ := first.roots root row found stays
    obtain ⟨last,there,same'⟩ := second.roots root middle here not_false
    exact ⟨last,there,same'.trans same⟩
  derived parent row epoch found named := by
    rcases second.derived parent row epoch found named with ⟨middle,here,named⟩ | nothing
    · exact first.derived parent middle epoch here named
    · exact nothing.elim

theorem Stays.weaken (stays : Stays s t) : Carries goes attaches s t :=
  ⟨fun root row found _ => stays.roots root row found not_false,
    fun parent row epoch found named => (stays.derived parent row epoch found named).imp_right False.elim⟩

theorem stays_insertRoot (blake3 : Digest) (project : String) (s : Tables) (entry : String × Option RootKey) :
    Stays s (insertRoot blake3 project s entry) := by
  refine ⟨?_,?_⟩
  · intro root row found _
    have inserted : (s.roots.insertOrIgnore entry.1 ⟨project,none⟩).get? root = some row := by
      rw [Table.get?_insertOrIgnore]
      split
      next same => rw [← same,found]; rfl
      next => exact found
    obtain ⟨path,key⟩ := entry
    cases key with
    | none => exact ⟨row,inserted,rfl⟩
    | some key =>
      simp only [Registry.insertRoot,assign,Table.get?_update,inserted,Option.map_some,Option.some.injEq,
        exists_eq_left']
      split <;> rfl
  · intro parent row epoch found named
    have containers : (insertRoot blake3 project s entry).derived = s.derived := (assign_frame _ _ _ _).2.1
    rw [containers] at found
    exact .inl ⟨row,found,named⟩

theorem stays_insertRoots (blake3 : Digest) (project : String) (entries : List (String × Option RootKey))
    (s : Tables) : Stays s (entries.foldl (insertRoot blake3 project) s) := by
  induction entries generalizing s with
  | nil => exact .refl s
  | cons entry rest ih => exact (stays_insertRoot blake3 project s entry).trans (ih _)

theorem stays_placeIn (s : Tables) (project : String) (workspace : Option String) :
    Stays s (placeIn s project workspace) :=
  .frame (placeIn_rows s project workspace).1 (placeIn_rows s project workspace).2

theorem stays_clear (s : Tables) : Stays s (clearUnownedMappings s) := by
  refine ⟨?_,fun _ row _ found named => .inl ⟨row,found,named⟩⟩
  intro root row found _
  simp only [clearUnownedMappings,Table.get?_update,found,Option.map_some,Option.some.injEq,exists_eq_left']
  split
  next => rfl
  next => split <;> rfl

theorem stays_insertParents (project : String) (parents : List String) (s : Tables) :
    Stays s {s with derived := parents.foldl (fun derived parent =>
      derived.insertOrIgnore parent ⟨project,none,none⟩) s.derived} := by
  refine ⟨fun root row found _ => ⟨row,found,rfl⟩,?_⟩
  have kept : ∀ (derived : Table String DerivedParent) parent row epoch,
      (parents.foldl (fun derived parent => derived.insertOrIgnore parent (⟨project,none,none⟩ : DerivedParent))
        derived).get? parent = some row → row.registrationEpoch = some epoch → derived.get? parent = some row := by
    induction parents with
    | nil => exact fun _ _ _ _ found _ => found
    | cons first rest ih =>
      intro derived parent row epoch found named
      have before := ih _ parent row epoch found named
      rw [Table.get?_insertOrIgnore] at before
      split at before
      next same =>
        cases old : derived.get? first with
        | none => rw [old] at before; cases before; cases named
        | some was => rw [old] at before; cases before; rw [same,old]; rfl
      next => exact before
  intro parent row epoch found named
  exact .inl ⟨row,kept _ parent row epoch found named,named⟩

theorem stays_registerWrites (blake3 : Digest) (s : Tables) (req : RegisterRequest) (project : String)
    (chosen : List (String × Option RootKey)) : Stays s (registerWrites blake3 s req project chosen) := by
  rw [registerWrites]
  have named : ∀ row, Stays s {s with projects := s.projects.insert project row} := fun _ => .frame rfl rfl
  exact (((named _).trans (stays_insertRoots blake3 project chosen _)).trans
    (stays_insertParents project req.derivedRootParents _)).trans (stays_placeIn _ project req.workspaceId)

theorem stays_upgradeWrites (blake3 : Digest) (s : Tables) (req : UpgradeImplicitRequest) (id : String)
    (chosen : List (String × Option RootKey)) : Stays s (upgradeWrites blake3 s req id chosen) := by
  rw [upgradeWrites]
  have named : ∀ row, Stays s {s with projects := s.projects.insert id row} := fun _ => .frame rfl rfl
  have aliased : ∀ t : Tables, Stays t {t with aliases := t.aliases.insert req.implicitId id} := fun _ => .frame rfl rfl
  exact (((named _).trans (stays_insertRoots blake3 id chosen _)).trans (aliased _)).trans
    (stays_placeIn _ id req.workspaceId)

end Tables
section Mutations

variable {site : Site} {s s' : Tables} {action : Action}

theorem stays_registerIn {req : RegisterRequest} {rootKeys : String → Option (Option RootKey)}
    (ok : registerIn site s req rootKeys = .ok action) : Stays s action.store := by
  obtain ⟨project,chosen,_,unchanged | written⟩ := registerIn_routes ok
  · rw [unchanged]; exact .refl s
  · rw [written]; exact stays_registerWrites site.blake3 s req project chosen

theorem stays_register {req : RegisterRequest} (ok : register site s req = .ok action) : Stays s action.store := by
  obtain ⟨_,_,ok⟩ := bind_ok ok
  obtain ⟨_,_,ok⟩ := bind_ok ok
  obtain ⟨_,_,ok⟩ := bind_ok ok
  obtain ⟨_,_,ok⟩ := bind_ok ok
  exact stays_registerIn ok

theorem stays_upgradeImplicit {req : UpgradeImplicitRequest} (ok : upgradeImplicit site s req = .ok action) :
    Stays s action.store := by
  rcases upgradeImplicit_routes ok with unchanged | ⟨chosen,_,written⟩
  · rw [unchanged]; exact .refl s
  · rw [written]; exact stays_upgradeWrites site.blake3 s req _ chosen

theorem stays_seedImport {req : SeedImportRequest} (ok : seedImport site s req = .ok action) :
    Stays s action.store := by
  apply seedImport_routes (fun t => Stays s t) _ _ (.refl s) ok
  · intro t t' roots derived _ stays
    exact stays.trans (.frame roots derived)
  · intro t group pair key _ _ _ _ _ stays
    exact stays.trans (stays_insertRoot site.blake3 _ t (pair.canonicalRoot,key))

theorem stays_addRoot {req : AddRootRequest} (ok : addRoot site s req = .ok action) : Stays s action.store := by
  rcases addRoot_routes ok with unchanged | ⟨key,_,_,_,written⟩
  · rw [unchanged]; exact .refl s
  · rw [written]; exact stays_insertRoot site.blake3 _ s _

/-- An accepted attachment replies with the project its root is written for. -/
theorem attachRoot_ok {req : AttachRootRequest} (ok : attachRoot site s req = .ok action) :
    (action.changed = false ∧ action.store = s) ∨ ∃ project key, action.changed = true ∧
      action.value = .attached project req.path key ∧ s.roots.get? req.path = none ∧
      action.store = insertRoot site.blake3 project s (req.path,some key) := by
  obtain ⟨⟨project,key⟩,_,ok⟩ := bind_ok ok
  dsimp only at ok
  split at ok
  next => cases ok; exact .inl ⟨rfl,rfl⟩
  next absent =>
    obtain ⟨_,_,ok⟩ := bind_ok ok
    cases ok
    exact .inr ⟨project,key,rfl,rfl,by simpa [Table.has] using absent,rfl⟩

theorem stays_attachRoot {req : AttachRootRequest} (ok : attachRoot site s req = .ok action) :
    Stays s action.store := by
  rcases attachRoot_ok ok with ⟨_,unchanged⟩ | ⟨project,key,_,_,_,written⟩
  · rw [unchanged]; exact .refl s
  · rw [written]; exact stays_insertRoot site.blake3 project s _

theorem carries_applyRemoveRoot (blake3 : Digest) (s : Tables) (project removed : String) :
    Carries (fun root _ => root = removed) (fun _ => False) s (applyRemoveRoot blake3 s project removed) := by
  refine ⟨?_,?_⟩
  · intro root row found stays
    refine ⟨row,?_,rfl⟩
    simp only [applyRemoveRoot,Table.get?_erase,if_neg stays]
    exact found
  · intro parent row epoch found named
    exact .inl ⟨row,((applyRemoveRoot_rows blake3 s project removed).2 parent row found).2,named⟩

theorem carries_removeRoot {req : RemoveRootRequest} (ok : removeRoot site s req = .ok action) :
    Carries (fun root _ => root = req.root) (fun _ => False) s action.store := by
  rw [removeRoot_routes ok]
  exact carries_applyRemoveRoot site.blake3 s req.projectId req.root

theorem carries_moveRootToNewProject {req : MoveRootToNewProjectRequest}
    (ok : moveRootToNewProject site s req = .ok action) :
    Carries (fun root _ => root = req.root) (fun _ => False) s action.store := by
  obtain ⟨_,registered,_,_,_,is_registered,written⟩ := moveRootToNewProject_routes ok
  have removed := carries_applyRemoveRoot site.blake3 s req.fromProjectId req.root
  rw [written]
  refine Carries.trans ?_ (stays_registerIn is_registered)
  rw [detached.eq_def]
  cases mappedKey site s req.root with
  | none => exact removed
  | some key =>
    have erased : Stays (applyRemoveRoot site.blake3 s req.fromProjectId req.root)
        {applyRemoveRoot site.blake3 s req.fromProjectId req.root with
          keys := s.keys.erase (keyRow req.fromProjectId key.kind key.rootKey)} := .frame rfl rfl
    exact (removed.trans erased).trans (stays_clear _)

theorem attachDerivedParent_ok {req : AttachDerivedParentRequest}
    (ok : attachDerivedParent site s req = .ok action) :
    site.boundUnder req.root req.incarnation req.registrationEpoch = .ok () ∧
      (action.store = s ∨ action.store = {s with
        derived := s.derived.insert req.container ⟨req.projectId,some req.root,some req.registrationEpoch⟩}) := by
  obtain ⟨_,_,ok⟩ := bind_ok ok
  dsimp only at ok
  split at ok
  next => cases ok
  next =>
    split at ok
    next => cases ok
    next =>
      obtain ⟨_,bound,ok⟩ := bind_ok ok
      refine ⟨bound,?_⟩
      split at ok
      next =>
        split at ok
        next => cases ok; exact .inl rfl
        next => cases ok
      next =>
        split at ok
        next => cases ok
        next =>
          split at ok
          next => cases ok
          next => cases ok; exact .inr rfl

theorem carries_attachDerivedParent {req : AttachDerivedParentRequest}
    (ok : attachDerivedParent site s req = .ok action) :
    Carries (fun _ _ => False)
      (fun epoch => site.boundUnder req.root req.incarnation epoch = .ok ()) s action.store := by
  obtain ⟨bound,unchanged | written⟩ := attachDerivedParent_ok ok
  · rw [unchanged]; exact .refl s
  · rw [written]
    refine ⟨fun root row found _ => ⟨row,found,rfl⟩,?_⟩
    intro parent row epoch found named
    rw [Table.get?_insert] at found
    split at found
    next =>
      cases found
      cases named
      exact .inr bound
    next => exact .inl ⟨row,found,named⟩

theorem carries_remove {req : RemoveRequest} (ok : remove site s req = .ok action) :
    Carries (fun _ project => req.workspaceId = none ∧ req.projectId = some project) (fun _ => False) s
      action.store := by
  rcases remove_ok ok with ⟨workspace,_,written⟩ | ⟨id,unnamed,given,_,_,written⟩
  · rw [written]; exact .frame rfl rfl
  · rw [written]
    have gone : Carries (fun _ project => project = id) (fun _ => False) s (removeProject s id req.successorProjectId) := by
      rw [removeProject.eq_def]
      split
      next heir _ => exact .inherited rfl rfl
      next => exact .dropped rfl rfl
    exact gone.widen fun _ project same => ⟨unnamed,by rw [given,same]⟩

/-- Only the roots of deleted projects go. -/
theorem carries_cascade {e : ProjectEntry} (ids : List String) (t : Tables) :
    Carries (fun _ project => project ∈ ids) (fun _ => False) t (ids.foldl (cascadeProject e) t) := by
  induction ids generalizing t with
  | nil => exact .refl t
  | cons id rest ih =>
    obtain ⟨roots,derived⟩ := ih (cascadeProject e t id)
    have one : Carries (fun _ project => project = id) (fun _ => False) t (cascadeProject e t id) := by
      rw [cascadeProject]
      split
      next heir _ => exact .inherited rfl rfl
      next => exact .dropped rfl rfl
    refine ⟨?_,?_⟩
    · intro root row found stays
      rw [List.mem_cons,not_or] at stays
      obtain ⟨middle,here,same⟩ := one.roots root row found stays.1
      obtain ⟨last,there,same'⟩ := roots root middle here (by rw [same]; exact stays.2)
      exact ⟨last,there,same'.trans same⟩
    · intro parent row epoch found named
      rcases derived parent row epoch found named with ⟨middle,here,named⟩ | nothing
      · exact one.derived parent middle epoch here named
      · exact nothing.elim

theorem carries_apply {e : ProjectEntry} (ok : e.apply s = some s') :
    Carries (fun _ project => project ∈ e.projects.delete) (fun _ => False) s s' := by
  obtain ⟨_,_,rfl⟩ := apply_ok ok
  have parents : Carries (fun _ project => project ∈ e.projects.delete) (fun _ => False)
      {s with workspaces := upsertTable s.workspaces e.workspaces.upsert
              projects := upsertTable s.projects e.projects.upsert} _ := carries_cascade (e := e) e.projects.delete _
  have followed : Carries (fun _ project => project ∈ e.projects.delete) (fun _ => False) s _ :=
    ⟨parents.roots,parents.derived⟩
  rw [ProjectEntry.restore]
  split
  next => exact followed.trans (.frame rfl rfl)
  next =>
    refine followed.trans (Carries.trans (Carries.frame ?_ ?_) (stays_clear _))
    · rfl
    · rfl

end Mutations

/-! ### Bindings that stay -/

/-- Some root is bound under the epoch. -/
def Held (s : Bindings) (epoch : String) : Prop :=
  ∃ root row, s.active.get? root = some row ∧ row.registrationEpoch = epoch

/-- Approvals are of active bindings, an epoch is active once or retired, and each was drawn. -/
structure Ledger (drawn : List String) (s : Bindings) : Prop where
  approved : ∀ epoch, s.approvals.has epoch = true → Held s epoch
  once : ∀ a b rowA rowB, s.active.get? a = some rowA → s.active.get? b = some rowB →
    rowA.registrationEpoch = rowB.registrationEpoch → a = b
  apart : ∀ root row, s.active.get? root = some row → s.retired.has row.registrationEpoch = false
  activeDrawn : ∀ root row, s.active.get? root = some row → row.registrationEpoch ∈ drawn
  retiredDrawn : ∀ epoch, s.retired.has epoch = true → epoch ∈ drawn

/-- What stays active, and which approvals stay, when the bindings that satisfy a condition go. -/
structure Leaves (goes : String → String → Prop) (s t : Bindings) : Prop where
  active : ∀ root row, t.active.get? root = some row → s.active.get? root = some row ∧ ¬ goes root row.projectId
  retired : ∀ epoch, t.retired.has epoch = true → s.retired.has epoch = true ∨ Held s epoch
  approvals : ∀ epoch, t.approvals.has epoch = true → s.approvals.has epoch = true

section Bindings

variable {drawn : List String} {s t u : Bindings}

theorem Ledger.empty : Ledger [] .empty :=
  ⟨fun _ has => (by cases has),fun _ _ _ _ found => (by cases found),fun _ _ found => (by cases found),
    fun _ _ found => (by cases found),fun _ has => (by cases has)⟩

theorem Ledger.more {more : List String} (ledger : Ledger drawn s) : Ledger (more ++ drawn) s :=
  ⟨ledger.approved,ledger.once,ledger.apart,
    fun root row found => List.mem_append_right _ (ledger.activeDrawn root row found),
    fun epoch has => List.mem_append_right _ (ledger.retiredDrawn epoch has)⟩

theorem Ledger.cleared : Ledger drawn .empty := by
  have := (Ledger.empty.more : Ledger (drawn ++ []) .empty)
  rwa [List.append_nil] at this

theorem Leaves.refl (s : Bindings) : Leaves (fun _ _ => False) s s :=
  ⟨fun _ _ found => ⟨found,not_false⟩,fun _ has => .inl has,fun _ has => has⟩

theorem Leaves.trans {goes goes' : String → String → Prop} (first : Leaves goes s t) (second : Leaves goes' t u) :
    Leaves (fun root project => goes root project ∨ goes' root project) s u where
  active root row found := by
    obtain ⟨middle,stays'⟩ := second.active root row found
    obtain ⟨before,stays⟩ := first.active root row middle
    exact ⟨before,not_or.mpr ⟨stays,stays'⟩⟩
  retired epoch has := by
    rcases second.retired epoch has with had | ⟨root,row,found,same⟩
    · exact first.retired epoch had
    · exact .inr ⟨root,row,(first.active root row found).1,same⟩
  approvals epoch has := first.approvals epoch (second.approvals epoch has)

theorem Leaves.congr {goes goes' : String → String → Prop} (leaves : Leaves goes s t)
    (same : ∀ root project, goes' root project → goes root project) : Leaves goes' s t :=
  ⟨fun root row found => (leaves.active root row found).imp_right fun stays going => stays (same _ _ going),
    leaves.retired,leaves.approvals⟩

theorem retireRows_has {picked : String → Binding → Bool} {reason : Reason} {epoch : String}
    (active : List (String × Binding)) {retired : Table String Retired}
    (has : (retireRows active picked reason retired).has epoch = true) :
    retired.has epoch = true ∨
      ∃ root row, (root,row) ∈ active ∧ picked root row = true ∧ row.registrationEpoch = epoch := by
  induction active generalizing retired with
  | nil => exact .inl has
  | cons entry rest ih =>
    obtain ⟨path,bound⟩ := entry
    rcases ih has with before | ⟨root,row,member,is_picked,same⟩
    · dsimp only at before
      split at before
      next is_picked =>
        rw [Table.has_insert,Bool.or_eq_true,decide_eq_true_eq] at before
        rcases before with same | before
        · exact .inr ⟨path,bound,List.mem_cons_self,is_picked,same.symm⟩
        · exact .inl before
      next => exact .inl before
    · exact .inr ⟨root,row,List.mem_cons_of_mem _ member,is_picked,same⟩

/-- A retirement that is not refused. -/
theorem retire_ok {picked : String → Binding → Bool} {reason : Reason} (ok : s.retire picked reason = .ok t) :
    (∀ root row, t.active.get? root = some row ↔ s.active.get? root = some row ∧ picked root row = false) ∧
    (∀ epoch, t.retired.has epoch = true → s.retired.has epoch = true ∨
      ∃ root row, s.active.get? root = some row ∧ picked root row = true ∧ row.registrationEpoch = epoch) ∧
    ∀ epoch, t.approvals.has epoch = true → s.approvals.has epoch = true ∧
      ∀ root row, s.active.get? root = some row → row.registrationEpoch = epoch → picked root row = false := by
  rw [Bindings.retire] at ok
  split at ok
  next => cases ok
  next =>
    cases ok
    refine ⟨?_,?_,?_⟩
    · intro root row
      rw [Table.get?_filter,Option.filter_eq_some_iff]
      simp
    · intro epoch has
      refine (retireRows_has _ has).imp_right ?_
      rintro ⟨root,row,member,is_picked,same⟩
      exact ⟨root,row,Table.mem_rows.mp member,is_picked,same⟩
    · intro epoch has
      obtain ⟨seq,found⟩ := Table.has_iff.mp has
      rw [Table.get?_filter,Option.filter_eq_some_iff] at found
      refine ⟨Table.has_iff.mpr ⟨seq,found.1⟩,?_⟩
      intro root row active same
      by_contra is_picked
      rw [Bool.not_eq_false] at is_picked
      have any : s.active.any (fun root row => picked root row && row.registrationEpoch == epoch) = true :=
        Table.any_eq_true.mpr ⟨root,row,active,by simp [is_picked,same]⟩
      simp [any] at found

theorem Ledger.retire {picked : String → Binding → Bool} {reason : Reason} (ledger : Ledger drawn s)
    (ok : s.retire picked reason = .ok t) : Ledger drawn t := by
  obtain ⟨active,retired,approvals⟩ := retire_ok ok
  have before : ∀ root row, t.active.get? root = some row → s.active.get? root = some row :=
    fun root row found => ((active root row).mp found).1
  refine ⟨?_,?_,?_,?_,?_⟩
  · intro epoch has
    obtain ⟨had,unpicked⟩ := approvals epoch has
    obtain ⟨root,row,found,same⟩ := ledger.approved epoch had
    exact ⟨root,row,(active root row).mpr ⟨found,unpicked root row found same⟩,same⟩
  · intro a b rowA rowB atA atB same
    exact ledger.once a b rowA rowB (before a rowA atA) (before b rowB atB) same
  · intro root row found
    obtain ⟨here,unpicked⟩ := (active root row).mp found
    by_contra gone
    rw [Bool.not_eq_false] at gone
    rcases retired _ gone with had | ⟨other,otherRow,there,is_picked,same⟩
    · rw [ledger.apart root row here] at had
      cases had
    · have itself := ledger.once other root otherRow row there here same
      rw [itself,here] at there
      cases there
      rw [itself,unpicked] at is_picked
      cases is_picked
  · intro root row found
    exact ledger.activeDrawn root row (before root row found)
  · intro epoch has
    rcases retired epoch has with had | ⟨root,row,found,_,same⟩
    · exact ledger.retiredDrawn epoch had
    · rw [← same]
      exact ledger.activeDrawn root row found

/-- Whatever the retirement picks goes. -/
theorem leaves_retire {picked : String → Binding → Bool} {reason : Reason} {goes : String → String → Prop}
    (picks : ∀ root row, goes root row.projectId → picked root row = true)
    (ok : s.retire picked reason = .ok t) : Leaves goes s t := by
  obtain ⟨active,retired,approvals⟩ := retire_ok ok
  refine ⟨?_,?_,fun epoch has => (approvals epoch has).1⟩
  · intro root row found
    obtain ⟨here,unpicked⟩ := (active root row).mp found
    refine ⟨here,fun going => ?_⟩
    rw [picks root row going] at unpicked
    cases unpicked
  · intro epoch has
    refine (retired epoch has).imp_right ?_
    rintro ⟨root,row,found,_,same⟩
    exact ⟨root,row,found,same⟩

theorem leaves_retireProject {id : String} (ok : retireProjectBindings s id = .ok t) :
    Leaves (fun _ project => project = id) s t :=
  leaves_retire (fun _ _ same => beq_iff_eq.mpr same) ok

theorem leaves_retireRoot {removed : String} (ok : retireRootBinding s removed = .ok t) :
    Leaves (fun root _ => root = removed) s t :=
  leaves_retire (fun _ _ same => beq_iff_eq.mpr same) ok

/-- The projects of a received change, one after the other. -/
theorem cascade_ok {change : ProjectEntry} (ok : cascadeBindings s change = .ok t) :
    Leaves (fun _ project => project ∈ change.projects.delete) s t ∧
      ∀ drawn, Ledger drawn s → Ledger drawn t := by
  rw [cascadeBindings] at ok
  generalize change.projects.delete = ids at ok ⊢
  induction ids generalizing s with
  | nil =>
    cases ok
    exact ⟨(Leaves.refl _).congr fun _ _ going => absurd going List.not_mem_nil,fun _ ledger => ledger⟩
  | cons id rest ih =>
    rw [List.foldlM_cons] at ok
    obtain ⟨middle,first,ok⟩ := bind_ok ok
    obtain ⟨leaves,kept⟩ := ih ok
    refine ⟨((leaves_retireProject first).trans leaves).congr ?_,fun drawn ledger => kept drawn (ledger.retire first)⟩
    intro root project going
    exact List.mem_cons.mp going

theorem insert_ok {root : String} {row : Binding} (ok : s.insert root row = .ok t) :
    s.active.get? root = none ∧ t = {s with active := s.active.insert root row} := by
  rw [Bindings.insert] at ok
  split at ok
  next => cases ok
  next absent =>
    split at ok
    next => cases ok
    next =>
      cases ok
      exact ⟨by simpa [Table.has] using absent,rfl⟩

/-- A binding under an epoch nobody has drawn. -/
theorem Ledger.insert {root : String} {row : Binding} (ledger : Ledger drawn s)
    (fresh : row.registrationEpoch ∉ drawn) (ok : s.insert root row = .ok t) :
    Ledger (row.registrationEpoch :: drawn) t := by
  obtain ⟨absent,rfl⟩ := insert_ok ok
  have cases_of : ∀ path other, (s.active.insert root row).get? path = some other →
      (path = root ∧ other = row) ∨ s.active.get? path = some other := by
    intro path other found
    rw [Table.get?_insert] at found
    split at found
    next same => cases found; exact .inl ⟨same,rfl⟩
    next => exact .inr found
  refine ⟨?_,?_,?_,?_,?_⟩
  · intro epoch has
    obtain ⟨path,other,found,same⟩ := ledger.approved epoch has
    refine ⟨path,other,?_,same⟩
    rw [Table.get?_insert]
    split
    next here => rw [here,absent] at found; cases found
    next => exact found
  · intro a b rowA rowB atA atB same
    rcases cases_of a rowA atA with ⟨rfl,rfl⟩ | beforeA <;> rcases cases_of b rowB atB with ⟨rfl,rfl⟩ | beforeB
    · rfl
    · exact absurd (by rw [same]; exact ledger.activeDrawn b rowB beforeB) fresh
    · exact absurd (by rw [← same]; exact ledger.activeDrawn a rowA beforeA) fresh
    · exact ledger.once a b rowA rowB beforeA beforeB same
  · intro path other found
    rcases cases_of path other found with ⟨rfl,rfl⟩ | before
    · by_contra gone
      rw [Bool.not_eq_false] at gone
      exact fresh (ledger.retiredDrawn _ gone)
    · exact ledger.apart path other before
  · intro path other found
    rcases cases_of path other found with ⟨rfl,rfl⟩ | before
    · exact List.mem_cons_self
    · exact List.mem_cons_of_mem _ (ledger.activeDrawn path other before)
  · exact fun epoch has => List.mem_cons_of_mem _ (ledger.retiredDrawn epoch has)

/-- A binding is written for its root, and the one it replaces goes. -/
theorem applyBind_ok {payload : BindPayload} (ok : applyBind s payload = .ok t) :
    (∀ root row, t.active.get? root = some row → s.active.get? root = some row ∨
      (root = payload.canonicalRoot ∧ row.projectId = payload.projectId ∧
        row.registrationEpoch = payload.registrationEpoch)) ∧
    (∀ epoch, t.retired.has epoch = true → s.retired.has epoch = true ∨ Held s epoch) ∧
    (∀ epoch, t.approvals.has epoch = true → s.approvals.has epoch = true) ∧
    (Ledger drawn s → payload.registrationEpoch ∉ drawn → Ledger (payload.registrationEpoch :: drawn) t) := by
  have freeing : ∃ freed, Leaves (fun _ _ => False) s freed ∧ (Ledger drawn s → Ledger drawn freed) ∧
      freed.insert payload.canonicalRoot
        ⟨payload.projectId,payload.incarnation,payload.registrationEpoch⟩ = .ok t := by
    rw [applyBind] at ok
    split at ok
    next =>
      obtain ⟨freed,first,ok⟩ := bind_ok ok
      exact ⟨freed,leaves_retire (fun _ _ nothing => nothing.elim) first,fun ledger => ledger.retire first,ok⟩
    next => exact ⟨s,.refl s,fun ledger => ledger,ok⟩
  obtain ⟨freed,freeing,kept,ok⟩ := freeing
  obtain ⟨_,written⟩ := insert_ok ok
  refine ⟨?_,?_,?_,fun ledger fresh => (kept ledger).insert fresh ok⟩
  · intro root row found
    rw [written,Table.get?_insert] at found
    split at found
    next same => cases found; exact .inr ⟨same,rfl,rfl⟩
    next => exact .inl (freeing.active root row found).1
  · intro epoch has
    rw [written] at has
    exact freeing.retired epoch has
  · intro epoch has
    rw [written] at has
    exact freeing.approvals epoch has

end Bindings

/-! ### What a step does -/

def Rooted (tables : Tables) (root project : String) : Prop :=
  ∃ row, tables.roots.get? root = some row ∧ row.projectId = project

/-- A binding stays where its root does, or is new, under an epoch the step draws; an approval
stays, or is the one the step gives. -/
structure Moves (goes : String → String → Prop) (draws : List String) (gives : String → Prop) (tables : Tables)
    (s t : Bindings) : Prop where
  active : ∀ root row, t.active.get? root = some row →
    (s.active.get? root = some row ∧ ¬ goes root row.projectId) ∨
      (row.registrationEpoch ∈ draws ∧ Rooted tables root row.projectId)
  retired : ∀ epoch, t.retired.has epoch = true → s.retired.has epoch = true ∨ Held s epoch
  approvals : ∀ epoch, t.approvals.has epoch = true → s.approvals.has epoch = true ∨ gives epoch
  ledger : ∀ drawn, Ledger drawn s → (∀ epoch ∈ draws, epoch ∉ drawn) → Ledger (draws ++ drawn) t

section Operations

variable {tables : Tables} {s t : Bindings} {disk : Checkout} {root : String}

theorem Moves.same {draws : List String} {gives : String → Prop} (tables : Tables) (s : Bindings) :
    Moves (fun _ _ => False) draws gives tables s s :=
  ⟨fun _ _ found => .inl ⟨found,not_false⟩,fun _ has => .inl has,fun _ has => .inl has,
    fun _ ledger _ => ledger.more⟩

theorem Leaves.moves {goes : String → String → Prop} {gives : String → Prop} (leaves : Leaves goes s t)
    (kept : ∀ drawn, Ledger drawn s → Ledger drawn t) : Moves goes [] gives tables s t :=
  ⟨fun root row found => .inl (leaves.active root row found),leaves.retired,
    fun epoch has => .inl (leaves.approvals epoch has),fun drawn ledger _ => kept drawn ledger⟩

/-- The new binding of a root of the project it names. -/
theorem moves_applyBind {payload : BindPayload} (ok : applyBind s payload = .ok t)
    (rooted : Rooted tables payload.canonicalRoot payload.projectId) :
    Moves (fun _ _ => False) [payload.registrationEpoch] (fun _ => False) tables s t := by
  refine ⟨?_,?_,?_,?_⟩
  · intro root row found
    rcases (@applyBind_ok [] s t payload ok).1 root row found with before | ⟨same,project,epoch⟩
    · exact .inl ⟨before,not_false⟩
    · refine .inr ⟨by rw [epoch]; exact List.mem_singleton_self _,?_⟩
      rw [same,project]
      exact rooted
  · exact (@applyBind_ok [] s t payload ok).2.1
  · exact fun epoch has => .inl ((@applyBind_ok [] s t payload ok).2.2.1 epoch has)
  · intro drawn ledger fresh
    exact (applyBind_ok ok).2.2.2 ledger (fresh _ (List.mem_singleton_self _))

theorem moves_bindRoot (ok : bindRoot tables s root disk = .ok t) :
    Moves (fun _ _ => False) [disk.epoch] (fun _ => False) tables s t := by
  rw [bindRoot] at ok
  split at ok
  next =>
    obtain ⟨_,_,ok⟩ := bind_ok ok
    obtain ⟨incarnation,_,bound⟩ := bind_ok ok
    split at bound
    next => cases bound
    next row found =>
      dsimp only at bound
      split at bound
      next => cases bound; exact .same tables _
      next => exact moves_applyBind bound ⟨row,found,rfl⟩
  next => cases ok

theorem moves_rebindRoot (ok : rebindRoot tables s root disk = .ok t) :
    Moves (fun _ _ => False) [disk.epoch] (fun _ => False) tables s t := by
  rw [rebindRoot] at ok
  split at ok
  next => cases ok
  next =>
    split at ok
    next => cases ok; exact .same tables _
    next => exact moves_bindRoot ok
    next => exact moves_bindRoot ok
    next => cases ok

theorem insertRoot_rooted {blake3 : Digest} {project : String} {entry : String × Option RootKey}
    (absent : tables.roots.get? entry.1 = none) : Rooted (insertRoot blake3 project tables entry) entry.1 project := by
  obtain ⟨path,key⟩ := entry
  have inserted : (tables.roots.insertOrIgnore path ⟨project,none⟩).get? path = some ⟨project,none⟩ := by
    rw [Table.get?_insertOrIgnore,if_pos rfl,absent]; rfl
  cases key with
  | none => exact ⟨_,inserted,rfl⟩
  | some key =>
    simp only [Rooted,Registry.insertRoot,assign,Table.get?_update,inserted,Option.map_some,Option.some.injEq,
      exists_eq_left',and_self,if_true]

theorem freshBinding_ok {project : String} {payload : BindPayload}
    (ok : freshBinding root project disk = .ok (some payload)) :
    payload.canonicalRoot = root ∧ payload.projectId = project ∧ payload.registrationEpoch = disk.epoch := by
  rw [freshBinding] at ok
  split at ok
  next =>
    split at ok
    next =>
      obtain ⟨_,_,ok⟩ := bind_ok ok
      obtain ⟨_,_,ok⟩ := bind_ok ok
      cases ok
      exact ⟨rfl,rfl,rfl⟩
    next => cases ok
  next => cases ok

theorem moves_bindAttached {site : Site} {req : AttachRootRequest} {action : Action}
    (attached : attachRoot site tables req = .ok action) (ok : bindAttached s disk action = .ok t) :
    Moves (fun _ _ => False) [disk.epoch] (fun _ => False) action.store s t := by
  rw [bindAttached.eq_def] at ok
  rcases attachRoot_ok attached with ⟨unchanged,_⟩ | ⟨project,key,changed,value,absent,written⟩
  · simp only [unchanged] at ok
    cases ok
    exact .same _ _
  · simp only [changed,value] at ok
    obtain ⟨fresh,drawn,ok⟩ := bind_ok ok
    cases fresh with
    | none => cases ok; exact .same _ _
    | some payload =>
      obtain ⟨path,named,epoch⟩ := freshBinding_ok drawn
      rw [← epoch]
      refine moves_applyBind ok ?_
      rw [path,named,written]
      exact @insertRoot_rooted _ _ _ (req.path,some key) absent

/-- A record says nothing of a binding, or has the root's. -/
theorem rootRecord_cases (s : Bindings) (identity : DiskIdentity) (root : String) :
    (∃ stated, rootRecord s identity root = .none root stated) ∨
      ∃ row, s.active.get? root = some row ∧ rootRecord s identity root = .of s root row := by
  rw [rootRecord.eq_def]
  split
  next => exact .inl ⟨_,rfl⟩
  next => exact .inl ⟨_,rfl⟩
  next => exact .inl ⟨_,rfl⟩
  next bound _ found =>
    split
    next => exact .inr ⟨bound,found,rfl⟩
    next => exact .inl ⟨_,rfl⟩
  next => exact .inl ⟨_,rfl⟩

theorem rootRecord_bound {identity : DiskIdentity} {epoch : String}
    (named : (rootRecord s identity root).registrationEpoch = some epoch) :
    ∃ row, s.active.get? root = some row ∧ row.registrationEpoch = epoch := by
  rcases rootRecord_cases s identity root with ⟨_,record⟩ | ⟨row,found,record⟩
  · rw [record] at named; cases named
  · rw [record] at named; cases named; exact ⟨row,found,rfl⟩

/-- An accepted approval or withdrawal names the epoch of the root's binding. -/
theorem setApproval_ok {identity : DiskIdentity} {approve : Bool} {seq : Nat} {reply : ApprovalReply}
    (ok : setApproval s identity root approve seq = .ok reply) :
    (∃ row, s.active.get? root = some row ∧ row.registrationEpoch = reply.registrationEpoch) ∧
      reply.bindings.active = s.active ∧ reply.bindings.retired = s.retired ∧
      ∀ epoch, reply.bindings.approvals.has epoch = true →
        s.approvals.has epoch = true ∨ (approve = true ∧ reply.registrationEpoch = epoch) := by
  rw [setApproval] at ok
  split at ok
  next => cases ok
  next epoch named =>
    have active := rootRecord_bound named
    split at ok
    next => cases ok; exact ⟨active,rfl,rfl,fun _ has => .inl has⟩
    next =>
      split at ok
      next approves =>
        cases ok
        refine ⟨active,rfl,rfl,?_⟩
        intro other has
        rw [Table.has_insertOrIgnore,Bool.or_eq_true,decide_eq_true_eq] at has
        exact has.symm.imp_right fun same => ⟨approves,same.symm⟩
      next =>
        cases ok
        refine ⟨active,rfl,rfl,?_⟩
        intro other has
        rw [Table.has_erase,Bool.and_eq_true] at has
        exact .inl has.2

theorem moves_setApproval {identity : DiskIdentity} {approve : Bool} {seq : Nat} {reply : ApprovalReply}
    (ok : setApproval s identity root approve seq = .ok reply) :
    Moves (fun _ _ => False) [] (fun epoch => approve = true ∧ reply.registrationEpoch = epoch) tables s
      reply.bindings := by
  obtain ⟨⟨row,found,named⟩,active,retired,approvals⟩ := setApproval_ok ok
  refine ⟨?_,?_,approvals,?_⟩
  · intro path other here
    rw [active] at here
    exact .inl ⟨here,not_false⟩
  · intro epoch has
    rw [retired] at has
    exact .inl has
  · intro drawn ledger _
    obtain ⟨approved,once,apart,activeDrawn,retiredDrawn⟩ := ledger
    rw [← active] at once apart activeDrawn
    rw [← retired] at apart retiredDrawn
    refine ⟨?_,once,apart,activeDrawn,retiredDrawn⟩
    intro epoch has
    rw [Held,active]
    rcases approvals epoch has with had | ⟨_,same⟩
    · exact approved epoch had
    · exact ⟨root,row,found,named.trans same⟩

end Operations

/-! ### Steps -/

/-- The roots a mutation or received change takes from their project. -/
def gone (tables : Tables) : Registry.Label → String → String → Prop
  | .removeRoot _ req, root, _ => root = req.root
  | .moveRootToNewProject _ req, root, _ => root = req.root
  | .remove _ req, _, project => req.workspaceId = none ∧ req.projectId = some project
  | .entry change, _, project => project ∈ change.projects.delete
  | .snapshot image supersedes, _, project => project ∈ (snapshotChanges tables image supersedes).projects.delete
  | _, _, _ => False

def goneKey (tables : Tables) : KeyLabel → String → String → Prop
  | .commit label => gone tables label
  | .join image supersedes => fun _ project => project ∈ (snapshotChanges tables image supersedes).projects.delete
  | .adopt => fun _ _ => True
  | _ => fun _ _ => False

/-- The epochs a mutation may attach a container under. -/
def attaches : KeyLabel → String → Prop
  | .commit (.attachDerivedParent site req), epoch => site.boundUnder req.root req.incarnation epoch = .ok ()
  | _, _ => False

theorem carries_next {s s' : Tables} {label : Registry.Label} (taken : next s label = some s') :
    Carries (gone s label) (attaches (.commit label)) s s' := by
  cases label with
  | register site req =>
    obtain ⟨_,ok,rfl⟩ := committed_eq_some taken
    exact (stays_register ok).weaken
  | upgradeImplicit site req =>
    obtain ⟨_,ok,rfl⟩ := committed_eq_some taken
    exact (stays_upgradeImplicit ok).weaken
  | seedImport site req =>
    obtain ⟨_,ok,rfl⟩ := committed_eq_some taken
    exact (stays_seedImport ok).weaken
  | addRoot site req =>
    obtain ⟨_,ok,rfl⟩ := committed_eq_some taken
    exact (stays_addRoot ok).weaken
  | attachRoot site req =>
    obtain ⟨_,ok,rfl⟩ := committed_eq_some taken
    exact (stays_attachRoot ok).weaken
  | removeRoot site req =>
    obtain ⟨_,ok,rfl⟩ := committed_eq_some taken
    exact carries_removeRoot ok
  | moveRootToNewProject site req =>
    obtain ⟨_,ok,rfl⟩ := committed_eq_some taken
    exact carries_moveRootToNewProject ok
  | attachDerivedParent site req =>
    obtain ⟨_,ok,rfl⟩ := committed_eq_some taken
    exact carries_attachDerivedParent ok
  | assignWorkspace site req =>
    obtain ⟨_,ok,rfl⟩ := committed_eq_some taken
    obtain ⟨roots,derived,_⟩ := assignWorkspace_routes ok
    exact .frame roots derived
  | remove site req =>
    obtain ⟨_,ok,rfl⟩ := committed_eq_some taken
    exact carries_remove ok
  | entry change => exact carries_apply taken
  | snapshot image supersedes => exact carries_apply (installSnapshot_ok taken)

theorem carries_keyNext {w w' : Store} {label : KeyLabel} (taken : keyNext w label = some w') :
    Carries (goneKey w.tables label) (attaches label) w.tables w'.tables := by
  cases keyNext_step taken with
  | commit _ stepped => exact carries_next stepped
  | beginEnable => exact .refl _
  | abandonEnable => exact .refl _
  | finishEnable _ finished =>
    rw [finishEnable] at finished
    split at finished
    next =>
      cases finished
      refine ⟨?_,fun _ row _ found named => .inl ⟨row,found,named⟩⟩
      intro root row found _
      simp only [replayRootKeys,Table.get?_update,found,Option.map_some,Option.some.injEq,exists_eq_left']
      split <;> rfl
    next => cases finished
  | join _ installed => exact carries_apply (installSnapshot_ok installed)
  | finishJoin => exact .refl _
  | adopt =>
    refine ⟨fun _ _ _ stays => absurd trivial stays,?_⟩
    intro parent row epoch found named
    rw [adoptStore] at found
    split at found
    next =>
      simp only [Table.get?_update,Option.map_eq_some_iff] at found
      obtain ⟨_,_,rfl⟩ := found
      cases named
    next => cases found

/-- A mutation binds no root but one it attaches. -/
def KeyLabel.draws : KeyLabel → Checkout → List String
  | .commit (.attachRoot _ _), disk => [disk.epoch]
  | _, _ => []

theorem moves_follow {s t : Bindings} {disk : Checkout} {tables tables' : Tables} {label : Registry.Label}
    (taken : next tables label = some tables') (ok : follow tables s disk label = .ok t) :
    Moves (gone tables label) (KeyLabel.draws (.commit label) disk) (fun _ => False) tables' s t := by
  cases label with
  | removeRoot site req =>
    exact (leaves_retireRoot ok).moves fun _ ledger => ledger.retire ok
  | moveRootToNewProject site req =>
    exact (leaves_retireRoot ok).moves fun _ ledger => ledger.retire ok
  | remove site req =>
    rw [follow] at ok
    split at ok
    next id unnamed given =>
      refine ((leaves_retireProject ok).congr ?_).moves fun _ ledger => ledger.retire ok
      rintro _ project ⟨_,same⟩
      rw [given] at same
      exact (Option.some.inj same).symm
    next other =>
      cases ok
      refine ((Leaves.refl s).congr ?_).moves fun _ ledger => ledger
      rintro _ project ⟨unnamed,given⟩
      exact other project unnamed given
  | attachRoot site req =>
    obtain ⟨action,attached,bound⟩ := bind_ok ok
    obtain ⟨other,attached',rfl⟩ := committed_eq_some taken
    rw [attached] at attached'
    cases attached'
    exact moves_bindAttached attached bound
  | entry change =>
    obtain ⟨leaves,kept⟩ := cascade_ok ok
    exact leaves.moves kept
  | snapshot image supersedes =>
    obtain ⟨leaves,kept⟩ := cascade_ok ok
    exact leaves.moves kept
  | _ => cases ok; exact .same _ _

theorem moves_followKey {s t : Bindings} {disk : Checkout} {w w' : Store} {label : KeyLabel}
    (taken : keyNext w label = some w') (ok : followKey w.tables s disk label = .ok t) :
    Moves (goneKey w.tables label) (KeyLabel.draws label disk) (fun _ => False) w'.tables s t := by
  cases keyNext_step taken with
  | commit _ stepped => exact moves_follow stepped ok
  | join =>
    obtain ⟨leaves,kept⟩ := cascade_ok ok
    exact leaves.moves kept
  | adopt =>
    cases ok
    exact ⟨fun _ _ found => (by cases found),fun _ has => (by cases has),fun _ has => (by cases has),
      fun _ _ _ => .cleared⟩
  | _ => cases ok; exact .same _ _

/-- What a step takes away, and what it attaches and approves. -/
def Label.goes (db : Db) : Label → String → String → Prop
  | .registry label disk => goneKey db.store.tables (siteOf db.bindings disk label)
  | _ => fun _ _ => False

def Label.attaches (db : Db) : Label → String → Prop
  | .registry label disk => RootBindings.attaches (siteOf db.bindings disk label)
  | _ => fun _ => False

/-- The root an `approve_root` approves, and the epoch its reply names. -/
def approves (db : Db) : Label → Option (String × String)
  | .approve root disk seq => (approveRoot db.bindings disk root seq).toOption.map fun reply =>
      (root,reply.registrationEpoch)
  | _ => none

structure Effect (db : Db) (label : Label) (db' : Db) : Prop where
  drawn : db'.drawn = label.draws ++ db.drawn
  carries : Carries (label.goes db) (label.attaches db) db.store.tables db'.store.tables
  moves : Moves (label.goes db) label.draws (fun epoch => ∃ root, approves db label = some (root,epoch))
    db'.store.tables db.bindings db'.bindings

theorem toOption_ok {α : Type} {result : Except RegistryError α} {value : α}
    (done : result.toOption = some value) : result = .ok value := by
  cases result with
  | error _ => cases done
  | ok other => cases done; rfl

theorem Moves.gives {goes : String → String → Prop} {draws : List String} {gives gives' : String → Prop}
    {tables : Tables} {s t : Bindings} (moves : Moves goes draws gives tables s t)
    (given : ∀ epoch, gives epoch → gives' epoch) : Moves goes draws gives' tables s t :=
  ⟨moves.active,moves.retired,fun epoch has => (moves.approvals epoch has).imp_right (given epoch),moves.ledger⟩

theorem draws_siteOf (s : Bindings) (disk : Checkout) (label : KeyLabel) :
    KeyLabel.draws (siteOf s disk label) disk = (Label.registry label disk).draws := by
  cases label with
  | commit label => cases label <;> rfl
  | _ => rfl

theorem step_effect {db db' : Db} {label : Label} (taken : step db label = some db') : Effect db label db' := by
  obtain ⟨⟨store,bindings⟩,done,rfl⟩ := Option.map_eq_some_iff.mp taken
  cases label with
  | registry label disk =>
    obtain ⟨store',stored,done⟩ := Option.bind_eq_some_iff.mp done
    obtain ⟨bindings',followed,done⟩ := Option.bind_eq_some_iff.mp done
    cases done
    have moves := moves_followKey stored (toOption_ok followed)
    rw [draws_siteOf] at moves
    exact ⟨rfl,carries_keyNext stored,moves.gives fun _ nothing => nothing.elim⟩
  | bind root disk =>
    obtain ⟨_,bound,same⟩ := Option.map_eq_some_iff.mp done
    cases same
    exact ⟨rfl,.refl _,(moves_bindRoot (toOption_ok bound)).gives fun _ nothing => nothing.elim⟩
  | rebind root disk =>
    obtain ⟨_,bound,same⟩ := Option.map_eq_some_iff.mp done
    cases same
    exact ⟨rfl,.refl _,(moves_rebindRoot (toOption_ok bound)).gives fun _ nothing => nothing.elim⟩
  | approve root disk seq =>
    obtain ⟨reply,approved,same⟩ := Option.map_eq_some_iff.mp done
    cases same
    refine ⟨rfl,.refl _,(moves_setApproval (toOption_ok approved)).gives ?_⟩
    rintro epoch ⟨_,same⟩
    exact ⟨root,by rw [approves,approved,← same]; rfl⟩
  | unapprove root disk seq =>
    obtain ⟨reply,withdrawn,same⟩ := Option.map_eq_some_iff.mp done
    cases same
    refine ⟨rfl,.refl _,(moves_setApproval (toOption_ok withdrawn)).gives ?_⟩
    rintro epoch ⟨nothing,_⟩
    cases nothing

/-! ### Runs -/

/-- The law: bindings are of registered roots, and containers name epochs that were drawn. -/
structure Law (db : Db) : Prop where
  ledger : Ledger db.drawn db.bindings
  rooted : ∀ root row, db.bindings.active.get? root = some row → Rooted db.store.tables root row.projectId
  containers : ∀ parent row epoch, db.store.tables.derived.get? parent = some row →
    row.registrationEpoch = some epoch → epoch ∈ db.drawn

theorem Law.fresh : Law .fresh :=
  ⟨.empty,fun _ _ found => (by cases found),fun _ _ _ found => (by cases found)⟩

/-- A container is attached under the epoch of an active binding. -/
theorem attaches_active {db : Db} {label : Label} {epoch : String} (attached : label.attaches db epoch) :
    Held db.bindings epoch := by
  cases label with
  | registry label disk =>
    cases label with
    | commit label =>
      cases label with
      | attachDerivedParent site req =>
        have checked : boundUnder db.bindings disk.identity req.root req.incarnation epoch = .ok () := attached
        rw [boundUnder] at checked
        split at checked
        next => cases checked
        next =>
          split at checked
          next => cases checked
          next =>
            split at checked
            next => cases checked
            next named =>
              exact ⟨req.root,rootRecord_bound (not_not.mp named)⟩
      | _ => exact attached.elim
    | _ => exact attached.elim
  | _ => exact attached.elim

theorem law_step {db db' : Db} {label : Label} (law : Law db) (fresh : Drawn db label)
    (taken : step db label = some db') : Law db' := by
  obtain ⟨drawn,carries,moves⟩ := step_effect taken
  refine ⟨?_,?_,?_⟩
  · rw [drawn]
    exact moves.ledger _ law.ledger fresh
  · intro root row found
    rcases moves.active root row found with ⟨before,stays⟩ | ⟨_,rooted⟩
    · obtain ⟨old,here,same⟩ := law.rooted root row before
      obtain ⟨new,there,same'⟩ := carries.roots root old here (by rw [same]; exact stays)
      exact ⟨new,there,same'.trans same⟩
    · exact rooted
  · intro parent row epoch found named
    rw [drawn]
    apply List.mem_append_right
    rcases carries.derived parent row epoch found named with ⟨old,here,named⟩ | attached
    · exact law.containers parent old epoch here named
    · obtain ⟨root,bound,active,rfl⟩ := attaches_active attached
      exact law.ledger.activeDrawn root bound active

theorem reached_law {db : Db} (reached : Reach step Drawn .fresh db) : Law db :=
  reached.invariant Law .fresh fun _ _ _ law fresh taken => law_step law fresh taken

/-- A binding that a run ends with was there at its start, or is under an epoch that was
drawn since. -/
theorem active_since {db db' : Db} {steps : List (Db × Label)} (path : Path step Drawn db steps db') :
    (∀ epoch ∈ db.drawn, epoch ∈ db'.drawn) ∧
    ∀ root row, db'.bindings.active.get? root = some row →
      db.bindings.active.get? root = some row ∨ row.registrationEpoch ∉ db.drawn := by
  induction path with
  | nil => exact ⟨fun _ member => member,fun _ _ found => .inl found⟩
  | cons label fresh taken _ ih =>
    obtain ⟨more,since⟩ := ih
    obtain ⟨drawn,_,moves⟩ := step_effect taken
    rw [drawn] at more since
    refine ⟨fun epoch member => more epoch (List.mem_append_right _ member),?_⟩
    intro root row found
    rcases since root row found with before | new
    · rcases moves.active root row before with ⟨start,_⟩ | ⟨isNew,_⟩
      · exact .inl start
      · exact .inr (fresh _ isNew)
    · exact .inr fun member => new (List.mem_append_right _ member)

theorem approves_active {db : Db} {label : Label} {root epoch : String} (named : approves db label = some (root,epoch)) :
    label.draws = [] ∧ ∃ row, db.bindings.active.get? root = some row ∧ row.registrationEpoch = epoch := by
  cases label with
  | approve path disk seq =>
    obtain ⟨reply,approved,same⟩ := Option.map_eq_some_iff.mp named
    cases same
    exact ⟨rfl,(setApproval_ok (toOption_ok approved)).1⟩
  | _ => cases named

/-- A binding under an epoch the step draws is unapproved. -/
theorem new_unapproved {db db' : Db} {label : Label} (law : Law db) (taken : step db label = some db')
    {epoch : String} (new : epoch ∉ db.drawn) : db'.bindings.approvals.has epoch = false := by
  by_contra given
  rw [Bool.not_eq_false] at given
  obtain ⟨_,_,moves⟩ := step_effect taken
  have held : Held db.bindings epoch := by
    rcases moves.approvals epoch given with had | ⟨root,named⟩
    · exact law.ledger.approved epoch had
    · exact ⟨root,(approves_active named).2⟩
  obtain ⟨root,row,active,rfl⟩ := held
  exact new (law.ledger.activeDrawn root row active)

/-- An approved binding that a run ends with was approved at its start, or by one of its
steps, which named the binding's epoch. -/
theorem approved_since {db db' : Db} {steps : List (Db × Label)} (path : Path step Drawn db steps db')
    (law : Law db) {root : String} {row : Binding} (active : db'.bindings.active.get? root = some row)
    (approved : db'.bindings.approvals.has row.registrationEpoch = true) :
    (db.bindings.active.get? root = some row ∧ db.bindings.approvals.has row.registrationEpoch = true) ∨
      ∃ before call after, steps = before ++ call :: after ∧
        approves call.1 call.2 = some (root,row.registrationEpoch) := by
  induction path with
  | nil => exact .inl ⟨active,approved⟩
  | cons label fresh taken rest ih =>
    rcases ih (law_step law fresh taken) active approved with ⟨here,given⟩ | ⟨before,call,after,split,named⟩
    · obtain ⟨_,_,moves⟩ := step_effect taken
      rcases moves.active root row here with ⟨start,_⟩ | ⟨isNew,_⟩
      · rcases moves.approvals _ given with had | ⟨other,named⟩
        · exact .inl ⟨start,had⟩
        · obtain ⟨_,bound,there,same⟩ := approves_active named
          rw [law.ledger.once other root bound row there start same] at named
          exact .inr ⟨[],(_,label),_,rfl,named⟩
      · rw [new_unapproved law taken (fresh _ isNew)] at given
        cases given
    · exact .inr ⟨_ :: before,call,after,by rw [split]; rfl,named⟩

def projectOf (db : Db) (root : String) : Option String := (db.store.tables.roots.get? root).map (·.projectId)

def epochOf (db : Db) (root : String) : Option String := (db.bindings.active.get? root).map (·.registrationEpoch)

/-- The root's project or binding changes, or the root is removed or moved by name. -/
def Displaced (db : Db) (label : Label) (db' : Db) (root : String) : Prop :=
  projectOf db root ≠ projectOf db' root ∨ epochOf db root ≠ epochOf db' root ∨
  match label with
  | .registry (.commit (.removeRoot _ req)) _ => req.root = root
  | .registry (.commit (.moveRootToNewProject _ req)) _ => req.root = root
  | _ => False

/-- A displaced root is unbound, or bound under an epoch the step draws. -/
theorem displaced_new {db db' : Db} {label : Label} {root : String} {row : Binding} (law : Law db)
    (fresh : Drawn db label) (taken : step db label = some db') (displaced : Displaced db label db' root)
    (active : db'.bindings.active.get? root = some row) : row.registrationEpoch ∉ db.drawn := by
  obtain ⟨_,carries,moves⟩ := step_effect taken
  rcases moves.active root row active with ⟨before,stays⟩ | ⟨isNew,_⟩
  · exfalso
    obtain ⟨old,here,same⟩ := law.rooted root row before
    obtain ⟨new,there,same'⟩ := carries.roots root old here (by rw [same]; exact stays)
    rcases displaced with project | epoch | named
    · rw [projectOf,projectOf,here,there,Option.map_some,Option.map_some,same'] at project
      exact project rfl
    · rw [epochOf,epochOf,before,active] at epoch
      exact epoch rfl
    · split at named
      next => exact stays named.symm
      next => exact stays named.symm
      next => exact named
  · exact fresh _ isNew

theorem rootRecord_approved {s : Bindings} {disk : DiskIdentity} {root : String} {seq : Nat}
    (approved : (rootRecord s disk root).approval = some seq) :
    ∃ row, s.active.get? root = some row ∧ s.approvals.has row.registrationEpoch = true ∧
      (rootRecord s disk root).registrationEpoch = some row.registrationEpoch := by
  rcases rootRecord_cases s disk root with ⟨_,record⟩ | ⟨row,active,record⟩
  · rw [record] at approved; cases approved
  · rw [record] at approved ⊢
    exact ⟨row,active,Table.has_iff.mpr ⟨seq,approved⟩,rfl⟩

/-- The container's source root is bound under the container's epoch. -/
def Current (db : Db) (container : DerivedParent) : Prop :=
  ∃ source row, container.sourceRoot = some source ∧ db.bindings.active.get? source = some row ∧
    container.registrationEpoch = some row.registrationEpoch

theorem worktreeRecord_stale {db : Db} {container : DerivedParent} (stale : ¬ Current db container)
    (disk : DiskIdentity) (worktree : String) :
    (worktreeRecord db.bindings disk worktree container).registrationEpoch = none ∧
      (worktreeRecord db.bindings disk worktree container).approval = none := by
  rw [worktreeRecord]
  split
  next source epoch from_root under =>
    split
    next => exact ⟨rfl,rfl⟩
    next row active =>
      split
      next => exact ⟨rfl,rfl⟩
      next same =>
        rw [not_not] at same
        exact absurd ⟨source,row,from_root,active,by rw [under,same]⟩ stale
  next => exact ⟨rfl,rfl⟩

/-- The step retires the epoch. -/
def Retires (db : Db) (epoch : String) (db' : Db) : Prop :=
  db.bindings.retired.has epoch = false ∧ db'.bindings.retired.has epoch = true

/-- An epoch that was drawn and is not active is never active again. -/
theorem never_held {db db' : Db} {steps : List (Db × Label)} {epoch : String}
    (path : Path step Drawn db steps db') (drawn : epoch ∈ db.drawn) (left : ¬ Held db.bindings epoch) :
    ¬ Held db'.bindings epoch := by
  rintro ⟨root,row,active,rfl⟩
  rcases (active_since path).2 root row active with before | new
  · exact left ⟨root,row,before,rfl⟩
  · exact new drawn

/-- Over every run whose epochs are drawn once: approvals are of active bindings, an epoch is
active for one root or retired and is retired once, a bound root is one of the project it is
bound in, a container is attached under its source root's epoch or never again, and a root
that changes its project or binding is unapproved until it is approved under the epoch it has
then, a new one. -/
theorem approvals_never_carry {db : Db} (reached : Reach step Drawn .fresh db) :
    (∀ epoch, db.bindings.approvals.has epoch = true → Held db.bindings epoch) ∧
    (∀ epoch, Held db.bindings epoch → db.bindings.retired.has epoch = false) ∧
    (∀ label db' epoch, Drawn db label → step db label = some db' → Retires db epoch db' →
      ∀ steps later, Path step Drawn db' steps later → ¬ Held later.bindings epoch ∧
        ∀ label last, step later label = some last → ¬ Retires later epoch last) ∧
    (∀ root row, db.bindings.active.get? root = some row → Rooted db.store.tables root row.projectId) ∧
    (∀ parent container, db.store.tables.derived.get? parent = some container →
      Current db container ∨
        (∀ disk worktree, (worktreeRecord db.bindings disk worktree container).registrationEpoch = none ∧
          (worktreeRecord db.bindings disk worktree container).approval = none) ∧
        ∀ steps later, Path step Drawn db steps later → ¬ Current later container) ∧
    ∀ label db' root, Drawn db label → step db label = some db' → Displaced db label db' root →
      (∀ disk, (rootRecord db'.bindings disk root).approval = none) ∧
      ∀ steps later disk seq, Path step Drawn db' steps later →
        (rootRecord later.bindings disk root).approval = some seq →
        ∃ epoch before call after, (rootRecord later.bindings disk root).registrationEpoch = some epoch ∧
          epoch ∉ db.drawn ∧ steps = before ++ call :: after ∧ approves call.1 call.2 = some (root,epoch) := by
  have law := reached_law reached
  have apart : ∀ {db}, Law db → ∀ epoch, Held db.bindings epoch → db.bindings.retired.has epoch = false := by
    rintro db law _ ⟨root,row,active,rfl⟩
    exact law.ledger.apart root row active
  refine ⟨law.ledger.approved,apart law,?_,law.rooted,?_,?_⟩
  · rintro label db' epoch fresh taken ⟨unretired,retired⟩ steps later path
    have law' := law_step law fresh taken
    have left : ¬ Held db'.bindings epoch := by
      intro held
      rw [apart law' epoch held] at retired
      cases retired
    have gone := never_held path (law'.ledger.retiredDrawn epoch retired) left
    refine ⟨gone,?_⟩
    rintro label last taken ⟨before,after⟩
    rcases (step_effect taken).moves.retired epoch after with had | held
    · rw [before] at had
      cases had
    · exact gone held
  · intro parent container found
    by_cases current : Current db container
    · exact .inl current
    · refine .inr ⟨worktreeRecord_stale current,?_⟩
      rintro steps later path ⟨source,row,from_root,active,under⟩
      rcases (active_since path).2 source row active with before | new
      · exact current ⟨source,row,from_root,before,under⟩
      · exact new (law.containers parent container _ found under)
  · intro label db' root fresh taken displaced
    have law' := law_step law fresh taken
    have new : ∀ row, db'.bindings.active.get? root = some row → row.registrationEpoch ∉ db.drawn :=
      fun row active => displaced_new law fresh taken displaced active
    refine ⟨?_,?_⟩
    · intro disk
      by_contra approved
      obtain ⟨seq,approved⟩ := Option.ne_none_iff_exists'.mp approved
      obtain ⟨row,active,given,_⟩ := rootRecord_approved approved
      rw [new_unapproved law taken (new row active)] at given
      cases given
    · intro steps later disk seq path approved
      obtain ⟨row,active,given,named⟩ := rootRecord_approved approved
      have isNew : row.registrationEpoch ∉ db.drawn := by
        rcases (active_since path).2 root row active with before | since
        · exact new row before
        · intro member
          apply since
          rw [(step_effect taken).drawn]
          exact List.mem_append_right _ member
      rcases approved_since path law' active given with ⟨before,had⟩ | ⟨before,call,after,split,called⟩
      · rw [new_unapproved law taken (new row before)] at had
        cases had
      · exact ⟨_,before,call,after,named,isNew,split,called⟩

/-- The check of one step, for runs that are executed. -/
def drawnCheck (db : Db) (label : Label) : Bool := label.draws.all fun epoch => !db.drawn.contains epoch

theorem drawnCheck_correct {db : Db} {label : Label} (checked : drawnCheck db label = true) : Drawn db label := by
  intro epoch member
  have := List.all_eq_true.mp checked epoch member
  simpa using this

namespace Readded
open Reminted (site)

/-- A checkout with the token `t`, and the epoch a call draws. -/
def checkout (epoch : String) : Checkout := ⟨.token "t",.token "t",true,.ok (.token "t"),.ok "t",epoch⟩

def commit (label : Registry.Label) : Label := .registry (.commit label) (checkout "")

/-- The root `/a` is registered, bound and approved. -/
def approved : List Label :=
  [commit (.register site ⟨none,some "p","p",none,none,["/a","/b"],[]⟩),.bind "/a" (checkout "e1"),
    .approve "/a" (.token "t") 3]

def removal : Label := commit (.removeRoot site ⟨"p","/a"⟩)

/-- It is added and bound again, and approved. -/
def again : List Label :=
  [commit (.addRoot site ⟨"p","/a",none⟩),.bind "/a" (checkout "e2"),.approve "/a" (.token "t") 7]

theorem approved_anew : ∃ db db' later, exec step Db.fresh approved = some db ∧
    (rootRecord db.bindings (.token "t") "/a").approval = some 3 ∧ step db removal = some db' ∧
    (rootRecord db'.bindings (.token "t") "/a").approval = none ∧ exec step db' again = some later ∧
    ∃ epoch, (rootRecord later.bindings (.token "t") "/a").registrationEpoch = some epoch ∧ epoch ∉ db.drawn := by
  have runs : ((exec step Db.fresh approved).bind fun db => (step db removal).bind fun db' =>
      exec step db' again).isSome = true := by decide +kernel
  obtain ⟨later,ran⟩ := Option.isSome_iff_exists.mp runs
  obtain ⟨db,first,ran⟩ := Option.bind_eq_some_iff.mp ran
  obtain ⟨db',removed,ran⟩ := Option.bind_eq_some_iff.mp ran
  have admitted : admits step drawnCheck Db.fresh approved = true := by decide +kernel
  have facts : (exec step Db.fresh approved).all (fun db =>
      decide ((rootRecord db.bindings (.token "t") "/a").approval = some 3 ∧ projectOf db "/a" = some "p") &&
        (step db removal).all fun db' => projectOf db' "/a" == none && admits step drawnCheck db' again &&
          (exec step db' again).all fun later =>
            decide ((rootRecord later.bindings (.token "t") "/a").approval = some 7)) = true := by decide +kernel
  rw [first,Option.all_some,removed,Option.all_some,ran,Option.all_some] at facts
  simp only [Bool.and_eq_true,decide_eq_true_eq,beq_iff_eq] at facts
  obtain ⟨⟨was_approved,was⟩,⟨unregistered,admitted'⟩,is_approved⟩ := facts
  have reached : Reach step Drawn .fresh db :=
    (admits_reach drawnCheck first admitted).mono fun _ _ checked => drawnCheck_correct checked
  obtain ⟨steps,path⟩ := admits_path drawnCheck (fun _ _ checked => drawnCheck_correct checked) ran admitted'
  have displaced : Displaced db removal db' "/a" := .inl (by rw [was,unregistered]; exact nofun)
  obtain ⟨unapproved,since⟩ :=
    (approvals_never_carry reached).2.2.2.2.2 removal db' "/a" (fun _ member => nomatch member) removed displaced
  obtain ⟨epoch,_,_,_,named,isNew,_,_⟩ := since steps later (.token "t") 7 path is_approved
  exact ⟨db,db',later,first,was_approved,removed,unapproved _,ran,epoch,named,isNew⟩

end Readded

end Entorhinal.RootBindings
