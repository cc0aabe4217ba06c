import Entorhinal.RegistryShared

/-! Project ids over whole runs: aliases never name a live project and always lead to one,
and a removed project is found under its last live successor. -/
namespace Entorhinal.Registry
open Transition Forwarding

/-- An accepted mutation or a received change. -/
inductive Label
  | register (site : Site) (req : RegisterRequest)
  | upgradeImplicit (site : Site) (req : UpgradeImplicitRequest)
  | seedImport (site : Site) (req : SeedImportRequest)
  | addRoot (site : Site) (req : AddRootRequest)
  | attachRoot (site : Site) (req : AttachRootRequest)
  | removeRoot (site : Site) (req : RemoveRootRequest)
  | moveRootToNewProject (site : Site) (req : MoveRootToNewProjectRequest)
  | attachDerivedParent (site : Site) (req : AttachDerivedParentRequest)
  | assignWorkspace (site : Site) (req : AssignWorkspaceRequest)
  | remove (site : Site) (req : RemoveRequest)
  | entry (change : ProjectEntry)
  | snapshot (image : ProjectEntry) (supersedes : Bool)

def committed (result : Except RegistryError Action) : Option Tables := result.toOption.map (·.store)

def next (s : Tables) : Label → Option Tables
  | .register site req => committed (register site s req)
  | .upgradeImplicit site req => committed (upgradeImplicit site s req)
  | .seedImport site req => committed (seedImport site s req)
  | .addRoot site req => committed (addRoot site s req)
  | .attachRoot site req => committed (attachRoot site s req)
  | .removeRoot site req => committed (removeRoot site s req)
  | .moveRootToNewProject site req => committed (moveRootToNewProject site s req)
  | .attachDerivedParent site req => committed (attachDerivedParent site s req)
  | .assignWorkspace site req => committed (assignWorkspace site s req)
  | .remove site req => committed (remove site s req)
  | .entry change => change.apply s
  | .snapshot image supersedes => installSnapshot image supersedes s

theorem committed_eq_some {result : Except RegistryError Action} {s' : Tables}
    (done : committed result = some s') : ∃ action, result = .ok action ∧ action.store = s' := by
  cases result with
  | error _ => cases done
  | ok action => exact ⟨action,rfl,by simpa [committed,Except.toOption] using done⟩

/-- The changes of an installed snapshot. -/
def snapshotChanges (s : Tables) (image : ProjectEntry) (supersedes : Bool) : ProjectEntry :=
  if supersedes then image.deleteAbsent s else image

theorem installSnapshot_ok {s s' : Tables} {image : ProjectEntry} {supersedes : Bool}
    (ok : installSnapshot image supersedes s = some s') :
    (snapshotChanges s image supersedes).apply s = some s' := by
  rw [installSnapshot] at ok
  split at ok
  next => exact ok
  next => cases ok

/-- What a step does to a live project. -/
def fate (s : Tables) : Label → String → Fate String
  | .remove _ req => removalFate req
  | .entry change => change.fate
  | .snapshot image supersedes => (snapshotChanges s image supersedes).fate
  | _ => fun _ => .stays

/-- A minted or upgraded id is no alias key, an implicit id is no live project, and a
received change fits the tables. -/
def Fits (s : Tables) : Label → Prop
  | .register site req => MintsFree site s req.sorted
  | .upgradeImplicit site req => UpgradesFree site s req
  | .entry change => EntryFits s change
  | .snapshot image supersedes => EntryFits s (snapshotChanges s image supersedes)
  | _ => True

def Label.mutates : Label → Bool
  | .entry _ => false
  | .snapshot _ _ => false
  | _ => true

/-- What a step that fits can do: let the tables grow, remove, or apply a change. -/
theorem step_cases {s s' : Tables} {label : Label} (sound : Sound s) (fits : Fits s label)
    (taken : next s label = some s') :
    (Grown s s' ∧ fate s label = fun _ => .stays) ∨
      (∃ site req action, remove site s req = .ok action ∧ action.store = s' ∧ fate s label = removalFate req) ∨
      ∃ e : ProjectEntry, label.mutates = false ∧ EntryFits s e ∧ e.apply s = some s' ∧ fate s label = e.fate := by
  cases label with
  | register site req =>
    obtain ⟨_,ok,rfl⟩ := committed_eq_some taken
    exact .inl ⟨grown_register sound fits ok,rfl⟩
  | upgradeImplicit site req =>
    obtain ⟨_,ok,rfl⟩ := committed_eq_some taken
    exact .inl ⟨grown_upgradeImplicit sound fits ok,rfl⟩
  | seedImport site req =>
    obtain ⟨_,ok,rfl⟩ := committed_eq_some taken
    exact .inl ⟨grown_seedImport sound ok,rfl⟩
  | addRoot site req =>
    obtain ⟨_,ok,rfl⟩ := committed_eq_some taken
    exact .inl ⟨grown_addRoot sound ok,rfl⟩
  | attachRoot site req =>
    obtain ⟨_,ok,rfl⟩ := committed_eq_some taken
    exact .inl ⟨grown_attachRoot sound ok,rfl⟩
  | removeRoot site req =>
    obtain ⟨_,ok,rfl⟩ := committed_eq_some taken
    exact .inl ⟨grown_removeRoot sound ok,rfl⟩
  | moveRootToNewProject site req =>
    obtain ⟨_,ok,rfl⟩ := committed_eq_some taken
    exact .inl ⟨grown_moveRootToNewProject sound ok,rfl⟩
  | attachDerivedParent site req =>
    obtain ⟨_,ok,rfl⟩ := committed_eq_some taken
    exact .inl ⟨grown_attachDerivedParent sound ok,rfl⟩
  | assignWorkspace site req =>
    obtain ⟨_,ok,rfl⟩ := committed_eq_some taken
    exact .inl ⟨grown_assignWorkspace sound ok,rfl⟩
  | remove site req =>
    obtain ⟨action,ok,store⟩ := committed_eq_some taken
    exact .inr (.inl ⟨site,req,action,ok,store,rfl⟩)
  | entry change => exact .inr (.inr ⟨change,rfl,fits,taken,rfl⟩)
  | snapshot image supersedes => exact .inr (.inr ⟨_,rfl,fits,installSnapshot_ok taken,rfl⟩)

theorem step_forwards {s s' : Tables} {label : Label} (sound : Sound s) (fits : Fits s label)
    (taken : next s label = some s') : Forwards (fate s label) s s' := by
  rcases step_cases sound fits taken with ⟨grown,fated⟩ | ⟨_,_,_,ok,rfl,fated⟩ | ⟨_,_,fits,ok,fated⟩
  · rw [fated]
    exact grown.forwards
  · rw [fated]
    exact ⟨sound_remove sound ok,carries_remove sound ok,fun _ _ moved => forwards_remove sound ok moved⟩
  · rw [fated]
    exact ⟨sound_apply sound fits ok,carries_apply fits ok,fun _ _ moved => forwards_apply ok moved⟩

theorem step_removes {s s' : Tables} {label : Label} (mutates : label.mutates = true) (sound : Sound s)
    (fits : Fits s label) (taken : next s label = some s') : Removes (fate s label) s s' := by
  rcases step_cases sound fits taken with ⟨grown,fated⟩ | ⟨_,_,_,ok,rfl,fated⟩ | ⟨_,received,_⟩
  · rw [fated]
    exact grown.removes
  · rw [fated]
    exact fun id live => remove_live sound ok live
  · rw [mutates] at received
    cases received

/-- An accepted mutation that does not fit leaves an alias that names a live project. -/
theorem step_unfit {s s' : Tables} {label : Label} (mutates : label.mutates = true) (sound : Sound s)
    (unfit : ¬ Fits s label) (taken : next s label = some s') :
    ∃ id target, s'.aliases.get? id = some target ∧ s'.live id = true := by
  cases label with
  | register site req =>
    obtain ⟨_,ok,rfl⟩ := committed_eq_some taken
    exact register_unfit sound unfit ok
  | upgradeImplicit site req =>
    obtain ⟨_,ok,rfl⟩ := committed_eq_some taken
    exact upgradeImplicit_unfit sound unfit ok
  | entry _ => cases mutates
  | snapshot _ _ => cases mutates
  | _ => exact absurd trivial unfit

theorem reached_sound {s : Tables} (reached : Reach next Fits Tables.empty s) : Sound s :=
  reached.invariant Sound Sound.empty fun _ _ _ sound fits taken => (step_forwards sound fits taken).sound

theorem resolve_forwarded {s : Tables} (sound : Sound s) {id target : String}
    (found : s.forwarding id = some target) :
    resolveProjectId s id = ⟨target,.alias⟩ ∧ s.live target = true ∧ s.live id = false := by
  obtain ⟨_,here⟩ := forwarding_eq_some.mp found
  have dead := sound.dead id target here
  refine ⟨?_,sound.direct id target here,dead⟩
  rw [resolveProjectId,dead,if_neg Bool.false_ne_true,here]

/-- Where a run lost a project, a step removed the project it stood for then, without a
successor. -/
theorem lost_where {steps : List (Tables × Label)} {id : String} (lost : follow (fates fate steps) id = none) :
    ∃ before step after last, steps = before ++ step :: after ∧ follow (fates fate before) id = some last ∧
      fate step.1 step.2 last = .ended := by
  obtain ⟨before,_,after,last,split,followed,ended⟩ := follow_none lost
  obtain ⟨first,rest,rfl,before_is,rest_is⟩ := List.map_eq_append_iff.mp split
  obtain ⟨step,second,rfl,step_is,_⟩ := List.map_eq_cons_iff.mp rest_is
  subst step_is
  exact ⟨first,step,second,last,rfl,by rw [fates,before_is]; exact followed,ended⟩

/-- In every run whose steps fit, an alias names no live project and leads to one, and a
project removed with a successor resolves to its last live successor, is not created again
meanwhile, and is lost only where that one is removed without a successor. What a mutation
that fits changes for other machines fits there; one that does not fit breaks this. -/
theorem project_ids_law {s : Tables} (reached : Reach next Fits Tables.empty s) :
    (∀ old target, s.aliases.get? old = some target → s.live old = false ∧ s.live target = true) ∧
    (∀ label id heir s', Fits s label → next s label = some s' → fate s label id = .moved heir →
      ∀ steps s'', Path next Fits s' steps s'' →
        match follow (fates fate steps) heir with
        | some last => resolveProjectId s'' id = ⟨last,.alias⟩ ∧ s''.live last = true ∧ s''.live id = false
        | none => ∃ before step after last, steps = before ++ step :: after ∧
            follow (fates fate before) heir = some last ∧ fate step.1 step.2 last = .ended) ∧
    (∀ label s', label.mutates = true → next s label = some s' →
      (Fits s label → ∀ t, SameShared s t → EntryFits t (projectDelta s s')) ∧
      (Fits s label ↔ ∀ old target, s'.aliases.get? old = some target → s'.live old = false)) := by
  have sound := reached_sound reached
  refine ⟨fun old target found => ⟨sound.dead old target found,sound.direct old target found⟩,?_,?_⟩
  · intro label id heir s' fits taken moved steps s'' path
    have removed := step_forwards sound fits taken
    have entry := removed.moved id heir moved
    cases followed : follow (fates fate steps) heir with
    | none => exact lost_where followed
    | some last =>
      have kept : ∀ s label s', Sound s → Fits s label → next s label = some s' → Sound s' :=
        fun _ _ _ sound fits taken => (step_forwards sound fits taken).sound
      have carried : ∀ s label s', Sound s → Fits s label → next s label = some s' →
          Carries (fate s label) s.forwarding s'.forwarding :=
        fun _ _ _ sound fits taken => (step_forwards sound fits taken).carries
      have found := lookup_of_follow kept carried path removed.sound entry followed
      have end_sound := path.reach.invariant Sound removed.sound kept
      exact resolve_forwarded end_sound found
  · intro label s' mutates taken
    refine ⟨fun fits t same => ?_,fun fits => (step_forwards sound fits taken).sound.dead,fun dead => ?_⟩
    · exact projectDelta_fits sound (step_forwards sound fits taken) (step_removes mutates sound fits taken) same
    · by_contra unfit
      obtain ⟨id,target,found,live⟩ := step_unfit mutates sound unfit taken
      rw [dead id target found] at live
      cases live

/-- The check of one step, for runs that are executed. -/
def fitsCheck (s : Tables) : Label → Bool
  | .register site req => req.projectId.isSome || !(owners s req.sorted).isEmpty ||
      (s.aliases.get? (mint site.blake3 "register1" req.sorted.name req.sorted.roots)).isNone
  | .remove _ _ => true
  | _ => false

theorem fitsCheck_correct {s : Tables} {label : Label} (checked : fitsCheck s label = true) : Fits s label := by
  cases label with
  | register site req =>
    intro none_given no_owner
    have no_id : req.projectId = none := none_given
    simpa [fitsCheck,no_id,no_owner] using checked
  | remove site req => trivial
  | _ => cases checked

/-! ### Runs -/

namespace Reminted

/-- No log, no remotes, nothing refused. -/
def site : Site where
  blake3 text := (text.toList.map fun c => Fin.ofNat 16 c.toNat).take 16
  logEnabled := false
  canonical _ := .ok ()
  rootRemotes _ := ([],none)
  lowercase := String.toLower
  planCarry _ _ := .ok ()
  admitCarry := .ok ()
  projectUnbound _ := .ok ()
  workspaceUnbound _ := .ok ()
  domainCanonical _ := true
  freshBinding _ := .ok ()
  boundUnder _ _ _ := .ok ()
  homes := .ok ()
  seedPath _ path := .survives path

def registration (projectId : Option String) (name : String) (roots : List String) : Label :=
  .register site ⟨none,projectId,name,none,none,roots,[]⟩

def removal (id : String) (successor : Option String) : Label :=
  .remove site ⟨some id,successor,none⟩

/-- The id of a registration of `/a` under the name `a`. -/
def minted : String := mint site.blake3 "register1" "a" ["/a"]

/-- `a` is merged into `s`, which gives up its root. -/
def merged : List Label :=
  [registration none "a" ["/a"],registration (some "s") "s" ["/s"],removal minted (some "s"),
    .removeRoot site ⟨"s","/a"⟩]

/-- `s` is merged into `u` in turn. -/
theorem merged_resolves : ∃ s s' middle s'', exec next Tables.empty (merged.take 2) = some s ∧
    next s (removal minted (some "s")) = some s' ∧ next s' (registration (some "u") "u" []) = some middle ∧
    next middle (removal "s" (some "u")) = some s'' ∧
    resolveProjectId s'' minted = ⟨"u",.alias⟩ ∧ s''.live "u" = true ∧ s''.live minted = false := by
  have enabled : (exec next Tables.empty (merged.take 2)).isSome = true := by decide +kernel
  have admitted : admits next fitsCheck Tables.empty (merged.take 2) = true := by decide +kernel
  have removes : (exec next Tables.empty (merged.take 2)).all (fun s =>
    (next s (removal minted (some "s"))).isSome) = true := by decide +kernel
  have adds : (exec next Tables.empty (merged.take 2)).all (fun s => (next s (removal minted (some "s"))).all
    fun s' => (next s' (registration (some "u") "u" [])).isSome) = true := by decide +kernel
  have merges : (exec next Tables.empty (merged.take 2)).all (fun s => (next s (removal minted (some "s"))).all
    fun s' => (next s' (registration (some "u") "u" [])).all fun middle =>
      (next middle (removal "s" (some "u"))).isSome) = true := by decide +kernel
  obtain ⟨s,ran⟩ := Option.isSome_iff_exists.mp enabled
  simp only [ran,Option.all_some] at removes adds merges
  obtain ⟨s',removed⟩ := Option.isSome_iff_exists.mp removes
  simp only [removed,Option.all_some] at adds merges
  obtain ⟨middle,added⟩ := Option.isSome_iff_exists.mp adds
  simp only [added,Option.all_some] at merges
  obtain ⟨s'',merged⟩ := Option.isSome_iff_exists.mp merges
  have reached : Reach next Fits Tables.empty s :=
    (admits_reach fitsCheck ran admitted).mono fun _ _ checked => fitsCheck_correct checked
  have given : Fits s' (registration (some "u") "u" []) := nofun
  have path : Path next Fits s' [(s',registration (some "u") "u" []),(middle,removal "s" (some "u"))] s'' :=
    .cons _ given added (.cons _ trivial merged (.nil s''))
  have law := (project_ids_law reached).2.1 (removal minted (some "s")) minted "s" s' trivial removed rfl _ s'' path
  exact ⟨s,s',middle,s'',ran,removed,added,merged,law⟩

/-- `a` is registered again under its old id, which still leads to `s`. -/
theorem reminted : ¬ ∀ s, Reach next Free Tables.empty s → ∀ old target, s.aliases.get? old = some target →
    s.live old = false := by
  intro law
  have enabled : (exec next Tables.empty (merged ++ [registration none "a" ["/a"]])).isSome = true := by
    decide +kernel
  obtain ⟨s,ran⟩ := Option.isSome_iff_exists.mp enabled
  have facts : (exec next Tables.empty (merged ++ [registration none "a" ["/a"]])).all (fun s =>
    decide (s.aliases.get? minted = some "s" ∧ s.live minted = true)) = true := by decide +kernel
  rw [ran,Option.all_some,decide_eq_true_eq] at facts
  have dead := law s (exec_reach ran) minted "s" facts.1
  rw [facts.2] at dead
  cases dead

end Reminted

end Entorhinal.Registry
