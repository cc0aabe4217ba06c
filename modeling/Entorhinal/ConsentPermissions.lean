import Entorhinal.ConsentLaw

/-! What a write with consent is allowed to do when it commits: its caller, its target and, where no card
was asked for, the standing permission it goes under. -/
namespace Entorhinal.Consent

open Approval (standing known)

variable {F : Type}

section Grants

/-- The grants follow the approvals: a key has a row from its first approval on, which is unrevoked while
an approval is the key's last event. -/
structure Tracks (g : Grants) (events : List (Approval GrantKey Unit)) : Prop where
  granted : ∀ key, known key events → ∃ id grant, g.rows.get? id = some grant ∧ grant.key = key
  standing : ∀ id grant, g.rows.get? id = some grant → (grant.revokedAtMs = none ↔ standing grant.key events = true)

theorem Tracks.start : Tracks .empty [] where
  granted := by rintro key ⟨_,member⟩; cases member
  standing := by intro id grant here; cases here

/-- The row that an approval writes, and that it is its key's only one. -/
structure Puts (g g' : Grants) (key : GrantKey) (id : String) (row : StandingGrant) : Prop where
  rows : g'.rows = g.rows.insert id row
  same : row.key = key
  live : row.revokedAtMs = none
  only : ∀ other old, g.rows.get? other = some old → (old.key = key ↔ other = id)

theorem put_ok {g g' : Grants} {grant : StandingGrant} {id : String} (ok : g.put grant = .ok (id,g')) :
    ∃ row, Puts g g' grant.key id row := by
  unfold Grants.put at ok
  split at ok
  next id' old here =>
    cases ok
    have ⟨stored,same⟩ := Grants.row_some here
    refine ⟨old.refresh grant,?_,same,rfl,?_⟩
    · show g.rows.insert old.id _ = _
      rw [g.keyed _ _ stored]
    · intro other held there
      constructor
      · exact fun key => g.unique _ _ _ _ there stored (key.trans same.symm)
      · rintro rfl
        cases stored.symm.trans there
        exact same
  next here =>
    split at ok
    next => cases ok
    next fresh =>
      cases ok
      refine ⟨{ grant with revokedAtMs := none },rfl,rfl,rfl,?_⟩
      intro other held there
      constructor
      · intro key
        exact absurd key (by simpa using Table.find?_none.mp here other held there)
      · rintro rfl
        exact absurd (Table.has_iff.mpr ⟨held,there⟩) fresh

theorem Tracks.put {g g' : Grants} {events : List (Approval GrantKey Unit)} {key : GrantKey} {id : String}
    {row : StandingGrant} (tracks : Tracks g events) (puts : Puts g g' key id row) :
    Tracks g' (.approved key ∅ :: events) where
  granted := by
    intro asked here
    by_cases same : key = asked
    · exact ⟨id,row,by simp [puts.rows],puts.same.trans same⟩
    · obtain ⟨other,old,held,rfl⟩ := tracks.granted asked (by simpa [same] using here)
      have apart : other ≠ id := fun here => same ((puts.only other old held).mpr here).symm
      exact ⟨other,old,by simp [puts.rows,apart,held],rfl⟩
  standing := by
    intro other old held
    rw [puts.rows,Table.get?_insert] at held
    split at held
    next =>
      cases held
      simp [puts.live,puts.same,Approval.standing]
    next apart =>
      have different : key ≠ old.key := fun same => apart ((puts.only other old held).mp same.symm)
      rw [tracks.standing other old held]
      simp [Approval.standing,different]

theorem Tracks.revoke {g : Grants} {events : List (Approval GrantKey Unit)} {id : String} {now : Int}
    (tracks : Tracks g events) :
    Tracks (g.revoke id now).2
      ((if (g.revoke id now).1 then ((g.rows.get? id).map fun grant => .revoked grant.key).toList else []) ++ events) := by
  unfold Grants.revoke
  split
  next grant here =>
    split
    next unrevoked =>
      have rows : (g.set (grant.revoke now) (Grants.others_same here rfl (g.keyed id grant here))).rows =
          g.rows.insert id (grant.revoke now) := by
        show g.rows.insert grant.id _ = _
        rw [g.keyed id grant here]
      simp only [here,if_true,Option.map_some,Option.toList_some,List.singleton_append]
      refine ⟨?_,?_⟩
      · intro asked known'
        obtain ⟨other,old,held,rfl⟩ := tracks.granted asked (by simpa using known')
        by_cases same : other = id
        · subst same
          cases here.symm.trans held
          exact ⟨other,grant.revoke now,by simp [rows],rfl⟩
        · exact ⟨other,old,by simp [rows,same,held],rfl⟩
      · intro other old held
        rw [rows,Table.get?_insert] at held
        split at held
        next =>
          cases held
          simp [StandingGrant.revoke,Approval.standing,StandingGrant.key]
        next apart =>
          have different : grant.key ≠ old.key := fun same => apart (g.unique _ _ _ _ held here same.symm)
          rw [tracks.standing other old held]
          simp [Approval.standing,different]
    next => exact tracks
  next => exact tracks

end Grants

section Frame

theorem beginRequest_grants {s s' : Store F} {request saved : ConsentRequest F}
    (ok : beginRequest s request = .ok (saved,s')) : s'.grants = s.grants := by
  obtain ⟨_,_,rfl⟩ | ⟨_,_,_,_,rfl⟩ := beginRequest_cases ok <;> rfl

theorem setElicitation_grants (s : Store F) (identity : RequestIdentity) (id : String) :
    (setElicitation s identity id).grants = s.grants := by
  unfold setElicitation
  split
  next => split <;> rfl
  next => rfl

theorem recordSettlement_grants (s : Store F) (identity : RequestIdentity) (digest scopeRef : String) (epoch : Int)
    (answer : RecordedSettlement) : (recordSettlement s identity digest scopeRef epoch answer).grants = s.grants := by
  unfold recordSettlement
  split
  next => split <;> rfl
  next => rfl

theorem savePage_grants (s : Store F) (scopeRef : String) (epoch : Int) (page : List Settling) (cursor : Int) :
    (savePage s scopeRef epoch page cursor).grants = s.grants := by
  suffices saved : (page.foldl (fun s settling =>
      recordSettlement s settling.identity settling.argsDigest scopeRef epoch settling.answer) s).grants = s.grants from saved
  induction page generalizing s with
  | nil => rfl
  | cons settling rest ih => exact (ih _).trans (recordSettlement_grants s _ _ _ _ _)

theorem deleteAwaiting_grants (s : Store F) (identity : RequestIdentity) :
    (deleteAwaiting s identity).grants = s.grants := by
  unfold deleteAwaiting
  split
  next => split <;> rfl
  next => rfl

theorem finishRequest_grants {s s' : Store F} {identity : RequestIdentity} {digest : String} {ending : Ending}
    {outcome : Json F} (ok : finishRequest s identity digest ending outcome = .ok s') : s'.grants = s.grants := by
  unfold finishRequest at ok
  split at ok
  next => cases ok; rfl
  next => cases ok

theorem openRequest_grants {s s' : Store F} {row saved : ConsentRequest F} {plan : Option (ConsentWrite F)}
    {inserted : Bool} (ok : openRequest s row plan = .ok (saved,inserted,s')) : s'.grants = s.grants := by
  obtain ⟨⟨saved',middle⟩,begun,ok⟩ := bind_ok ok
  have first := beginRequest_grants begun
  cases plan with
  | none => cases ok; exact first
  | some plan =>
    obtain ⟨planned,kept,ok⟩ := bind_ok ok
    obtain ⟨_,_,kept⟩ := bind_ok kept
    cases kept
    cases ok
    exact first

theorem refuseWrite_grants {s s' : Store F} {row : ConsentRequest F} {action : String} {target : Json F}
    {authorization : Authorization} {error : HandlerError F} {nowMs : Int} {outcome : Json F}
    (ok : refuseWrite s row action target authorization error nowMs = .ok (outcome,s')) : s'.grants = s.grants := by
  obtain ⟨saved,middle,begun,⟨done,finished,rfl⟩ | ⟨_,_,rfl⟩⟩ := refuseWrite_ok ok
  · exact (finishRequest_grants finished).trans (beginRequest_grants begun)
  · exact beginRequest_grants begun

theorem complete_grants {s s' : Store F} {commit : ConsentCommit F} {outcome : Json F}
    (ok : complete s commit outcome = .ok s') :
    match commit.granted with
    | some grant => ∃ id, s.grants.put grant = .ok (id,s'.grants)
    | none => s'.grants = s.grants := by
  obtain ⟨_,begun,granted,done,opened,put,finished,rfl⟩ := complete_ok ok
  have last : done.grants = granted.grants := finishRequest_grants finished
  have first := beginRequest_grants opened
  cases given : commit.granted with
  | none =>
    rw [given] at put
    cases put
    exact last.trans first
  | some grant =>
    rw [given] at put
    obtain ⟨⟨id,_⟩,accepted,rfl⟩ := map_ok put
    obtain ⟨⟨_,grants⟩,placed,accepted⟩ := bind_ok accepted
    cases accepted
    have last : done.grants = grants := last
    show ∃ id, s.grants.put grant = .ok (id,done.grants)
    rw [last,← first]
    exact ⟨_,placed⟩

end Frame

section Runs
variable [DecidableEq F]

/-- The approvals and revocations of the world are those its grants follow. -/
def Followed (w : World F) : Prop := Tracks w.store.grants w.events

theorem mutation_tracks {site : Site} {s s' : Store F} {commit : ConsentCommit F}
    {result : Except AgentMutationError (Directory × Json F)} {outcome : Json F}
    {events : List (Approval GrantKey Unit)} (tracks : Tracks s.grants events)
    (ok : mutation site s commit result = .ok (outcome,s')) :
    Tracks s'.grants ((if s.audit.length < s'.audit.length then
      (commit.granted.map fun grant => .approved grant.key ∅).toList else []) ++ events) := by
  obtain ⟨_,_,_,_,rfl⟩ | ⟨_,directory,_,completed⟩ := mutation_cases ok
  · simpa using tracks
  · obtain ⟨_,_,_,audit⟩ := (complete_ends completed).audit
    have grown : s.audit.length < s'.audit.length := by
      rw [audit,List.length_append]
      exact Nat.lt_succ_self _
    rw [if_pos grown]
    have placed := complete_grants completed
    cases given : commit.granted with
    | none =>
      rw [given] at placed
      have placed : s'.grants = s.grants := placed
      rw [placed]
      exact tracks
    | some grant =>
      rw [given] at placed
      obtain ⟨id,put⟩ := placed
      obtain ⟨row,puts⟩ := put_ok put
      exact tracks.put puts

theorem Followed.step {site : Site} {w w' : World F} {tx : Tx F} (follows : Followed w)
    (taken : next site w tx = some w') : Followed w' := by
  unfold next at taken
  split at taken
  next answer s ok =>
    cases taken
    have same : ∀ {s' : Store F}, s'.grants = w.store.grants → Tracks s'.grants w.events := by
      intro s' grants
      rw [grants]
      exact follows
    cases tx with
    | openRequest row plan =>
      obtain ⟨⟨_,_,_⟩,accepted,same'⟩ := map_ok ok
      cases same'
      exact same (openRequest_grants accepted)
    | setElicitation identity id => cases ok; exact same (setElicitation_grants _ _ _)
    | recordSettlement identity digest scopeRef epoch answer =>
      cases ok
      exact same (recordSettlement_grants _ _ _ _ _ _)
    | savePage scopeRef epoch page cursor => cases ok; exact same (savePage_grants _ _ _ _ _)
    | deleteAwaiting identity => cases ok; exact same (deleteAwaiting_grants _ _)
    | refuseWrite row action target authorization error nowMs =>
      obtain ⟨⟨_,_⟩,accepted,same'⟩ := map_ok ok
      cases same'
      exact same (refuseWrite_grants accepted)
    | applyConsentWrite plan commit result =>
      obtain ⟨⟨_,_⟩,accepted,same'⟩ := map_ok ok
      cases same'
      obtain ⟨_,_,written⟩ := bind_ok accepted
      exact mutation_tracks follows (mapError_ok written)
    | catalogInstall commit result =>
      obtain ⟨⟨_,_⟩,accepted,same'⟩ := map_ok ok
      cases same'
      exact mutation_tracks follows accepted
    | revokeGrant id now => cases ok; exact Tracks.revoke follows
    | setProjectHireCap project cap =>
      obtain ⟨_,accepted,same'⟩ := map_ok ok
      cases same'
      obtain rfl := setProjectHireCap_ok accepted
      exact same rfl
    | elsewhere directory => cases ok; exact same rfl
  next => cases taken; exact follows

theorem reached_followed {site : Site} {directory : Directory} {w : World F}
    (reached : Reached site directory w) : Followed w :=
  reached.invariant Followed (show Followed (World.start directory) from .start)
    fun _ _ _ follows _ taken => follows.step taken

end Runs

/-- A live holder and a subject that is still there. -/
def coverable (d : Directory) (key : GrantKey) : Bool :=
  (d.agents.get? key.holder).any (fun agent => agent.status == "live") &&
    match key.grantClass with
    | .hire => d.tables.projects.has key.scope
    | _ => d.tables.workspaces.has key.scope

theorem grantLive_iff {s : Store F} {id holder : String} :
    grantLive s id holder = true ↔ ∃ grant, s.grants.rows.get? id = some grant ∧ grant.holderAgentId = holder ∧
      grant.revokedAtMs = none ∧ coverable s.directory grant.key = true := by
  simp only [grantLive,Option.any_eq_true,Bool.and_eq_true,beq_iff_eq,Option.isNone_iff_eq_none]
  constructor
  · rintro ⟨grant,here,⟨⟨rfl,unrevoked⟩,live⟩,scope⟩
    refine ⟨grant,here,rfl,unrevoked,?_⟩
    rw [coverable,Bool.and_eq_true,Option.any_eq_true]
    exact ⟨by simpa [StandingGrant.key] using live,scope⟩
  · rintro ⟨grant,here,rfl,unrevoked,covers⟩
    rw [coverable,Bool.and_eq_true,Option.any_eq_true] at covers
    exact ⟨grant,here,⟨⟨rfl,unrevoked⟩,by simpa [StandingGrant.key] using covers.1⟩,covers.2⟩

theorem covering_some {s : Store F} {holder scope : String} {grantClass : GrantClass} {grant : StandingGrant}
    (covers : coveringConsentGrant s holder grantClass scope = some grant) :
    s.grants.rows.get? grant.id = some grant ∧ grant.key = ⟨holder,grantClass,scope⟩ ∧ grant.revokedAtMs = none ∧
      coverable s.directory grant.key = true := by
  obtain ⟨⟨id,held⟩,stored,rfl⟩ := Option.map_eq_some_iff.mp covers
  have ⟨here,holds⟩ := Table.find?_some stored
  rw [Bool.and_eq_true,beq_iff_eq] at holds
  obtain ⟨grant,there,_,unrevoked,covers⟩ := grantLive_iff.mp holds.2
  cases here.symm.trans there
  have named := s.grants.keyed id held here
  exact ⟨by rw [named]; exact here,holds.1,unrevoked,covers⟩

theorem covering_of {s : Store F} {key : GrantKey} {id : String} {grant : StandingGrant}
    (here : s.grants.rows.get? id = some grant) (same : grant.key = key) (unrevoked : grant.revokedAtMs = none)
    (covers : coverable s.directory key = true) :
    (coveringConsentGrant s key.holder key.grantClass key.scope).isSome = true := by
  rw [coveringConsentGrant,Option.isSome_map]
  by_contra none'
  rw [Bool.not_eq_true,Option.isSome_eq_false_iff,Option.isNone_iff_eq_none,Table.find?_none] at none'
  have refused := none' id grant here
  rw [Bool.and_eq_false_iff,beq_eq_false_iff_ne] at refused
  rcases refused with other | dead
  · exact other same
  · have live : grantLive s id key.holder = true := grantLive_iff.mpr ⟨grant,here,by rw [← same]; rfl,unrevoked,same ▸ covers⟩
    rw [live] at dead
    cases dead

section Commits

/-- The write a transaction carries out, if it does. -/
def Tx.commit? : Tx F → Option (ConsentCommit F)
  | .applyConsentWrite _ commit _ => some commit
  | .catalogInstall commit _ => some commit
  | _ => none

theorem prepareWrite_ok {site : Site} {d : Directory} {caps : Table String Int} {callerId tool : String}
    {arguments : Json F} {plan : ConsentWrite F} (ok : prepareWrite site d caps callerId tool arguments = .ok plan) :
    d.cutOver = true ∧ ∃ caller target, loadRow d callerId = some caller ∧ caller.status = "live" ∧
      writer tool = .ok caller.role ∧ prepareTarget site d caps caller callerId tool arguments = .ok target ∧
      plan = ⟨tool,arguments,target.1,target.2.1,target.2.2⟩ := by
  obtain ⟨_,cut,ok⟩ := bind_ok ok
  obtain ⟨caller,live,ok⟩ := bind_ok ok
  obtain ⟨role,may,ok⟩ := bind_ok ok
  obtain ⟨_,permitted,ok⟩ := bind_ok ok
  obtain ⟨target,prepared,ok⟩ := bind_ok ok
  cases ok
  have cut : (!d.cutOver) = false := reject_ok cut
  have same := bne_eq_false_iff_eq.mp (reject_ok permitted)
  have ⟨known,alive⟩ := liveCaller_ok live
  exact ⟨by simpa using cut,caller,target,known,alive,by rw [same]; exact may,prepared,rfl⟩

theorem checkHireCap_ok {d : Directory} {caps : Table String Int} {project : String} {result : Unit}
    (ok : checkHireCap d caps project = .ok result) :
    ((hireCap d caps project).liveHires : Int) < (hireCap d caps project).cap := by
  by_contra full
  simp only [checkHireCap,if_pos (not_lt.mp full)] at ok
  cases ok

theorem hireTarget_ok {d : Directory} {caps : Table String Int} {caller : Agents.AgentRow} {arguments : Json F}
    {target : Target F} (ok : hireTarget d caps caller arguments = .ok target) :
    ∃ project, caller.projectId = some project ∧ target.2 = (some .hire,some project) ∧
      ((hireCap d caps project).liveHires : Int) < (hireCap d caps project).cap := by
  obtain ⟨project,placed,ok⟩ := bind_ok ok
  obtain ⟨_,_,ok⟩ := bind_ok ok
  obtain ⟨_,_,ok⟩ := bind_ok ok
  obtain ⟨_,below,ok⟩ := bind_ok ok
  obtain ⟨_,_,ok⟩ := bind_ok ok
  obtain ⟨_,_,ok⟩ := bind_ok ok
  cases ok
  exact ⟨project,found_ok placed,rfl,checkHireCap_ok below⟩

theorem retireHireTarget_ok {d : Directory} {callerId : String} {arguments : Json F} {target : Target F}
    (ok : retireHireTarget d callerId arguments = .ok target) :
    ∃ id hire, text arguments "agent_id" = .ok id ∧ loadRow d id = some hire ∧ hire.status = "live" ∧
      hire.role = "hiree" ∧ hire.supervisorAgentId = some callerId := by
  obtain ⟨id,named,ok⟩ := bind_ok ok
  obtain ⟨hire,own,ok⟩ := bind_ok ok
  obtain ⟨here,holds⟩ := Option.filter_eq_some_iff.mp (found_ok own)
  simp only [Bool.and_eq_true,beq_iff_eq] at holds
  exact ⟨id,hire,named,here,holds.1.1,holds.1.2,holds.2⟩

theorem freshPlan_ok {site : Site} {s : Store F} {caller : String} {plan fresh : ConsentWrite F}
    (ok : freshPlan site s caller plan = .ok fresh) (prepared : plan.tool ≠ "catalog_install") :
    prepareWrite site s.directory s.caps caller plan.tool plan.arguments = .ok fresh := by
  rw [freshPlan,if_neg prepared] at ok
  exact mapError_ok ok

/-- What holds of a write at the moment it commits. -/
structure Authorized (site : Site) (w : World F) (commit : ConsentCommit F) : Prop where
  caller : ∃ row, loadRow w.store.directory commit.request.identity.agentId = some row ∧ row.status = "live" ∧
    (commit.target.tool ≠ "catalog_install" → writer commit.target.tool = .ok row.role)
  target : commit.target.tool ≠ "catalog_install" → prepareWrite site w.store.directory w.store.caps
    commit.request.identity.agentId commit.target.tool commit.target.arguments = .ok commit.target
  hire : commit.target.tool = "agents_hire" → ∃ project, commit.target.scopeId = some project ∧
    ((hireCap w.store.directory w.store.caps project).liveHires : Int) <
      (hireCap w.store.directory w.store.caps project).cap
  retire : commit.target.tool = "agents_retire_hire" → ∃ id hire, text commit.target.arguments "agent_id" = .ok id ∧
    loadRow w.store.directory id = some hire ∧ hire.status = "live" ∧ hire.role = "hiree" ∧
    hire.supervisorAgentId = some commit.request.identity.agentId
  grant : ∀ id, commit.authorization = .grant id → ∃ grantClass scope,
    commit.target.grantClass = some grantClass ∧ commit.target.scopeId = some scope ∧
    standing ⟨commit.request.identity.agentId,grantClass,scope⟩ w.events = true ∧
    coverable w.store.directory ⟨commit.request.identity.agentId,grantClass,scope⟩ = true

theorem Admitted.authorized {site : Site} {w : World F} {commit : ConsentCommit F} (follows : Followed w)
    (admitted : Admitted site w.store commit) : Authorized site w commit := by
  have prepared : commit.target.tool ≠ "catalog_install" → prepareWrite site w.store.directory w.store.caps
      commit.request.identity.agentId commit.target.tool commit.target.arguments = .ok commit.target :=
    freshPlan_ok admitted.plan
  obtain ⟨row,known,live⟩ := admitted.caller
  refine ⟨⟨row,known,live,?_⟩,prepared,?_,?_,?_⟩
  · intro other
    obtain ⟨_,caller,_,known',_,role,_⟩ := prepareWrite_ok (prepared other)
    cases known.symm.trans known'
    exact role
  · intro hires
    have other : commit.target.tool ≠ "catalog_install" := by
      rw [hires]
      decide
    obtain ⟨_,caller,target,_,_,_,made,same⟩ := prepareWrite_ok (prepared other)
    rw [hires,prepareTarget,if_neg (by decide),if_neg (by decide),if_neg (by decide),if_pos rfl] at made
    obtain ⟨project,_,scope,below⟩ := hireTarget_ok made
    refine ⟨project,?_,below⟩
    rw [same]
    exact congrArg Prod.snd scope
  · intro retires
    have other : commit.target.tool ≠ "catalog_install" := by
      rw [retires]
      decide
    obtain ⟨_,caller,target,_,_,_,made,_⟩ := prepareWrite_ok (prepared other)
    rw [retires,prepareTarget,if_neg (by decide),if_neg (by decide),if_neg (by decide),if_neg (by decide)] at made
    exact retireHireTarget_ok made
  · intro id under
    obtain ⟨covers,live⟩ := admitted.covers id under
    obtain ⟨grant,here,holder,unrevoked,covered⟩ := grantLive_iff.mp live
    rw [here,Option.map_some] at covers
    obtain ⟨grantClass,isClass,covers⟩ := Option.bind_eq_some_iff.mp covers.symm
    obtain ⟨scope,isScope,covers⟩ := Option.map_eq_some_iff.mp covers
    cases covers
    have key : grant.key = ⟨commit.request.identity.agentId,grant.grantClass,grant.scopeId⟩ := by
      rw [← holder]
      rfl
    refine ⟨_,_,isClass,isScope,?_,?_⟩
    · rw [← key]
      exact (follows.standing id grant here).mp unrevoked
    · rw [← key]
      exact covered

variable [DecidableEq F]

/-- Whatever calls came before, a write that commits has a live caller with the stored role for it, the
target it had when it was approved, an own hire or room for one where it is about hires, and a standing
permission where it names one. -/
theorem write_commits_authorized {site : Site} {directory : Directory} {w w' : World F} {tx : Tx F}
    {commit : ConsentCommit F} (reached : Reached site directory w) (writes : tx.commit? = some commit)
    (taken : next site w tx = some w') (committed : w.store.audit ≠ w'.store.audit) : Authorized site w commit := by
  have follows := reached_followed reached
  have admitted : ∀ {s' : Store F} {outcome : Json F} {result : Except AgentMutationError (Directory × Json F)},
      mutation site w.store commit result = .ok (outcome,s') → w.store.audit ≠ s'.audit →
      Authorized site w commit := by
    intro s' outcome result ok grown
    obtain ⟨_,_,_,_,rfl⟩ | ⟨checked,_⟩ := mutation_cases ok
    · exact absurd rfl grown
    · exact checked.authorized follows
  unfold next at taken
  split at taken
  next answer s ok =>
    cases taken
    cases tx with
    | applyConsentWrite plan commit' result =>
      cases writes
      obtain ⟨⟨_,_⟩,accepted,same⟩ := map_ok ok
      cases same
      obtain ⟨_,_,written⟩ := bind_ok accepted
      exact admitted (mapError_ok written) committed
    | catalogInstall commit' result =>
      cases writes
      obtain ⟨⟨_,_⟩,accepted,same⟩ := map_ok ok
      cases same
      exact admitted accepted committed
    | _ => cases writes
  next =>
    cases taken
    exact absurd rfl committed

/-- A permission is used without asking exactly while an approval of it is the last word on it, its holder
is live and its subject is there. -/
theorem covering_iff_standing {site : Site} {directory : Directory} {w : World F}
    (reached : Reached site directory w) (key : GrantKey) :
    (coveringConsentGrant w.store key.holder key.grantClass key.scope).isSome = true ↔
      standing key w.events = true ∧ coverable w.store.directory key = true := by
  have follows := reached_followed reached
  constructor
  · intro covers
    obtain ⟨grant,covers⟩ := Option.isSome_iff_exists.mp covers
    obtain ⟨here,same,unrevoked,covered⟩ := covering_some covers
    have same : grant.key = key := same
    rw [← same]
    exact ⟨(follows.standing _ _ here).mp unrevoked,covered⟩
  · rintro ⟨stands,covered⟩
    obtain ⟨id,grant,here,same⟩ := follows.granted key (Approval.standing_known stands)
    have unrevoked := (follows.standing id grant here).mpr (same ▸ stands)
    exact covering_of here same unrevoked covered

namespace Registered

theorem write_authorized : ∃ w, Transition.exec (next site) (World.start directory) asked = some w ∧
    Authorized site w commit := by
  have runs : (Transition.exec (next site) (World.start directory) asked).any (fun w =>
      (next site w write).any fun w' => decide (w.store.audit.length ≠ w'.store.audit.length)) = true := by decide +kernel
  obtain ⟨w,ran,runs⟩ := (Option.any_eq_true _ _).mp runs
  obtain ⟨w',taken,grown⟩ := (Option.any_eq_true _ _).mp runs
  have reached : Reached site directory w :=
    Transition.exec_admitted ran (named _ fun tx inside => List.mem_append_left _ inside)
  exact ⟨w,ran,write_commits_authorized reached (show write.commit? = some commit from rfl) taken
    fun same => of_decide_eq_true grown (congrArg _ same)⟩

theorem approval_covers : ∃ w, Transition.exec (next site) (World.start directory) (asked ++ [write]) = some w ∧
    (coveringConsentGrant w.store agent .registerProject "ws").isSome = true := by
  have runs : (Transition.exec (next site) (World.start directory) (asked ++ [write])).any (fun w =>
      decide (standing ⟨agent,.registerProject,"ws"⟩ w.events = true ∧
        coverable w.store.directory ⟨agent,.registerProject,"ws"⟩ = true)) = true := by decide +kernel
  obtain ⟨w,ran,stands⟩ := (Option.any_eq_true _ _).mp runs
  have covers := covering_iff_standing (asked_reached ran) ⟨agent,.registerProject,"ws"⟩
  exact ⟨w,ran,covers.mpr (of_decide_eq_true stands)⟩

end Registered

end Commits

end Entorhinal.Consent
