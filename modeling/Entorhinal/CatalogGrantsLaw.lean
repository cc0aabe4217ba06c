import Entorhinal.CatalogEffect

/-! Publisher grants follow the approvals: a grant row holds everything ever approved
under its key and is unrevoked while an approval is the key's last event, and the audit
is the trail of the approvals and revocations. -/
namespace Entorhinal.Catalog

open Approval (tokens standing known trail)

/-- A list names the tokens of a set, in order and once each. -/
structure Lists (list : List String) (set : Finset String) : Prop where
  members : list.toFinset = set
  sorted : list.Pairwise (· < ·)

theorem Lists.mem {list : List String} {set : Finset String} (lists : Lists list set) {token : String} :
    token ∈ list ↔ token ∈ set := by
  rw [← lists.members,List.mem_toFinset]

theorem tokenSet_lists (tokens : List String) : Lists (tokenSet tokens) tokens.toFinset where
  members := by
    ext token
    simp [tokenSet]
  sorted := by
    have ordered := List.pairwise_insertionSort (· ≤ ·) tokens.dedup
    have once : (tokenSet tokens).Nodup :=
      (List.perm_insertionSort (· ≤ ·) tokens.dedup).nodup_iff.mpr (List.nodup_dedup tokens)
    exact (ordered.and once).imp fun both => lt_of_le_of_ne both.1 both.2

theorem tokenSet_append {a b : List String} {held : Finset String} (lists : Lists b held) :
    Lists (tokenSet (a ++ b)) (a.toFinset ∪ held) := by
  rw [← lists.members,← List.toFinset_append]
  exact tokenSet_lists (a ++ b)

/-- An audit row tells the event it was written for and the ceiling that resulted. -/
structure Tells (row : AuditRow) (entry : Approval GrantKey String × Finset String) : Prop where
  key : row.key = entry.1.key
  ceiling : Lists row.ceiling entry.2
  revokes : row.kind = .grantRevoke ↔ entry.1 = .revoked row.key

structure Tracks (store : Permissions) (approvals : Approvals) : Prop where
  granted : ∀ key, known key approvals → ∃ id grant, store.grants.rows.get? id = some grant ∧ grant.key = key
  ceiling : ∀ id grant, store.grants.rows.get? id = some grant →
    Lists grant.ceiling (tokens grant.key approvals)
  standing : ∀ id grant, store.grants.rows.get? id = some grant →
    (grant.revokedAtMs = none ↔ standing grant.key approvals = true)
  audited : List.Forall₂ Tells store.audit (trail approvals)

namespace Tracks

variable {store : Permissions} {approvals : Approvals}

theorem start : Tracks ∅ [] where
  granted := by rintro key ⟨_,member⟩; cases member
  ceiling := by intro id grant found; cases found
  standing := by intro id grant found; cases found
  audited := .nil

/-- One row of a key is written by an approval, and the other rows stay. -/
theorem put {rows : GrantRows} {grant row : PublisherGrant} {kind : AuditKind}
    {principal : String} {at' : Int} (tracks : Tracks store approvals) (id : String)
    (written : rows.rows = store.grants.rows.insert id row) (key : row.key = grant.key)
    (only : ∀ other old, store.grants.rows.get? other = some old → (old.key = grant.key ↔ other = id))
    (ceiling : Lists row.ceiling (grant.ceiling.toFinset ∪ tokens grant.key approvals))
    (live : row.revokedAtMs = none) (approves : kind ≠ .grantRevoke) :
    Tracks ⟨rows,auditRow kind row principal at' :: store.audit⟩ (grant.approval :: approvals) where
  granted := by
    intro asked here
    by_cases same : grant.key = asked
    · exact ⟨id,row,by simp [written],by rw [key,same]⟩
    · obtain ⟨other,old,found,rfl⟩ := tracks.granted asked
        (by simpa [PublisherGrant.approval,same] using here)
      have apart : other ≠ id := fun here => same ((only other old found).mpr here).symm
      exact ⟨other,old,by simp [written,apart,found],rfl⟩
  ceiling := by
    intro other old found
    rw [written,Table.get?_insert] at found
    split at found
    next =>
      cases found
      rw [key,PublisherGrant.approval,tokens,if_pos rfl]
      exact ceiling
    next apart =>
      have different : grant.key ≠ old.key := fun same => apart ((only other old found).mp same.symm)
      rw [PublisherGrant.approval,tokens,if_neg different]
      exact tracks.ceiling other old found
  standing := by
    intro other old found
    rw [written,Table.get?_insert] at found
    split at found
    next =>
      cases found
      simp [live,key,PublisherGrant.approval,Approval.standing]
    next apart =>
      have different : grant.key ≠ old.key := fun same => apart ((only other old found).mp same.symm)
      rw [tracks.standing other old found]
      simp [PublisherGrant.approval,Approval.standing,different]
  audited := by
    refine .cons ⟨key,?_,?_⟩ tracks.audited
    · simpa [auditRow,PublisherGrant.approval,Approval.key,tokens] using ceiling
    · simp [auditRow,approves,PublisherGrant.approval]

theorem revoke {rows : GrantRows} {id : String} {grant : PublisherGrant} {principal : String} {now : Int}
    (tracks : Tracks store approvals) (found : store.grants.rows.get? id = some grant)
    (written : rows.rows = store.grants.rows.insert id { grant with revokedAtMs := some now }) :
    Tracks ⟨rows,auditRow .grantRevoke grant principal now :: store.audit⟩
      (.revoked grant.key :: approvals) where
  granted := by
    intro asked here
    obtain ⟨other,old,present,rfl⟩ := tracks.granted asked (by simpa using here)
    by_cases same : other = id
    · subst same
      cases found.symm.trans present
      exact ⟨other,{ grant with revokedAtMs := some now },by simp [written],rfl⟩
    · exact ⟨other,old,by simp [written,same,present],rfl⟩
  ceiling := by
    intro other old present
    rw [written,Table.get?_insert] at present
    split at present
    next => cases present; exact tracks.ceiling id grant found
    next => exact tracks.ceiling other old present
  standing := by
    intro other old present
    rw [written,Table.get?_insert] at present
    split at present
    next => cases present; simp [Approval.standing]
    next apart =>
      have different : grant.key ≠ old.key := by
        intro same
        exact apart (store.grants.unique other id old grant present found same.symm)
      rw [tracks.standing other old present]
      simp [Approval.standing,different]
  audited := by
    refine .cons ⟨rfl,?_,?_⟩ tracks.audited
    · exact tracks.ceiling id grant found
    · simp [auditRow]

theorem putGrant {grant : PublisherGrant} {principal id : String} {done : Permissions}
    (tracks : Tracks store approvals) (ok : putGrant store grant principal = .ok (done,id)) :
    Tracks done (grant.approval :: approvals) := by
  simp only [Catalog.putGrant] at ok
  split at ok
  next old prior found =>
    cases ok
    obtain ⟨present,same⟩ := Table.find?_some found
    have same : prior.key = grant.key := eq_of_beq same
    refine tracks.put id rfl rfl ?_ ?_ rfl (by simp)
    · intro other row here
      constructor
      · intro key
        exact store.grants.unique other id row prior here present (key.trans same.symm)
      · rintro rfl
        cases here.symm.trans present
        exact same
    · rw [← same]
      exact tokenSet_append (tracks.ceiling id prior present)
  next absent =>
    split at ok
    next => cases ok
    next fresh =>
      cases ok
      have none_of_key : ∀ other row, store.grants.rows.get? other = some row → row.key ≠ grant.key := by
        intro other row here
        simpa using Table.find?_none.mp absent other row here
      have unknown : ¬ known grant.key approvals := by
        intro before
        obtain ⟨other,row,here,key⟩ := tracks.granted grant.key before
        exact none_of_key other row here key
      refine tracks.put grant.id rfl rfl ?_ ?_ rfl (by simp)
      · intro other row here
        refine ⟨fun key => absurd key (none_of_key other row here),?_⟩
        rintro rfl
        simp [Table.has,here] at fresh
      · rw [Approval.tokens_unknown unknown,Finset.union_empty]
        exact tokenSet_lists grant.ceiling

theorem putGrants {grants : List PublisherGrant} {principal : String} {done : Permissions}
    (tracks : Tracks store approvals) (ok : putGrants store grants principal = .ok done) :
    Tracks done ((grants.map PublisherGrant.approval).reverse ++ approvals) := by
  induction grants generalizing store approvals with
  | nil => cases ok; exact tracks
  | cons grant rest ih =>
    obtain ⟨made,put,ok⟩ := bind_ok ok
    dsimp only at put
    cases first : Catalog.putGrant store grant principal with
    | error e => rw [first] at put; cases put
    | ok result =>
      rw [first] at put
      cases put
      have later := ih (tracks.putGrant first) ok
      simpa using later

end Tracks

theorem insertGrant_ok {store : CatalogStore} {grant : PublisherGrant} {principal : String} {done : Outcome}
    (ok : insertGrantCall store grant principal = .ok done) :
    ∃ permissions id, putGrant store.permissions grant principal = .ok (permissions,id) ∧
      done = ⟨{ store with permissions := permissions },[grant.approval]⟩ := by
  obtain ⟨⟨permissions,id⟩,inserted,ok⟩ := bind_ok ok
  cases ok
  rw [insertPublisherGrant] at inserted
  split at inserted
  next => cases inserted
  next => exact ⟨permissions,id,inserted,rfl⟩
  next => cases inserted

theorem writeStatuses_permissions (store : CatalogStore) (records : List StatusRecord) :
    (writeStatuses store records).permissions = store.permissions := by
  rw [writeStatuses]
  split <;> rfl

theorem generationStep_permissions {rules : Rules} {store done : CatalogStore} {id caller : String}
    {step : GenerationStep} {now : Int} {generation : CatalogGeneration}
    (ok : catalogGenerationStep rules store id caller step now = .ok (done,generation)) :
    done.permissions = store.permissions := by
  obtain rfl | ⟨old,_,_,_,_,rfl⟩ := generationStep_ok ok
  · rfl
  · split <;> rfl

/-- What a call does to the permissions: it puts some grants, or revokes a live one. -/
inductive Permits (store : Permissions) : Permissions → Approvals → Prop
  | put {done : Permissions} (grants : List PublisherGrant) (principal : String)
      (ok : putGrants store grants principal = .ok done) :
      Permits store done (grants.map PublisherGrant.approval).reverse
  | revoke {rows : GrantRows} (id principal : String) (now : Int) (grant : PublisherGrant)
      (found : store.grants.rows.get? id = some grant) (live : grant.revokedAtMs = none)
      (written : rows.rows = store.grants.rows.insert id { grant with revokedAtMs := some now }) :
      Permits store ⟨rows,auditRow .grantRevoke grant principal now :: store.audit⟩ [.revoked grant.key]

namespace Permits

variable {store done : Permissions} {approvals made : Approvals}

theorem quiet (store : Permissions) : Permits store store [] := .put [] "" rfl

theorem tracks (permits : Permits store done made) (tracks : Tracks store approvals) :
    Tracks done (made ++ approvals) := by
  cases permits with
  | put grants principal ok => exact tracks.putGrants ok
  | revoke id principal now grant found live written => exact tracks.revoke found written

theorem unchanged (permits : Permits store done []) : done = store := by
  generalize same : ([] : Approvals) = made at permits
  cases permits with
  | put grants principal ok =>
    have none_put : grants = [] := by simpa using same.symm
    subst none_put
    exact (Except.ok.inj ok).symm
  | revoke => cases same

end Permits

theorem revokeGrant_permits (store : CatalogStore) (id principal : String) (now : Int) :
    Permits store.permissions (revokeGrantCall store id now principal).store.permissions
      (revokeGrantCall store id now principal).approvals := by
  rw [revokeGrantCall]
  dsimp only
  rw [revokePublisherGrant]
  split
  next => exact .quiet _
  next grant found =>
    split
    next => exact .quiet _
    next unrevoked =>
      split
      next => exact .quiet _
      next =>
        have live : grant.revokedAtMs = none := by simpa using unrevoked
        let rows := store.permissions.grants.replace id grant { grant with revokedAtMs := some now } found
          (store.permissions.grants.keyed id grant found) rfl
        have written : rows.rows =
          store.permissions.grants.rows.insert id { grant with revokedAtMs := some now } := rfl
        simpa [found] using Permits.revoke id principal now grant found live written

theorem install_permits {rules : Rules} {store : CatalogStore} {commit : Option ConsentCommit}
    {planId principal : String} {now : Int} {result : Installed}
    (ok : catalogInstall rules store commit planId principal now = .ok result) :
    Permits store.permissions result.store.permissions (result.granted.map PublisherGrant.approval).reverse := by
  obtain ⟨_,_,_,_,permissions,_,installs⟩ := install_ok ok
  obtain ⟨_,written⟩ := installs.written
  have same : result.store.permissions = permissions := by
    obtain ⟨_,_,_,same | same⟩ := writePins_ok written
    · rw [same.1]
    · rw [same]
  rw [same]
  exact .put result.granted principal installs.put

theorem perform_permits {rules : Rules} {store : CatalogStore} {call : Call} {done : Outcome}
    (performed : perform rules store call = some done) :
    Permits store.permissions done.store.permissions done.approvals := by
  -- a call that writes no permission
  have quiet : ∀ {after : CatalogStore}, after.permissions = store.permissions →
      Permits store.permissions (Outcome.quiet after).store.permissions (Outcome.quiet after).approvals := by
    intro after same
    rw [show (Outcome.quiet after).store = after from rfl,same]
    exact .quiet _
  cases call <;> simp only [perform,Option.map_eq_some_iff,toOption_some,Option.some.injEq] at performed
  case createPlan =>
    obtain ⟨⟨after,plan⟩,ok,rfl⟩ := performed
    obtain rfl | ⟨_,_,_,_,_,rfl⟩ := createPlan_ok ok <;> exact quiet rfl
  case savePrepared =>
    obtain ⟨after,ok,rfl⟩ := performed
    obtain rfl := savePrepared_ok ok
    exact quiet rfl
  case planReady =>
    obtain ⟨⟨after,plan⟩,ok,rfl⟩ := performed
    obtain rfl | ⟨_,_,_,_,_,rfl⟩ := planReady_ok ok <;> exact quiet rfl
  case planFailed =>
    obtain ⟨⟨after,plan⟩,ok,rfl⟩ := performed
    obtain rfl | ⟨_,_,_,_,_,rfl⟩ := planFailed_ok ok <;> exact quiet rfl
  case approvePlan =>
    obtain ⟨⟨after,plan⟩,ok,rfl⟩ := performed
    obtain rfl | ⟨_,_,rfl⟩ := approvePlan_ok ok <;> exact quiet rfl
  case generationReady =>
    obtain ⟨⟨after,generation⟩,ok,rfl⟩ := performed
    exact quiet (generationStep_permissions ok)
  case activateGeneration =>
    obtain ⟨⟨after,generation⟩,ok,rfl⟩ := performed
    exact quiet (generationStep_permissions ok)
  case degradeGeneration =>
    obtain ⟨⟨after,generation⟩,ok,rfl⟩ := performed
    exact quiet (generationStep_permissions ok)
  case discardMoveGeneration =>
    subst performed
    exact quiet rfl
  case prefetchError =>
    obtain ⟨after,ok,rfl⟩ := performed
    obtain rfl | ⟨_,_,_,rfl⟩ := prefetchError_ok ok <;> exact quiet rfl
  case install =>
    obtain ⟨result,ok,rfl⟩ := performed
    exact install_permits ok
  case setPins =>
    obtain ⟨⟨after,changed⟩,ok,rfl⟩ := performed
    obtain ⟨_,_,_,⟨rfl,_⟩ | rfl⟩ := writePins_ok ok <;> exact quiet rfl
  case remotePins =>
    obtain ⟨after,ok,rfl⟩ := performed
    obtain ⟨_,_,rfl⟩ := restorePins_ok ok
    exact quiet rfl
  case writeStatuses =>
    subst performed
    exact quiet (writeStatuses_permissions _ _)
  case setAgent =>
    subst performed
    exact quiet rfl
  case insertGrant grant principal =>
    obtain ⟨permissions,id,put,rfl⟩ := insertGrant_ok performed
    have one : putGrants store.permissions [grant] principal = .ok permissions := by
      simp only [putGrants,List.foldlM_cons,List.foldlM_nil,put]
      rfl
    exact .put [grant] principal one
  case revokeGrant =>
    subst performed
    exact revokeGrant_permits store _ _ _

theorem reached_tracks {rules : Rules} {world : World} (reached : Reached rules world) :
    Tracks world.store.permissions world.approvals := by
  refine reached.invariant (fun world => Tracks world.store.permissions world.approvals) Tracks.start ?_
  intro world call after tracks _ taken
  rw [next] at taken
  split at taken
  next done performed =>
    cases taken
    exact (perform_permits performed).tracks tracks
  next => cases taken; exact tracks

theorem uncoveredReason_none {grants : List PublisherGrant} {operation : Operation} {agentId : String}
    {agentLive : Bool} {package : CoveragePackage} :
    uncoveredReason grants operation agentId agentLive package = none ↔
      agentLive = true ∧ package.hasScripts = false ∧ (package.rootCertified = false →
        ∃ grant ∈ grants, grant.answers ⟨package.publisherFingerprint,operation,agentId⟩ = true ∧
          ∀ token ∈ package.capabilities, token ∈ grant.ceiling) := by
  rw [uncoveredReason]
  cases agentLive <;> cases package.hasScripts <;> cases package.rootCertified <;> simp

theorem coverage_covered {packages : List CoveragePackage} {grants : List PublisherGrant}
    {operation : Operation} {agentId : String} {agentLive : Bool} :
    coverage packages grants operation agentId agentLive = .covered ↔
      ∀ package ∈ packages, uncoveredReason grants operation agentId agentLive package = none := by
  rw [coverage]
  split
  next none_left => simpa [List.filterMap_eq_nil_iff] using none_left
  next some_left =>
    simp only [reduceCtorEq,false_iff]
    intro all
    exact some_left (List.filterMap_eq_nil_iff.mpr all)

theorem mem_read {grants : GrantRows} {grant : PublisherGrant} :
    grant ∈ grants.read ↔ ∃ id, grants.rows.get? id = some grant := by
  simp only [GrantRows.read,List.mem_map,Prod.exists,Table.mem_rows,exists_eq_right]

/-- A key covers what was approved under it, while an approval is its last event. -/
theorem Tracks.answers {store : Permissions} {approvals : Approvals} (tracks : Tracks store approvals)
    {key : GrantKey} {capabilities : List String} :
    (∃ grant ∈ store.grants.read, grant.answers key = true ∧
        ∀ token ∈ capabilities, token ∈ grant.ceiling) ↔
      Approval.standing key approvals = true ∧ ∀ token ∈ capabilities, token ∈ tokens key approvals := by
  constructor
  · rintro ⟨grant,member,answers,inside⟩
    obtain ⟨id,found⟩ := mem_read.mp member
    simp only [PublisherGrant.answers,Bool.and_eq_true,Option.isNone_iff_eq_none,beq_iff_eq] at answers
    obtain ⟨live,rfl⟩ := answers
    refine ⟨(tracks.standing id grant found).mp live,?_⟩
    intro token asked
    exact (tracks.ceiling id grant found).mem.mp (inside token asked)
  · rintro ⟨stands,inside⟩
    obtain ⟨id,grant,found,rfl⟩ := tracks.granted key (Approval.standing_known stands)
    have live := (tracks.standing id grant found).mpr stands
    refine ⟨grant,mem_read.mpr ⟨id,found⟩,by simp [PublisherGrant.answers,live],?_⟩
    intro token asked
    exact (tracks.ceiling id grant found).mem.mpr (inside token asked)

/-- The key was approved after its last revocation. -/
def ApprovedSince (approvals : Approvals) (key : GrantKey) : Prop :=
  ∃ newer ceiling older, approvals = newer ++ .approved key ceiling :: older ∧ .revoked key ∉ newer

def EverApproved (approvals : Approvals) (key : GrantKey) (token : String) : Prop :=
  ∃ ceiling, .approved key ceiling ∈ approvals ∧ token ∈ ceiling

def CoveragePackage.key (package : CoveragePackage) (operation : Operation) (agentId : String) : GrantKey :=
  ⟨package.publisherFingerprint,operation,agentId⟩

theorem install_covered {rules : Rules} {store : CatalogStore} {consent : ConsentCommit}
    {planId principal : String} {now : Int} {result : Installed}
    (ok : catalogInstall rules store (some consent) planId principal now = .ok result) :
    isLive store.agents consent.agentId = true ∧
      ∀ ids, consent.authorization = .publisherGrants ids → result.granted = [] ∧
        ∃ plan detail, store.plans.get? planId = some plan ∧ store.prepared.get? planId = some detail ∧
          coverage (detail.packages.map PreparedPackage.coverage) store.permissions.grants.read
            (authorizationOperation plan.operation (readPins store consent.agentId)
              (detail.packages.map (·.pin))) consent.agentId true = .covered := by
  obtain ⟨_,plan,detail,_,_,same,installs⟩ := install_ok ok
  cases same
  refine ⟨installs.lives,?_⟩
  intro ids granted
  obtain ⟨always,allowed,same⟩ := installs.authorized
  rw [authorizeInstall,granted] at allowed
  obtain ⟨_,covered,allowed⟩ := bind_ok allowed
  cases allowed
  rw [reject_ok,bne_eq_false_iff_eq] at covered
  exact ⟨same,plan,detail,installs.planned,installs.detailed,covered⟩

/-- In every state a run of calls reaches: what is covered was approved, and approved
again after the last revocation; grant rows and audit are those of the approvals. -/
theorem grants_law {rules : Rules} {world : World} (reached : Reached rules world) :
    (∀ packages operation agentId agentLive,
      coverage packages world.store.permissions.grants.read operation agentId agentLive = .covered ↔
        ∀ package ∈ packages, agentLive = true ∧ package.hasScripts = false ∧
          (package.rootCertified = false →
            ApprovedSince world.approvals (package.key operation agentId) ∧
            ∀ token ∈ package.capabilities,
              EverApproved world.approvals (package.key operation agentId) token)) ∧
    (∀ packages operation agentId agentLive, ∀ package ∈ packages, package.rootCertified = false →
      ∀ newer older, world.approvals = newer ++ .revoked (package.key operation agentId) :: older →
        (∀ ceiling, .approved (package.key operation agentId) ceiling ∉ newer) →
        coverage packages world.store.permissions.grants.read operation agentId agentLive ≠ .covered) ∧
    (∀ consent planId principal now result,
      catalogInstall rules world.store (some consent) planId principal now = .ok result →
        isLive world.store.agents consent.agentId = true ∧
        ∀ ids, consent.authorization = .publisherGrants ids → result.granted = [] ∧
          ∃ plan detail, world.store.plans.get? planId = some plan ∧
            world.store.prepared.get? planId = some detail ∧
            coverage (detail.packages.map PreparedPackage.coverage) world.store.permissions.grants.read
              (authorizationOperation plan.operation (readPins world.store consent.agentId)
                (detail.packages.map (·.pin))) consent.agentId true = .covered) ∧
    (∀ id id' grant grant', world.store.permissions.grants.rows.get? id = some grant →
      world.store.permissions.grants.rows.get? id' = some grant' → grant.key = grant'.key → id = id') ∧
    (∀ id grant, world.store.permissions.grants.rows.get? id = some grant →
      Lists grant.ceiling (tokens grant.key world.approvals) ∧
      (grant.revokedAtMs = none ↔ ApprovedSince world.approvals grant.key)) ∧
    List.Forall₂ Tells world.store.permissions.audit (trail world.approvals) ∧
    (∀ call done, perform rules world.store call = some done → done.approvals = [] →
      done.store.permissions = world.store.permissions) := by
  have tracks := reached_tracks reached
  have covered : ∀ packages operation agentId agentLive,
      coverage packages world.store.permissions.grants.read operation agentId agentLive = .covered ↔
        ∀ package ∈ packages, agentLive = true ∧ package.hasScripts = false ∧
          (package.rootCertified = false →
            ApprovedSince world.approvals (package.key operation agentId) ∧
            ∀ token ∈ package.capabilities,
              EverApproved world.approvals (package.key operation agentId) token) := by
    intro packages operation agentId agentLive
    simp only [coverage_covered,uncoveredReason_none,tracks.answers,Approval.standing_iff,
      Approval.mem_tokens]
    exact Iff.rfl
  refine ⟨covered,?_,?_,world.store.permissions.grants.unique,?_,tracks.audited,?_⟩
  · intro packages operation agentId agentLive package member uncertified newer older same quiet all
    obtain ⟨_,_,approved⟩ := (covered packages operation agentId agentLive).mp all package member
    have stands := Approval.standing_iff.mpr (approved uncertified).1
    rw [same,Approval.standing_revoked quiet] at stands
    cases stands
  · intro consent planId principal now result ok
    exact install_covered ok
  · intro id grant found
    exact ⟨tracks.ceiling id grant found,(tracks.standing id grant found).trans Approval.standing_iff⟩
  · intro call done performed silent
    have permits := perform_permits performed
    rw [silent] at permits
    exact permits.unchanged

namespace Restored

def anyRules : Rules := ⟨fun _ => true,fun _ => true,fun _ => true,fun _ => true⟩

def key : GrantKey := ⟨"fingerprint",.install,"agent"⟩

def grant (id token : String) : PublisherGrant := ⟨id,key,[token],none,0,none⟩

def package : CoveragePackage := ⟨"@example/tool","fingerprint",["read"],false,false⟩

/-- The grant of `read` is revoked; later `write` is approved for the same publisher. -/
def calls : List Call :=
  [.setAgent "agent" .live,.insertGrant (grant "g1" "read") "presence",.revokeGrant "g1" 1 "presence",
    .insertGrant (grant "g2" "write") "presence"]

def world : World := ((Transition.exec (next anyRules) World.start calls).getD World.start)

theorem reached : Reached anyRules world := by
  suffices ran : Transition.exec (next anyRules) World.start calls = some world from Transition.exec_reach ran
  rw [world]
  cases run : Transition.exec (next anyRules) World.start calls with
  | some after => rfl
  | none =>
    have enabled : (Transition.exec (next anyRules) World.start calls).isSome = true := by decide +kernel
    simp [run] at enabled

theorem covers : coverage [package] world.store.permissions.grants.read .install "agent" true = .covered := by
  decide +kernel

theorem package_approved : ApprovedSince world.approvals (package.key .install "agent") ∧
    ∀ token ∈ package.capabilities, EverApproved world.approvals (package.key .install "agent") token :=
  (((grants_law reached).1 [package] .install "agent" true).mp covers package List.mem_cons_self).2.2 rfl

theorem approvals : world.approvals = [(grant "g2" "write").approval,.revoked key,(grant "g1" "read").approval] := by
  decide +kernel

/-- `read` is covered although nothing approved it after the revocation. -/
theorem read_restored : ¬ ∀ world, Reached anyRules world → ∀ packages operation agentId agentLive,
    coverage packages world.store.permissions.grants.read operation agentId agentLive = .covered →
      ∀ package ∈ packages, package.rootCertified = false → ∀ token ∈ package.capabilities,
        ∃ newer ceiling older,
          world.approvals = newer ++ .approved (package.key operation agentId) ceiling :: older ∧
            token ∈ ceiling ∧ .revoked (package.key operation agentId) ∉ newer := by
  intro law
  obtain ⟨newer,ceiling,older,same,held,quiet⟩ := law world reached [package] .install "agent" true covers
    package List.mem_cons_self rfl "read" List.mem_cons_self
  rw [approvals] at same
  match newer with
  | [] =>
    cases same
    revert held
    decide
  | [first] => cases same
  | first :: second :: rest =>
    injection same with _ same
    injection same with second_is _
    rw [← second_is] at quiet
    exact quiet (List.mem_cons_of_mem _ List.mem_cons_self)

end Restored

end Entorhinal.Catalog
