import Entorhinal.ApprovalLedger
import Entorhinal.CatalogPins

/-! Publisher grants: the permissions that an approval gives one publisher for one
operation on one agent, their audit, and what they cover. -/
namespace Entorhinal.Catalog

inductive AgentStatus
  | live
  | retired
  | merged
deriving DecidableEq, Repr

abbrev Agents : Type := Table String AgentStatus

inductive Operation
  | install
  | upgrade
deriving DecidableEq, Repr

/-- Changing or removing a held pin needs upgrade authority, whatever was asked. -/
def authorizationOperation (requested : String) (previous next : List CatalogPin) : Operation :=
  if requested != "install" || previous.any fun held => !next.any (· == held) then .upgrade else .install

structure GrantKey where
  publisherFingerprint : String
  operation : Operation
  placementAgentId : String
deriving DecidableEq, Repr

structure PublisherGrant where
  id : String
  key : GrantKey
  ceiling : List String
  cardRef : Option String
  grantedAtMs : Int
  revokedAtMs : Option Int
deriving DecidableEq, Repr

structure CoveragePackage where
  name : String
  publisherFingerprint : String
  capabilities : List String
  hasScripts : Bool
  rootCertified : Bool
deriving DecidableEq, Repr

inductive Coverage
  | covered
  | uncovered (reasons : List String)
deriving DecidableEq, Repr

def PreparedPackage.coverage (package : PreparedPackage) : CoveragePackage :=
  ⟨package.pin.name,package.pin.publisherFingerprint,package.capabilities,package.hasScripts,
    package.rootCertified⟩

def PublisherGrant.answers (grant : PublisherGrant) (key : GrantKey) : Bool :=
  grant.revokedAtMs.isNone && grant.key == key

/-- Why one package is not covered. -/
def uncoveredReason (grants : List PublisherGrant) (operation : Operation) (agentId : String)
    (agentLive : Bool) (package : CoveragePackage) : Option String :=
  if package.rootCertified then
    if package.hasScripts then some s!"{package.name}: scripts require package approval"
    else if !agentLive then some s!"{package.name}: placement agent is not live"
    else none
  else
    let key : GrantKey := ⟨package.publisherFingerprint,operation,agentId⟩
    let covered := agentLive && !package.hasScripts && grants.any fun grant =>
      grant.answers key && package.capabilities.all fun token => grant.ceiling.any (· == token)
    if covered then none
    else
      let reason :=
        if !agentLive then "placement agent is not live"
        else if package.hasScripts then "scripts require package approval"
        else if grants.any (·.answers key) then "capabilities exceed the grant ceiling"
        else "no live publisher grant for this operation and placement"
      some s!"{package.name}: {reason}"

def coverage (packages : List CoveragePackage) (grants : List PublisherGrant) (operation : Operation)
    (agentId : String) (agentLive : Bool) : Coverage :=
  match packages.filterMap (uncoveredReason grants operation agentId agentLive) with
  | [] => .covered
  | reasons => .uncovered reasons

/-- The grant rows, under the two uniqueness constraints of their schema. -/
structure GrantRows where
  rows : Table String PublisherGrant
  keyed : ∀ id grant, rows.get? id = some grant → grant.id = id
  unique : ∀ id id' grant grant', rows.get? id = some grant → rows.get? id' = some grant' →
    grant.key = grant'.key → id = id'

namespace GrantRows

instance : DecidableEq GrantRows := fun a b =>
  decidable_of_iff (a.rows = b.rows) ⟨fun same => by cases a; cases b; cases same; rfl,fun same => by rw [same]⟩

instance : EmptyCollection GrantRows := ⟨∅,by simp,by simp⟩

def read (grants : GrantRows) : List PublisherGrant := grants.rows.rows.map (·.2)

/-- The first row of a key. -/
def prior (grants : GrantRows) (key : GrantKey) : Option (String × PublisherGrant) :=
  grants.rows.find? fun _ grant => grant.key == key

/-- `UPDATE` of a row that keeps its key. -/
def replace (grants : GrantRows) (id : String) (old grant : PublisherGrant)
    (found : grants.rows.get? id = some old) (same : grant.id = id) (key : grant.key = old.key) :
    GrantRows where
  rows := grants.rows.insert id grant
  keyed := by
    intro other row present
    rw [Table.get?_insert] at present
    split at present
    next here => rw [here,← same,Option.some.inj present]
    next => exact grants.keyed other row present
  unique := by
    intro a b first second here there equal
    rw [Table.get?_insert] at here there
    split at here <;> split at there
    next left right => rw [left,right]
    next left _ =>
      cases here
      rw [left]
      exact grants.unique id b old second found there (key ▸ equal)
    next _ right =>
      cases there
      rw [right]
      exact grants.unique a id first old here found (key ▸ equal)
    next => exact grants.unique a b first second here there equal

/-- `INSERT` of a row of a new key under a new id. -/
def add (grants : GrantRows) (grant : PublisherGrant) (fresh : grants.prior grant.key = none) :
    GrantRows where
  rows := grants.rows.insert grant.id grant
  keyed := by
    intro other row present
    rw [Table.get?_insert] at present
    split at present
    next here => rw [here,Option.some.inj present]
    next => exact grants.keyed other row present
  unique := by
    have other : ∀ id row, grants.rows.get? id = some row → row.key ≠ grant.key := by
      intro id row found
      simpa using Table.find?_none.mp fresh id row found
    intro a b first second here there equal
    rw [Table.get?_insert] at here there
    split at here <;> split at there
    next left right => rw [left,right]
    next => cases here; exact absurd equal.symm (other b second there)
    next => cases there; exact absurd equal (other a first here)
    next => exact grants.unique a b first second here there equal

end GrantRows

inductive AuditKind
  | grantInsert
  | grantRefresh
  | grantRevoke
deriving DecidableEq, Repr

structure AuditRow where
  atMs : Int
  kind : AuditKind
  grantId : String
  key : GrantKey
  ceiling : List String
  principal : String
deriving DecidableEq, Repr

structure Permissions where
  grants : GrantRows
  /-- Newest first. -/
  audit : List AuditRow
deriving DecidableEq

instance : EmptyCollection Permissions := ⟨⟨∅,[]⟩⟩

def auditRow (kind : AuditKind) (grant : PublisherGrant) (principal : String) (now : Int) : AuditRow :=
  ⟨now,kind,grant.id,grant.key,grant.ceiling,principal⟩

/-- The tokens in order and once each. -/
def tokenSet (tokens : List String) : List String := tokens.dedup.insertionSort (· ≤ ·)

def putGrant (store : Permissions) (grant : PublisherGrant) (principal : String) :
    Except CatalogWriteError (Permissions × String) :=
  match found : store.grants.prior grant.key with
  | some (id,prior) =>
    -- a row of the key takes the new time and card, the union of the ceilings, and no revocation
    let row := { grant with
      id := id, ceiling := tokenSet (grant.ceiling ++ prior.ceiling), revokedAtMs := none }
    have present := Table.find?_some found
    .ok (⟨store.grants.replace id prior row present.1 rfl (eq_of_beq present.2).symm,
      auditRow .grantRefresh row principal row.grantedAtMs :: store.audit⟩,id)
  | none =>
    let row := { grant with ceiling := tokenSet grant.ceiling, revokedAtMs := none }
    if store.grants.rows.has row.id then .error .store
    else .ok (⟨store.grants.add row found,
      auditRow .grantInsert row principal row.grantedAtMs :: store.audit⟩,row.id)

def insertPublisherGrant (agents : Agents) (store : Permissions) (grant : PublisherGrant)
    (principal : String) : Except CatalogWriteError (Permissions × String) :=
  match agents.get? grant.key.placementAgentId with
  | none => .error (.refused "unknown_agent")
  | some .live => putGrant store grant principal
  | some _ => .error (.refused "gone")

def isLive (agents : Agents) (agentId : String) : Bool := agents.get? agentId == some .live

/-- Answers whether a grant was revoked. -/
def revokePublisherGrant (agents : Agents) (store : Permissions) (id : String) (now : Int)
    (principal : String) : Permissions × Bool :=
  match found : store.grants.rows.get? id with
  | none => (store,false)
  | some grant =>
    if grant.revokedAtMs.isSome then (store,false)
    else if !isLive agents grant.key.placementAgentId then (store,false)
    else
      (⟨store.grants.replace id grant { grant with revokedAtMs := some now } found
        (store.grants.keyed id grant found) rfl,
        auditRow .grantRevoke grant principal now :: store.audit⟩,true)

end Entorhinal.Catalog
