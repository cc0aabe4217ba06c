import Entorhinal.CatalogAgent

/-! Installing a plan: pins, generation and publisher permissions in one transaction. -/
namespace Entorhinal.Catalog

inductive InstallError
  | domain (code message : String) (conflict : Option CatalogKindSlotConflict)
  | store
deriving DecidableEq, Repr

def CatalogWriteError.registryError : CatalogWriteError → InstallError
  | .refused code => .domain code code none
  | .store => .store

def lift {α : Type} (result : Except CatalogWriteError α) : Except InstallError α :=
  result.mapError CatalogWriteError.registryError

def reject (code message : String) (when : Bool) : Except InstallError Unit :=
  if when then .error (.domain code message none) else .ok ()

inductive Authorization
  | card (id answer : String)
  | grant (id : String)
  | publisherGrants (ids : List String)
  | ownHire
deriving DecidableEq, Repr

structure RecordedSettlement where
  state : String
  choice : Option String
  elicitationId : String
deriving DecidableEq, Repr

structure InstallTarget where
  planId : String
  basePinDigest : PinDigest
  prepared : PreparedPlan
deriving DecidableEq, Repr

/-- The consent an install commits under; `settlement` is the one saved with its request. -/
structure ConsentCommit where
  agentId : String
  elicitationId : Option String
  settlement : Option RecordedSettlement
  authorization : Authorization
  action : String
  target : Option InstallTarget
deriving DecidableEq, Repr

def installable (rules : Rules) (store : CatalogStore) (id caller : String) :
    Except CatalogWriteError CatalogPlan := do
  let plan ← readPlan store id
  owner plan.agentId caller
  live store caller
  match plan.state with
  | .pending => throw (.refused "plan_not_ready")
  | .failed => throw (.refused "plan_failed")
  | .ready =>
    let old ← stale rules store plan
    refuse "plan_stale" old
    return plan

/-- A ready plan whose closure would hold a kind slot twice is refused as such, before
the check of its freshness. -/
def slotConflict (store : CatalogStore) (plan : CatalogPlan) (caller : String) :
    Option CatalogKindSlotConflict :=
  if plan.state = .ready then
    kindSlotConflict (plan.closure.getD [] ++ readPins store caller) plan.spec.package
  else none

def rejectConflict : Option CatalogKindSlotConflict → Except InstallError Unit
  | some conflict =>
    .error (.domain "kind_slot_taken" "A profile or persona swap isn't available yet." (some conflict))
  | none => .ok ()

/-- Whether the authorization allows the install, and grants its publishers from now on. -/
def authorizeInstall (store : CatalogStore) (commit : ConsentCommit) (operation : Operation)
    (detail : PreparedPlan) : Except InstallError Bool :=
  match commit.authorization with
  | .card id answer => do
    reject "consent_lost" "approval was not recorded" (!commit.settlement.any fun settled =>
      settled.elicitationId == id && settled.state == "answered" && settled.choice == some answer)
    if answer = "approve_once" then return false
    else if answer = "approve_always_publisher" ∧ operation = .install ∧
        detail.packages.all (fun package => !package.rootCertified) = true then return true
    else throw (.domain "invalid_reply" "approval choice not offered" none)
  | .publisherGrants _ => do
    reject "plan_stale" "publisher coverage changed"
      (coverage (detail.packages.map PreparedPackage.coverage) store.permissions.grants.read operation
        commit.agentId true != .covered)
    return false
  | _ => .error (.domain "caller_forbidden" "invalid catalog authorization" none)

def cardRef (commit : ConsentCommit) : Option String :=
  commit.elicitationId.or <| match commit.authorization with
    | .card id _ => some id
    | _ => none

/-- One grant for each publisher of the closure, up to what its packages ask for. -/
def publisherGrants (commit : ConsentCommit) (planId : String) (packages : List PreparedPackage)
    (now : Int) : List PublisherGrant :=
  (tokenSet (packages.map (·.pin.publisherFingerprint))).map fun fingerprint =>
    { id := s!"publisher:{planId}:{fingerprint}"
      key := ⟨fingerprint,.install,commit.agentId⟩
      ceiling := tokenSet ((packages.filter (·.pin.publisherFingerprint == fingerprint)).flatMap
        (·.capabilities))
      cardRef := cardRef commit
      grantedAtMs := now
      revokedAtMs := none }

def putGrants (store : Permissions) (grants : List PublisherGrant) (principal : String) :
    Except CatalogWriteError Permissions :=
  grants.foldlM (fun store grant => (·.1) <$> putGrant store grant principal) store

structure Installed where
  store : CatalogStore
  generationId : String
  /-- The publisher grants that were put. -/
  granted : List PublisherGrant
deriving DecidableEq

/-- `principal` is the JSON of caller and authorization, for the audit. -/
def catalogInstall (rules : Rules) (store : CatalogStore) (commit : Option ConsentCommit)
    (planId principal : String) (now : Int) : Except InstallError Installed := do
  match commit with
  | none => throw (.domain "caller_forbidden" "catalog install requires authorization" none)
  | some commit =>
    let caller := commit.agentId
    let candidate ← lift (readPlan store planId)
    lift (owner candidate.agentId caller)
    lift (live store caller)
    rejectConflict (slotConflict store candidate caller)
    let plan ← lift (installable rules store planId caller)
    let detail ← lift (required (store.prepared.get? planId))
    reject "plan_stale" "approved closure changed" (commit.action != "catalog_install" ||
      commit.target != some ⟨planId,plan.basePinDigest,detail⟩)
    let operation :=
      authorizationOperation plan.operation (readPins store caller) (plan.closure.getD [])
    let always ← authorizeInstall store commit operation detail
    match plan.closure with
    | none => throw (.domain "plan_not_ready" "no closure" none)
    | some pins =>
      reject "plan_stale" "checked closure changed" (detail.packages.map (·.pin) != pins)
      let generationId := s!"generation:{planId}"
      let digest ← lift (pinDigest rules pins)
      let done ← lift (insertGeneration store generationId ⟨caller,planId,.approved,pins,digest,now,none,
        none,publisherFacts pins (some detail)⟩)
      let granted := if always then publisherGrants commit planId detail.packages now else []
      let permissions ← lift (putGrants done.permissions granted principal)
      let written ← lift (writePins rules { done with permissions := permissions } caller pins)
      return ⟨written.1,generationId,granted⟩

end Entorhinal.Catalog
