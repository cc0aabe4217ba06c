import Entorhinal.CatalogInstall
import Entorhinal.Transition

/-! Runs of one machine's catalog: every call that writes it, by any caller in any order,
and with each accepted call the approvals and revocations of publishers it made. A
refused call rolls its transaction back. -/
namespace Entorhinal.Catalog

inductive Call
  | createPlan (id caller : String) (target : CatalogTarget) (operation : String) (spec : CatalogSpec)
      (now : Int)
  | savePrepared (id caller : String) (detail : PreparedPlan)
  | planReady (id caller : String) (pins : List CatalogPin) (now : Int)
  | planFailed (id caller refusal : String)
  | approvePlan (planId caller generationId : String) (now : Int)
  | generationReady (id caller : String)
  | activateGeneration (id caller : String) (now : Int)
  | degradeGeneration (id caller error : String)
  | discardMoveGeneration (cut agent : String)
  | prefetchError (id caller error : String)
  | install (commit : Option ConsentCommit) (planId principal : String) (now : Int)
  | setPins (agent : String) (pins : List CatalogPin)
  /-- Pins written by another machine. -/
  | remotePins (agent : String) (pins : List CatalogPin) (digest : PinDigest)
  | writeStatuses (records : List StatusRecord)
  /-- An agent is created or disposed of. -/
  | setAgent (id : String) (status : AgentStatus)
  | insertGrant (grant : PublisherGrant) (principal : String)
  | revokeGrant (id : String) (now : Int) (principal : String)

abbrev Approvals : Type := List (Approval GrantKey String)

def PublisherGrant.approval (grant : PublisherGrant) : Approval GrantKey String :=
  .approved grant.key grant.ceiling.toFinset

structure Outcome where
  store : CatalogStore
  /-- Newest first. -/
  approvals : Approvals

def Outcome.quiet (store : CatalogStore) : Outcome := ⟨store,[]⟩

def insertGrantCall (store : CatalogStore) (grant : PublisherGrant) (principal : String) :
    Except CatalogWriteError Outcome := do
  let done ← insertPublisherGrant store.agents store.permissions grant principal
  return ⟨{ store with permissions := done.1 },[grant.approval]⟩

def revokeGrantCall (store : CatalogStore) (id : String) (now : Int) (principal : String) : Outcome :=
  let done := revokePublisherGrant store.agents store.permissions id now principal
  let revoked := if done.2 then (store.permissions.grants.rows.get? id).toList else []
  ⟨{ store with permissions := done.1 },revoked.map fun grant => .revoked grant.key⟩

def perform (rules : Rules) (store : CatalogStore) : Call → Option Outcome
  | .createPlan id caller target operation spec now =>
    (catalogCreatePlan rules store id caller target operation spec now).toOption.map fun done => .quiet done.1
  | .savePrepared id caller detail => (catalogSavePrepared store id caller detail).toOption.map .quiet
  | .planReady id caller pins now =>
    (catalogPlanReady rules store id caller pins now).toOption.map fun done => .quiet done.1
  | .planFailed id caller refusal =>
    (catalogPlanFailed rules store id caller refusal).toOption.map fun done => .quiet done.1
  | .approvePlan planId caller generationId now =>
    (catalogApprovePlan rules store planId caller generationId now).toOption.map fun done => .quiet done.1
  | .generationReady id caller =>
    (catalogGenerationReady rules store id caller).toOption.map fun done => .quiet done.1
  | .activateGeneration id caller now =>
    (catalogActivateGeneration rules store id caller now).toOption.map fun done => .quiet done.1
  | .degradeGeneration id caller error =>
    (catalogDegradeGeneration rules store id caller error).toOption.map fun done => .quiet done.1
  | .discardMoveGeneration cut agent => some (.quiet (catalogDiscardMoveGeneration store cut agent))
  | .prefetchError id caller error => (catalogPrefetchError store id caller error).toOption.map .quiet
  | .install commit planId principal now =>
    (catalogInstall rules store commit planId principal now).toOption.map fun done =>
      ⟨done.store,(done.granted.map PublisherGrant.approval).reverse⟩
  | .setPins agent pins => (catalogSetPins rules store agent pins).toOption.map fun done => .quiet done.1
  | .remotePins agent pins digest => (restorePins rules store agent pins digest).toOption.map .quiet
  | .writeStatuses records => some (.quiet (writeStatuses store records))
  | .setAgent id status => some (.quiet { store with agents := store.agents.insert id status })
  | .insertGrant grant principal => (insertGrantCall store grant principal).toOption
  | .revokeGrant id now principal => some (revokeGrantCall store id now principal)

structure World where
  store : CatalogStore
  /-- Every approval and revocation so far, newest first. -/
  approvals : Approvals

def World.start : World := ⟨∅,[]⟩

def next (rules : Rules) (world : World) (call : Call) : Option World :=
  match perform rules world.store call with
  | some done => some ⟨done.store,done.approvals ++ world.approvals⟩
  | none => some world

/-- The worlds that runs of calls reach. -/
def Reached (rules : Rules) (world : World) : Prop :=
  Transition.Reach (next rules) Transition.Free World.start world

end Entorhinal.Catalog
