import Entorhinal.CatalogStore

/-! The calls that write an agent's pins, plans and generations. -/
namespace Entorhinal.Catalog

/-- `CatalogPinSet::validate` and `restore`: the pins of a live agent are replaced. -/
def restorePins (rules : Rules) (store : CatalogStore) (agent : String) (pins : List CatalogPin)
    (digest : PinDigest) : Except CatalogWriteError CatalogStore := do
  let expected ← pinDigest rules pins
  if digest ≠ expected then throw .store
  else if !isLive store.agents agent then throw .store
  else return { store with pins := store.pins.insert agent (sortPins pins) }

/-- Answers the store and whether the pins changed. -/
def writePins (rules : Rules) (store : CatalogStore) (agent : String) (pins : List CatalogPin) :
    Except CatalogWriteError (CatalogStore × Bool) := do
  let digest ← pinDigest rules pins
  if !isLive store.agents agent then throw .store
  else if readPins store agent = pins && currentDigest rules store agent = .ok digest then
    return (store,false)
  else
    let written ← restorePins rules store agent pins digest
    return (written,true)

def catalogSetPins (rules : Rules) (store : CatalogStore) (agent : String) (pins : List CatalogPin) :
    Except CatalogWriteError (CatalogStore × Bool) := writePins rules store agent (sortPins pins)

def catalogCreatePlan (rules : Rules) (store : CatalogStore) (id caller : String) (target : CatalogTarget)
    (operation : String) (spec : CatalogSpec) (now : Int) :
    Except CatalogWriteError (CatalogStore × CatalogPlan) := do
  refuse "operation_not_yet_supported" (operation != "install" && operation != "upgrade")
  match target with
  | .tier _ => throw (.refused "operation_not_yet_supported")
  | .agent agent =>
    owner agent caller
    refuse "invalid_request" (id.isEmpty || !rules.canonicalName spec.package || !rules.range spec.range)
    planTransition store id (.create agent operation spec) true do
      live store agent
      let base ← currentDigest rules store agent
      let plan : CatalogPlan := ⟨agent,operation,spec,.pending,none,none,base,none,now,none⟩
      if store.plans.has id then throw .store else return (store.putPlan id plan,plan)

def catalogSavePrepared (store : CatalogStore) (id caller : String) (detail : PreparedPlan) :
    Except CatalogWriteError CatalogStore := do
  let plan ← readPlan store id
  owner plan.agentId caller
  refuse "invalid_transition" (plan.state != .pending)
  return { store with prepared := store.prepared.insert id detail }

def catalogPlanReady (rules : Rules) (store : CatalogStore) (id caller : String) (pins : List CatalogPin)
    (now : Int) : Except CatalogWriteError (CatalogStore × CatalogPlan) := do
  let pins := sortPins pins
  let plan ← readPlan store id
  owner plan.agentId caller
  planTransition store id (.ready pins) true do
    live store plan.agentId
    refuse "invalid_transition" (plan.state != .pending)
    validatePins rules pins
    match pins.find? (·.kind != .skill) with
    | some pin =>
      let plan := { plan with state := .failed, refusal := some (.kindNotYetSupported pin.name) }
      return (store.putPlan id plan,plan)
    | none =>
      let digest ← currentDigest rules store plan.agentId
      refuse "plan_stale" (digest != plan.basePinDigest)
      let plan := { plan with
        state := .ready, closure := some pins, readyAtMs := some now
        statusSnapshot := some (statusSnapshot store.statuses pins) }
      return (store.putPlan id plan,plan)

def catalogPlanFailed (rules : Rules) (store : CatalogStore) (id caller refusal : String) :
    Except CatalogWriteError (CatalogStore × CatalogPlan) := do
  let plan ← readPlan store id
  owner plan.agentId caller
  planTransition store id (.failed refusal) (rules.canonicalJson refusal) do
    refuse "invalid_transition" (plan.state != .pending)
    let plan := { plan with state := .failed, refusal := some (.given refusal) }
    return (store.putPlan id plan,plan)

/-- Whether the pins and the statuses are still those the plan was made from. -/
def stale (rules : Rules) (store : CatalogStore) (plan : CatalogPlan) :
    Except CatalogWriteError Bool := do
  let digest ← currentDigest rules store plan.agentId
  let saved ← required plan.statusSnapshot
  return digest != plan.basePinDigest || saved != statusSnapshot store.statuses (plan.closure.getD [])

def catalogApprovePlan (rules : Rules) (store : CatalogStore) (planId caller generationId : String)
    (now : Int) : Except CatalogWriteError (CatalogStore × CatalogGeneration) := do
  let plan ← readPlan store planId
  owner plan.agentId caller
  generationTransition store generationId (.approve planId caller) true do
    live store plan.agentId
    refuse "invalid_transition" (plan.state != .ready)
    match plan.closure with
    | none => throw (.refused "invalid_transition")
    | some pins =>
      let old ← stale rules store plan
      refuse "plan_stale" old
      refuse "request_key_conflict"
        ((store.generations.any fun _ row => row.planId == planId) || generationId.isEmpty)
      let digest ← pinDigest rules pins
      let generation : CatalogGeneration := ⟨plan.agentId,planId,.approved,pins,digest,now,none,none,
        publisherFacts pins (store.prepared.get? planId)⟩
      let done ← insertGeneration store generationId generation
      return (done,generation)

def GenerationStep.allowed (step : GenerationStep) (state : GenerationState) : Bool :=
  match step with
  | .ready => state == .approved || state == .installed
  | .active => state == .ready
  | .degraded _ => state == .active
  | .approve .. => false

def GenerationState.current (state : GenerationState) : Bool := state == .active || state == .degraded

/-- The row after a step that is allowed. -/
def CatalogGeneration.stepped (generation : CatalogGeneration) (step : GenerationStep) (now : Int) :
    CatalogGeneration :=
  match step with
  | .ready => { generation with state := .ready, error := none }
  | .active => { generation with state := .active, error := none, activatedAtMs := some now }
  | .degraded error => { generation with state := .degraded, error := some (.given error) }
  | .approve .. => generation

/-- The agent's current generation, active or degraded, is marked superseded. -/
def supersede (store : CatalogStore) (agent : String) : CatalogStore :=
  { store with generations := store.generations.update fun _ row =>
      if row.agentId == agent && row.state.current then { row with state := .superseded } else row }

def catalogGenerationStep (rules : Rules) (store : CatalogStore) (id caller : String)
    (step : GenerationStep) (now : Int) : Except CatalogWriteError (CatalogStore × CatalogGeneration) := do
  let generation ← readGeneration store id
  owner generation.agentId caller
  refuse "activation_blocked"
    (step == .active && (blockedStatus store.statuses generation.closure).isSome)
  let canonical := match step with
    | .degraded error => rules.canonicalJson error
    | _ => true
  generationTransition store id step canonical do
    live store generation.agentId
    refuse "invalid_transition" (!step.allowed generation.state)
    let store := if step = .active then supersede store generation.agentId else store
    -- the index allows one active generation of an agent
    if step = .active && store.generations.any fun other row =>
        other != id && row.agentId == generation.agentId && row.state == .active then throw .store
    else
      let generation := generation.stepped step now
      return (store.putGeneration id generation,generation)

def catalogGenerationReady (rules : Rules) (store : CatalogStore) (id caller : String) :
    Except CatalogWriteError (CatalogStore × CatalogGeneration) :=
  catalogGenerationStep rules store id caller .ready 0

def catalogActivateGeneration (rules : Rules) (store : CatalogStore) (id caller : String) (now : Int) :
    Except CatalogWriteError (CatalogStore × CatalogGeneration) :=
  catalogGenerationStep rules store id caller .active now

def catalogDegradeGeneration (rules : Rules) (store : CatalogStore) (id caller error : String) :
    Except CatalogWriteError (CatalogStore × CatalogGeneration) :=
  catalogGenerationStep rules store id caller (.degraded error) 0

def GenerationState.waiting (state : GenerationState) : Bool := state == .approved || state == .installed

def catalogDiscardMoveGeneration (store : CatalogStore) (cut agent : String) : CatalogStore :=
  { store with generations := store.generations.filter fun id row =>
      !(id == s!"generation:move:{cut}" && row.agentId == agent && (row.state.waiting || row.state == .ready)) }

def catalogPrefetchError (store : CatalogStore) (id caller error : String) :
    Except CatalogWriteError CatalogStore := do
  let generation ← readGeneration store id
  owner generation.agentId caller
  if generation.state.waiting then
    return store.putGeneration id { generation with error := some (.given error) }
  else return store

def statusError (status : StatusRecord) : GenerationError :=
  .pinned (if status.state = .tombstoned then "pinned_tombstoned" else "pinned_revoked") status.name
    status.version status.reason

def skills (pins : List CatalogPin) : List CatalogPin := pins.filter (·.kind == .skill)

/-- A current generation with a blocked skill is degraded, with the reason. -/
def statusEffect (statuses : Statuses) (generation : CatalogGeneration) : CatalogGeneration :=
  if generation.state.current then
    match blockedStatus statuses (skills generation.closure) with
    | some status => { generation with state := .degraded, error := some (statusError status) }
    | none => generation
  else generation

def applyStatusEffects (store : CatalogStore) : CatalogStore :=
  { store with generations := store.generations.update fun _ row => statusEffect store.statuses row }

def Statuses.put (statuses : Statuses) (record : StatusRecord) : Statuses :=
  statuses.insert record.name (((statuses.get? record.name).getD ∅).insert record.version record)

def writeStatuses (store : CatalogStore) (records : List StatusRecord) : CatalogStore :=
  let written := { store with statuses := records.foldl Statuses.put store.statuses }
  if records.isEmpty then written else applyStatusEffects written

end Entorhinal.Catalog
