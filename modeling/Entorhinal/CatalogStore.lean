import Entorhinal.CatalogGrants

/-! The catalog's tables of one machine: plans, prepared closures, generations and the
results saved for repeated calls. -/
namespace Entorhinal.Catalog

structure CatalogSpec where
  package : String
  range : String
deriving DecidableEq, Repr

inductive CatalogTarget
  | agent (id : String)
  | tier (id : String)
deriving DecidableEq, Repr

inductive PlanState
  | pending
  | ready
  | failed
deriving DecidableEq, Repr

inductive PlanRefusal
  | kindNotYetSupported (package : String)
  | given (value : String)
deriving DecidableEq, Repr

structure CatalogPlan where
  agentId : String
  operation : String
  spec : CatalogSpec
  state : PlanState
  closure : Option (List CatalogPin)
  refusal : Option PlanRefusal
  basePinDigest : PinDigest
  statusSnapshot : Option StatusSnapshot
  createdAtMs : Int
  readyAtMs : Option Int
deriving DecidableEq, Repr

inductive GenerationState
  | installed
  | approved
  | ready
  | active
  | degraded
  /-- Replaced; the row and its closure stay while consumers switch. -/
  | superseded
deriving DecidableEq, Repr

inductive GenerationError
  /-- Written by a status update. -/
  | pinned (code name version : String) (reason : Option String)
  | given (value : String)
deriving DecidableEq, Repr

structure CatalogGeneration where
  agentId : String
  planId : String
  state : GenerationState
  closure : List CatalogPin
  pinDigest : PinDigest
  createdAtMs : Int
  activatedAtMs : Option Int
  error : Option GenerationError
  publisherFacts : List CatalogPublisherFact
deriving DecidableEq, Repr

inductive PlanStep
  | create (agent operation : String) (spec : CatalogSpec)
  | ready (pins : List CatalogPin)
  | failed (refusal : String)
deriving DecidableEq, Repr

def PlanStep.name : PlanStep → String
  | .create .. => "create"
  | .ready _ => "ready"
  | .failed _ => "failed"

inductive GenerationStep
  | approve (planId caller : String)
  | ready
  | active
  | degraded (error : String)
deriving DecidableEq, Repr

def GenerationStep.name : GenerationStep → String
  | .approve .. => "approve"
  | .ready => "ready"
  | .active => "active"
  | .degraded _ => "degraded"

/-- A row of `catalog_transition`: the step with its arguments, and what it answered. -/
structure Saved (α ρ : Type) where
  id : String
  step : α
  result : ρ
deriving DecidableEq, Repr

structure CatalogStore where
  agents : Agents
  /-- The pins of an agent, ordered by name. -/
  pins : Table String (List CatalogPin)
  statuses : Statuses
  plans : Table String CatalogPlan
  prepared : Table String PreparedPlan
  generations : Table String CatalogGeneration
  planSteps : List (Saved PlanStep CatalogPlan)
  generationSteps : List (Saved GenerationStep CatalogGeneration)
  permissions : Permissions
deriving DecidableEq

instance : EmptyCollection CatalogStore := ⟨⟨∅,∅,∅,∅,∅,∅,[],[],∅⟩⟩

def refuse (code : String) (when : Bool) : Except CatalogWriteError Unit :=
  if when then .error (.refused code) else .ok ()

/-- A row that has to be there. -/
def required {α : Type} (row : Option α) : Except CatalogWriteError α :=
  match row with
  | some row => .ok row
  | none => .error .store

def readPlan (store : CatalogStore) (id : String) : Except CatalogWriteError CatalogPlan :=
  required (store.plans.get? id)

def readGeneration (store : CatalogStore) (id : String) : Except CatalogWriteError CatalogGeneration :=
  required (store.generations.get? id)

def readPins (store : CatalogStore) (agent : String) : List CatalogPin := (store.pins.get? agent).getD []

def currentDigest (rules : Rules) (store : CatalogStore) (agent : String) :
    Except CatalogWriteError PinDigest := pinDigest rules (readPins store agent)

def live (store : CatalogStore) (agent : String) : Except CatalogWriteError Unit :=
  refuse "gone" (!isLive store.agents agent)

def owner (agent caller : String) : Except CatalogWriteError Unit :=
  refuse "caller_forbidden" (agent != caller)

/-- A step is performed once for an id; repeating it answers what it answered then. -/
def transition {α ρ : Type} [DecidableEq α] (name : α → String) (rows : List (Saved α ρ))
    (store : CatalogStore) (id : String) (step : α) (canonical : Bool)
    (action : Except CatalogWriteError (CatalogStore × ρ))
    (save : CatalogStore → Saved α ρ → CatalogStore) : Except CatalogWriteError (CatalogStore × ρ) := do
  refuse "invalid_request" (!canonical)
  match rows.find? fun row => row.id == id && name row.step == name step with
  | some row =>
    refuse "request_key_conflict" (row.step != step)
    return (store,row.result)
  | none =>
    let (done,result) ← action
    return (save done ⟨id,step,result⟩,result)

def CatalogStore.savePlanStep (store : CatalogStore) (row : Saved PlanStep CatalogPlan) : CatalogStore :=
  { store with planSteps := row :: store.planSteps }

def CatalogStore.saveGenerationStep (store : CatalogStore) (row : Saved GenerationStep CatalogGeneration) :
    CatalogStore := { store with generationSteps := row :: store.generationSteps }

def CatalogStore.putPlan (store : CatalogStore) (id : String) (plan : CatalogPlan) : CatalogStore :=
  { store with plans := store.plans.insert id plan }

def CatalogStore.putGeneration (store : CatalogStore) (id : String) (generation : CatalogGeneration) :
    CatalogStore := { store with generations := store.generations.insert id generation }

def planTransition (store : CatalogStore) (id : String) (step : PlanStep) (canonical : Bool)
    (action : Except CatalogWriteError (CatalogStore × CatalogPlan)) :
    Except CatalogWriteError (CatalogStore × CatalogPlan) :=
  transition PlanStep.name store.planSteps store id step canonical action CatalogStore.savePlanStep

def generationTransition (store : CatalogStore) (id : String) (step : GenerationStep) (canonical : Bool)
    (action : Except CatalogWriteError (CatalogStore × CatalogGeneration)) :
    Except CatalogWriteError (CatalogStore × CatalogGeneration) :=
  transition GenerationStep.name store.generationSteps store id step canonical action
    CatalogStore.saveGenerationStep

/-- `INSERT` of a generation: the id and the plan are unique. -/
def insertGeneration (store : CatalogStore) (id : String) (generation : CatalogGeneration) :
    Except CatalogWriteError CatalogStore :=
  if store.generations.has id || store.generations.any fun _ row => row.planId == generation.planId
  then .error .store
  else .ok (store.putGeneration id generation)

end Entorhinal.Catalog
