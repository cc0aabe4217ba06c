import Entorhinal.SessionLifecycle

/-! The bindings a moving agent takes along: admission of the move on the
source, their export while it is open, and their installation when the receiver
activates. A move reference is a binding key. -/
namespace Entorhinal.Session

def sessionBindingsKind : String := "session-bindings"

def packageClosureKind : String := "package-closure"

/-- The reserved kinds name whole-agent data, not a host session. -/
def isBindingRefKind (refKind : String) : Bool :=
  refKind != "agent" && refKind != packageClosureKind && refKind != sessionBindingsKind

/-- The kind of a reference. -/
def kindOf (ref : RefKey) : String := (ofLex ref).1

/-- A binding with its whole network history. The move names the agent. -/
structure CarriedBinding where
  refKind : String
  sessionRef : String
  runner : Option String
  harness : Option String
  sessionId : Option String
  projectRoot : String
  registeredBy : String
  registeredAtMs : Int
  endedAtMs : Option Int
  networkHistory : List NetworkEntry
  heldOn : Option String
deriving DecidableEq, Repr

namespace CarriedBinding

def key (row : CarriedBinding) : RefKey := toLex (row.refKind,row.sessionRef)

/-- The first fault of a history, read after the entry of time `previous`. -/
def checkHistory : Option Int → List NetworkEntry → Except String Unit
  | _, [] => .ok ()
  | previous, entry :: rest =>
    if !networkValues.contains entry.network then .error ("unknown network value " ++ entry.network)
    else if previous.any fun p => decide (entry.sinceMs ≤ p) then
      .error "network history is not in strictly rising time order"
    else checkHistory (some entry.sinceMs) rest

/-- What the receiver refuses before the agent's claim moves. -/
def check (row : CarriedBinding) : Except String Unit :=
  if row.refKind.isEmpty || row.sessionRef.isEmpty then .error "binding has an empty ref"
  else if !isBindingRefKind row.refKind then
    .error (row.refKind ++ " is not a session binding kind")
  else if !(["orchestrator","host","move"].contains row.registeredBy) then
    .error ("unknown registered_by " ++ row.registeredBy)
  else if row.harness.isSome != row.sessionId.isSome then
    .error "harness and session id must both be present or both absent"
  else if row.heldOn.any String.isEmpty || (row.heldOn.isSome && row.endedAtMs.isNone) then
    .error "only finished bindings may name a nonempty data holder"
  else if networkHistoryMax < row.networkHistory.length then
    .error "network history exceeds its cap"
  else checkHistory none row.networkHistory

/-- The binding of a carried row on a machine of this origin. A row that names
this machine as its holder has come home. -/
def binding (row : CarriedBinding) (agentId : String) (origin : Option String) : SessionBinding where
  agentId := agentId
  harness := row.harness
  sessionId := row.sessionId
  projectRoot := row.projectRoot
  registeredBy := row.registeredBy
  registeredAtMs := row.registeredAtMs
  runner := row.runner
  endedAtMs := row.endedAtMs
  heldOn := row.heldOn.filter fun holder => some holder != origin

/-- The other bindings that hold the row's host session or runner session. -/
def sharesSession (row : CarriedBinding) (stored : SessionBinding) : Bool :=
  (row.harness.isSome && row.sessionId.isSome && row.harness == stored.harness &&
    row.sessionId == stored.sessionId) ||
  (row.runner.isSome && row.sessionId.isSome && row.runner == stored.runner &&
    row.sessionId == stored.sessionId)

end CarriedBinding

/-- What installing carried bindings did. -/
structure CarriedInstall where
  installed : Nat
  placeholders : Nat
  kept : Nat
  skippedFinished : List (RefKey × RefKey)
deriving DecidableEq

def CarriedInstall.none : CarriedInstall := ⟨0,0,0,[]⟩

/-- `INSERT` of a binding. -/
def SessionStore.insertBinding (store : SessionStore) (key : RefKey) (row : SessionBinding) :
    Except AgentMutationError SessionStore :=
  if store.bindings.has key then constraintFailed else store.put key row

def placeholder (agentId : String) (activatedAtMs : Int) : SessionBinding where
  agentId := agentId
  harness := .none
  sessionId := .none
  projectRoot := ""
  registeredBy := "move"
  registeredAtMs := activatedAtMs
  runner := .none
  endedAtMs := .none
  heldOn := .none

def insertPlaceholder (store : SessionStore) (agentId : String) (activatedAtMs : Int) (ref : RefKey) :
    Except AgentMutationError SessionStore :=
  if store.bindings.has ref then .ok store else store.put ref (placeholder agentId activatedAtMs)

def collides (store : SessionStore) (row : CarriedBinding) : Bool :=
  store.bindings.any fun _ stored => row.sharesSession stored

/-- The carried rows by their key; a later row of a key replaces an earlier one. -/
def carriedRowsOf (carried : List CarriedBinding) : Table RefKey CarriedBinding :=
  carried.foldl (fun rows row => rows.insert row.key row) ∅

structure Installing where
  store : SessionStore
  outcome : CarriedInstall
  seen : List RefKey

/-- A row the local store has no binding of, with its history. -/
def installRow (agentId : String) (activatedAtMs : Int) (state : Installing) (ref : RefKey)
    (row : CarriedBinding) : Except AgentMutationError Installing := do
  let store := state.store
  let withHistory (store : SessionStore) : Except AgentMutationError SessionStore :=
    row.networkHistory.foldlM (fun store entry => store.appendEntry row.key entry) store
  if collides store row then
    if row.heldOn.isSome then
      -- finished metadata never turns into a live placeholder
      match store.bindings.find? fun _ stored => row.sharesSession stored with
      | .none => refuse "storage_error" "Query returned no rows" []
      | some (own,_) => return { state with outcome := { state.outcome with
          kept := state.outcome.kept + 1
          skippedFinished := state.outcome.skippedFinished ++ [(ref,own)] } }
    else
      let written ← insertPlaceholder store agentId activatedAtMs ref
      let final ← withHistory written
      return { state with
        store := final
        outcome := { state.outcome with placeholders := state.outcome.placeholders + 1 } }
  else
    let written ← store.insertBinding row.key (row.binding agentId store.storeOrigin)
    let final ← withHistory written
    return { state with
      store := final
      outcome := { state.outcome with installed := state.outcome.installed + 1 } }

def installRef (agentId : String) (activatedAtMs : Int) (carried : Table RefKey CarriedBinding)
    (state : Installing) (ref : RefKey) : Except AgentMutationError Installing :=
  if state.seen.contains ref then .ok state
  else
    let state := { state with seen := state.seen ++ [ref] }
    let row := carried.get? ref
    if state.store.bindings.has ref then
      -- a binding this machine already has keeps its own row and history
      .ok { state with outcome := { state.outcome with
        kept := state.outcome.kept + if row.isSome then 1 else 0 } }
    else match row with
      | .none => (insertPlaceholder state.store agentId activatedAtMs ref).map fun store =>
          { state with store := store }
      | some row => installRow agentId activatedAtMs state ref row

/-- Finished metadata outside `refs` is installed too. -/
def metadataRefs (carried : Table RefKey CarriedBinding) : List RefKey :=
  (carried.filter fun _ row => row.heldOn.isSome).keys

def installMovedBindings (store : SessionStore) (agentId : String) (activatedAtMs : Int)
    (refs : List RefKey) (carried : List CarriedBinding) :
    Except AgentMutationError (SessionStore × CarriedInstall) := do
  let rows := carriedRowsOf carried
  let final ← (refs ++ metadataRefs rows).foldlM (installRef agentId activatedAtMs rows)
    ⟨store,.none,[]⟩
  return (final.store,final.outcome)

def moveDetail (cutId : String) (row : OpenMove) : List (String × Detail) :=
  [("cut_id",.text (some cutId)),("side",.text (some row.side.text)),("step",.text (some row.step.text))]

/-- An open move of the agent other than this cut's: what the index over the
open moves refuses. -/
def SessionStore.otherOpenMove (store : SessionStore) (cutId agentId : String) : Bool :=
  store.moves.any fun other m => other != cutId && m.agentId == agentId && !m.step.isTerminal

/-- `UPDATE` of a move's checkpoint. -/
def SessionStore.writeMove (store : SessionStore) (cutId : String) (row : OpenMove) :
    Except AgentMutationError SessionStore :=
  if !row.step.isTerminal && store.otherOpenMove cutId row.agentId then constraintFailed
  else .ok { store with moves := store.moves.insert cutId row }

/-- Every owner is checked before anything is inserted. -/
def checkOwner (store : SessionStore) (agentId : String) (ref : RefKey) :
    Except AgentMutationError Unit :=
  match store.bindings.get? ref with
  | some bound =>
    if bound.agentId ≠ agentId then
      refuse "ref_bound_elsewhere" "incoming reference has another owner"
        [("ref_kind",.text (some (kindOf ref))),("ref",.text (some (ofLex ref).2))]
    else .ok ()
  | none => .ok ()

/-- `activate_agent_move_carrying` with the driver's `row` of the cut. -/
def activateAgentMoveCarrying (store : SessionStore) (cutId : String) (row : OpenMove)
    (activatedAtMs : Option Int) (refs : List RefKey) (carried : List CarriedBinding) :
    Except AgentMutationError (SessionStore × CarriedInstall) :=
  match store.moves.get? cutId with
  | none => refuse "storage_error" "Query returned no rows" []
  | some current =>
    match activatedAtMs with
    | none => refuse "invalid_state" "invalid activation checkpoint" (moveDetail cutId current)
    | some activatedAtMs =>
      if current.side ≠ .receiver ∨ current.step ≠ .activating ∨ row.step ≠ .activated then
        refuse "invalid_state" "invalid activation checkpoint" (moveDetail cutId current)
      else do
        refs.forM (checkOwner store row.agentId)
        let (installed,outcome) ← installMovedBindings store row.agentId activatedAtMs refs carried
        let written ← installed.writeMove cutId row
        return (written,outcome)

/-- The session bindings a move's plan names. -/
def planBindingRefs (row : OpenMove) : List RefKey :=
  row.planRefs.filter fun ref => isBindingRefKind (kindOf ref)

/-- Every binding of the agent, ended ones included, in key order. -/
def carriedRows (store : SessionStore) (agentId : String) : List CarriedBinding :=
  (store.bindings.filter fun _ row => row.agentId == agentId).rows.map fun (key,row) => {
    refKind := (ofLex key).1
    sessionRef := (ofLex key).2
    runner := row.runner
    harness := row.harness
    sessionId := row.sessionId
    projectRoot := row.projectRoot
    registeredBy := row.registeredBy
    registeredAtMs := row.registeredAtMs
    endedAtMs := row.endedAtMs
    networkHistory := store.historyOf key
    heldOn := row.heldOn }

/-- The agent's bindings are not those the move was admitted with. -/
def bindingsDiffer {α : Type} : Except AgentMutationError α :=
  refuse "invalid_state" "the agent's bindings differ from the admitted move" []

/-- A finished row outside the plan stays with this machine. -/
def nameHolder (store : SessionStore) (planned : List RefKey) (row : CarriedBinding) :
    Except AgentMutationError CarriedBinding :=
  if !planned.contains row.key && row.heldOn.isNone then
    match store.storeOrigin with
    | none => refuse "invalid_state" "store origin is unknown" []
    | some origin => .ok { row with heldOn := some origin }
  else .ok row

def exportSessionBindings (store : SessionStore) (cutId agentId : String) :
    Except AgentMutationError (List CarriedBinding) :=
  let frozen := (store.moves.get? cutId).filter fun row => row.agentId == agentId &&
    row.side == .source && (row.step matches .preparing | .exported | .sealed)
  match frozen with
  | none => refuse "invalid_state" "no open source move freezes this agent" []
  | some row =>
    let rows := carriedRows store agentId
    let planned := planBindingRefs row
    if !(planned.all fun ref => (rows.map (·.key)).contains ref) ||
        (rows.any fun b => b.endedAtMs.isNone && !planned.contains b.key) then bindingsDiffer
    else rows.mapM (nameHolder store planned)

/-- The agent's live references. -/
def boundRefs (store : SessionStore) (agentId : String) : List RefKey :=
  (store.bindings.filter fun _ row => row.agentId == agentId && row.endedAtMs.isNone).keys

/-- The references in order, each once. -/
def refSet (refs : List RefKey) : List RefKey :=
  (refs.foldl (fun (set : Table RefKey Unit) ref => set.insert ref ()) ∅).keys

/-- Every participant gets the references of the kinds it declares; a reference
that no one gets refuses the move. -/
def planParticipants (described : List (String × List String)) (refs : List RefKey) :
    Except AgentMutationError (List (String × List RefKey)) :=
  let refs := refSet refs
  let plan := described.map fun (moduleId,kinds) =>
    (moduleId,refs.filter fun ref => kinds.contains (kindOf ref))
  match refs.find? fun ref => !(plan.any fun p => p.2.contains ref) with
  | some missing => refuse "participant_unavailable" "participant cannot cover move refs"
      [("ref_kind",.text (some (kindOf missing)))]
  | none => .ok plan

/-- What `agent.move` has gathered when it commits: the live references it read,
whether the agent has pins and carries its bindings, and the participants. -/
structure Admission where
  cutId : String
  agentId : String
  refs : List RefKey
  pinned : Bool
  carryBindings : Bool
  described : List (String × List String)

def Admission.wireRefs (a : Admission) : List RefKey :=
  a.refs ++ (if a.pinned then [toLex (packageClosureKind,a.agentId)] else []) ++
    (if a.carryBindings then [toLex (sessionBindingsKind,a.agentId)] else []) ++
    (if a.described.any fun p => p.2.contains "agent" then [toLex ("agent",a.agentId)] else [])

def liveRefMax : Nat := 256

def openMoveMax : Nat := 4

/-- `INSERT` of a move's checkpoint. -/
def SessionStore.insertMove (store : SessionStore) (cutId : String) (row : OpenMove) :
    Except AgentMutationError SessionStore :=
  if store.moves.has cutId then constraintFailed else store.writeMove cutId row

/-- One open move an agent, and four in all. -/
def checkMoveSlot (store : SessionStore) (agentId : String) : Except AgentMutationError Unit :=
  match store.openMoves.find? fun m => m.2.agentId == agentId with
  | some (cutId,existing) => refuse "move_in_progress" "agent has an open move" (moveDetail cutId existing)
  | none =>
    if openMoveMax ≤ store.openMoves.length then refuse "move_cap" "four moves are already open" []
    else .ok ()

/-- `admit_agent_move` of a request not seen before; a resend of one returns its
row and writes nothing. -/
def admitAgentMove (store : SessionStore) (cutId : String) (row : OpenMove) (checkedRefs : List RefKey)
    (pinsSame : Bool) : Except AgentMutationError SessionStore :=
  if row.side ≠ .source ∨ row.step ≠ .preparing then
    refuse "invalid_request" "invalid admission checkpoint" []
  else if boundRefs store row.agentId ≠ checkedRefs then
    refuse "agent_busy" "a session started during the check" []
  else if liveRefMax < checkedRefs.length then
    refuse "live_ref_cap" "too many live session references"
      [("live_refs",.number checkedRefs.length),("cap",.number liveRefMax)]
  else if !pinsSame then refuse "agent_busy" "catalog pins changed during the move check" []
  else do
    checkMoveSlot store row.agentId
    store.insertMove cutId row

/-- The participant with the most references, the last of several. -/
def largestParticipant (plan : List (String × List RefKey)) : Option (String × List RefKey) :=
  plan.foldl (fun best p => match best with
    | none => some p
    | some b => if b.2.length ≤ p.2.length then some p else some b) none

def checkParticipantRefs (a : Admission) (plan : List (String × List RefKey)) :
    Except AgentMutationError Unit :=
  match largestParticipant plan with
  | none => .ok ()
  | some (moduleId,refs) =>
    if liveRefMax < refs.length then
      refuse "live_ref_cap" "too many participant references"
        [("live_refs",.number a.refs.length),("cap",.number liveRefMax),
          ("module_id",.text (some moduleId)),("participant_refs",.number refs.length)]
    else .ok ()

/-- The commit of `agent.move`; its plan is routed over the references it read. -/
def admitMove (store : SessionStore) (a : Admission) (pinsSame : Bool) :
    Except AgentMutationError SessionStore := do
  let plan ← planParticipants a.described a.wireRefs
  checkParticipantRefs a plan
  admitAgentMove store a.cutId ⟨a.agentId,.source,.preparing,plan.flatMap (·.2)⟩ a.refs pinsSame

def admitReceivedMove (store : SessionStore) (cutId : String) (row : OpenMove) :
    Except AgentMutationError SessionStore :=
  if row.side ≠ .receiver ∨ (row.step ≠ .pickedUp ∧ row.step ≠ .aborted) then
    refuse "invalid_request" "invalid receiver checkpoint" []
  else if store.moves.has cutId then .ok store
  else do
    checkMoveSlot store row.agentId
    store.insertMove cutId row

/-- `set_session_network`; `now` is what the clock reads when the entry commits. -/
def setSessionNetwork (store : SessionStore) (harness sessionId network : String) (now : Int) :
    Except AgentMutationError (SessionStore × NetworkChange) :=
  if !networkValues.contains network then
    refuse "invalid_request" "network must be yes, no or unknown" []
  else match store.bySession harness sessionId with
    | none => refuse "not_found" "no agent session is registered under this harness and session" []
    | some (key,_) => do
      let plan ← planNetwork store key network
      applyNetworkPlan store key network now plan

end Entorhinal.Session
