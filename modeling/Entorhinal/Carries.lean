import Entorhinal.Approvals

/-! The claims a placement carries to its workspace, and the correction of stored workspaces: their
plans, the texts they are approved by, and what they write. -/
namespace Entorhinal.Approvals

open Agents (AgentRow)

/-- One agent's change: its stored workspace is cleared, and its claim moves to the target. -/
structure NamespaceMove where
  row : AgentRow
  claim : Option ActiveClaim
  target : Option String
deriving DecidableEq

def NamespaceMove.clearsWorkspace (move : NamespaceMove) : Bool := move.row.workspaceId.isSome

def NamespaceMove.movesClaim (move : NamespaceMove) : Bool := move.target.isSome

structure Carry where
  projectId : String
  workspaceId : String
  moves : List NamespaceMove
deriving DecidableEq

def keyedOn (claim : ActiveClaim) (workspace : String) : Bool :=
  claim.namespaceKind == "workspace" && claim.namespaceKey == workspace

section Plan
variable (state : Identities)

def liveClaim (row : AgentRow) : Except AgentMutationError (Option ActiveClaim) :=
  if row.status = "live" then (activeClaim state row.agentId).map some else .ok none

/-- None where nothing would change. -/
def planOne (row : AgentRow) (workspace : Option String) : Except AgentMutationError (Option NamespaceMove) := do
  let claim ← liveClaim state row
  let target := match claim,workspace with
    | some claim,some workspace => if keyedOn claim workspace then none else some workspace
    | _,_ => none
  let planned : NamespaceMove := ⟨row,claim,target⟩
  .ok (if planned.clearsWorkspace || planned.movesClaim then some planned else none)

def isHead (row : AgentRow) : Bool := row.role == "head" || row.role == "hiree"

/-- The heads and hirees of a project that are live, in the order of their ids. -/
def carried (projectId : String) : List AgentRow :=
  (state.agents.rows.map Prod.snd).filter fun row =>
    row.projectId == some projectId && isHead row && row.status == "live"

def planCarry (projectId workspaceId : String) : Except AgentMutationError Carry := do
  let planned ← (carried state projectId).mapM fun row => planOne state row (some workspaceId)
  .ok ⟨projectId,workspaceId,planned.filterMap id⟩

/-- The correction's plan, and the refusal of the first live agent whose project is not placed. -/
def planRepair : List AgentRow → Except AgentMutationError (List NamespaceMove × Option AgentMutationError)
  | [] => .ok ([],none)
  | row :: rest =>
    if !isHead row then planRepair rest
    else if row.status ≠ "live" then do
      let planned ← planOne state row none
      let (moves,refusal) ← planRepair rest
      .ok (planned.toList ++ moves,refusal)
    else
      let projectId := row.projectId.getD ""
      match (state.placements.get? projectId).filter fun workspace => state.workspaces.has workspace with
      | some workspace => do
        let planned ← planOne state row (some workspace)
        let (moves,refusal) ← planRepair rest
        .ok (planned.toList ++ moves,refusal)
      | none => do
        let (moves,_) ← planRepair rest
        .ok (moves,some ⟨"unresolved_workspace","agent " ++ row.agentId ++ "'s project " ++ projectId ++
          " is not placed in a workspace",[("agent_id",.text (some row.agentId)),("project_id",.text (some projectId))]⟩)

/-- No moving name is held in its target, or moved there by an agent before it. -/
def checkNames : List (String × List Char × String) → List NamespaceMove → Except AgentMutationError Unit
  | _,[] => .ok ()
  | batch,move :: rest =>
    match move.target,move.claim with
    | some target,some claim =>
      let stored := holder state "workspace" target claim.normalizedName (some move.row.agentId)
      let earlier := (batch.find? fun moved => moved.1 == target && moved.2.1 == claim.normalizedName).map (·.2.2)
      match stored.or earlier with
      | some other => .error ⟨"name_conflict","name '" ++ claim.displayName ++ "' is claimed in workspace/" ++ target,
          [("agent_id",.text (some move.row.agentId)),("holder_agent_id",.text (some other)),
            ("workspace_id",.text (some target))]⟩
      | none => checkNames ((target,claim.normalizedName,move.row.agentId) :: batch) rest
    | _,_ => checkNames batch rest

/-- A change as it is written. -/
def applyMove (state : Identities) (move : NamespaceMove) : Identities :=
  { state.put move.row.agentId
      { move.row with workspaceId := none, agentGeneration := move.row.agentGeneration + 1 } with
    claims := match move.target,move.claim with
      | some target,some claim =>
        state.claims.insert move.row.agentId { claim with namespaceKind := "workspace", namespaceKey := target }
      | _,_ => state.claims }

def applyMoves (moves : List NamespaceMove) : Identities := moves.foldl applyMove state

end Plan

section Text
variable (plain : Char → Bool)

/-- `move <project> to <workspace>: <names>`. -/
def clauseText (projectId workspaceId : String) (names : List String) : List Char :=
  "move ".toList ++ quoted plain projectId ++ " to ".toList ++ quoted plain workspaceId ++
    (if names = [] then [] else ": ".toList ++ joined ", ".toList (names.map (quoted plain)))

/-- The projects with their workspaces and the names shown of each, with `left` names to show. -/
def clauses : Nat → List Carry → List (String × String × List String)
  | _,[] => []
  | left,carry :: rest =>
    let count := min left carry.moves.length
    (carry.projectId,carry.workspaceId,(carry.moves.take count).map fun move => move.row.name) ::
      clauses (left - count) rest

def total (carries : List Carry) : Nat := (carries.map fun carry => carry.moves.length).sum

def moreText (hidden : Nat) : List Char :=
  if hidden = 0 then [] else " and ".toList ++ Nat.toDigits 10 hidden ++ " more".toList

def carryText (carries : List Carry) (shown : Nat) : List Char :=
  joined "; ".toList ((clauses shown carries).map fun c => clauseText plain c.1 c.2.1 c.2.2) ++
    moreText (total carries - shown)

/-- How many names fit the prompt. -/
def shownOf (carries : List Carry) : Option Nat :=
  (List.range (total carries + 1)).reverse.find? fun shown =>
    (carryText plain carries shown).length ≤ OPERATOR_SUMMARY_LIMIT

def carrySummary (carries : List Carry) : Except AgentMutationError (List Char) :=
  match shownOf plain carries with
  | some shown => .ok (carryText plain carries shown)
  | none => refuse "operator_summary_too_long" "the project and workspace ids do not fit the operator prompt"

def counts (moves : List NamespaceMove) : Nat × Nat :=
  (moves.countP NamespaceMove.clearsWorkspace,moves.countP NamespaceMove.movesClaim)

/-- Both counts. -/
def repairSummary (moves : List NamespaceMove) : List Char :=
  "repair agent workspaces: clear ".toList ++ Nat.toDigits 10 (counts moves).1 ++ " stored workspaces, move ".toList ++
    Nat.toDigits 10 (counts moves).2 ++ " name claims".toList

/-- A project's name and its new domain, as they are. -/
def domainSummary (name : String) (value : Option String) : Except AgentMutationError (List Char) :=
  let text := "set domain of project ".toList ++ name.toList ++ " to ".toList ++ (value.getD "unset").toList
  if OPERATOR_SUMMARY_LIMIT < text.length then
    refuse "operator_summary_too_long" "shorten the project or workspace name to fit the operator prompt"
  else .ok text

end Text

inductive PlacementConfirmation
  | notRequired
  | approved (summary : List Char)
  | noPrompt

/-- A placement: the projects it places anew with their workspaces, in the order it comes to them,
and the project's name and domain where it changes the domain. -/
structure Placement where
  targets : List (String × String)
  domain : Option (String × Option String)

section Writes
variable (plain : Char → Bool) (state : Identities)

def ordered (carries : List Carry) : List Carry :=
  (carries.filter fun carry => !carry.moves.isEmpty).insertionSort fun a b => a.projectId ≤ b.projectId

def moved (carries : List Carry) : List NamespaceMove :=
  (carries.flatMap Carry.moves).insertionSort fun a b => a.row.agentId ≤ b.row.agentId

def requireCarryCutover (carrying : List Carry) : Except AgentMutationError Unit :=
  if carrying = [] then .ok () else requireCutover state

def placementText (carrying : List Carry) (domain : Option (List Char)) : Except AgentMutationError (List Char) :=
  match carrying,domain with
  | [],some domain => .ok domain
  | carrying,some domain => (carrySummary plain carrying).map fun text => text ++ ("; ".toList ++ domain)
  | carrying,none => carrySummary plain carrying

/-- The text of what a placement carries and of its change of domain; none where there is neither. -/
def placementSummary (carries : List Carry) (domain : Option (List Char)) :
    Except AgentMutationError (Option (List Char)) := do
  let carrying := ordered carries
  if carrying = [] ∧ domain = none then .ok none
  else
    requireCarryCutover state carrying
    checkNames state [] (moved carrying)
    let text ← placementText plain carrying domain
    if OPERATOR_SUMMARY_LIMIT < text.length then
      refuse "operator_summary_too_long" "shorten names to fit the combined operator prompt"
    else .ok (some text)

def domainText : Option (String × Option String) → Except AgentMutationError (Option (List Char))
  | none => .ok none
  | some (name,value) => (domainSummary name value).map some

/-- What a placement carries and the text it is approved by. -/
def planPlacement (placement : Placement) : Except AgentMutationError (List Carry × Option (List Char)) := do
  let carries ← placement.targets.mapM fun target => planCarry state target.1 target.2
  let domain ← domainText placement.domain
  let text ← placementSummary plain state carries domain
  .ok (carries,text)

/-- The precheck: none where no prompt is needed. -/
def precheckPlacement (placement : Placement) : Except AgentMutationError (Option (List Char)) := do
  let (_,text) ← planPlacement plain state placement
  .ok text

def confirms (direct domainChange : Bool) (confirmation : PlacementConfirmation) (text : List Char) : Bool :=
  match confirmation with
  | .notRequired => !(direct && domainChange)
  | .approved approval => approval == text
  | .noPrompt => false

/-- The agents' part of a placement. -/
def placementWrite (direct : Bool) (confirmation : PlacementConfirmation) (placement : Placement) :
    Except AgentMutationError (Identities × List Carry) := do
  let (carries,text) ← planPlacement plain state placement
  if text.any fun text => !confirms direct placement.domain.isSome confirmation text then stale
  else .ok (applyMoves state (moved carries),carries)

/-- The correction, refused as a whole. -/
def planCorrection : Except AgentMutationError (List NamespaceMove) := do
  let (moves,unresolved) ← planRepair state (state.agents.rows.map Prod.snd)
  requireCutover state
  match unresolved with
  | some refusal => .error refusal
  | none =>
    checkNames state [] moves
    .ok moves

def precheckRepair : Except AgentMutationError (List Char) := (planCorrection state).map repairSummary

def repairWrite (approval : List Char) : Except AgentMutationError (Identities × List NamespaceMove) := do
  let moves ← planCorrection state
  if repairSummary moves ≠ approval then stale else .ok (applyMoves state moves,moves)

end Writes

end Entorhinal.Approvals
