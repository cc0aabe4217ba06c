import Entorhinal.AgentReads
import Entorhinal.DebugText
import Entorhinal.Names

/-! The identity writes an operator approves by a text: what is checked of each, the text it is
approved by, and what it then does. -/
namespace Entorhinal.Approvals

open Agents (AgentRow NormalizedAgentName Role Unicode normalizeAgentName trim)

structure ActiveClaim where
  namespaceKind : String
  namespaceKey : String
  normalizedName : List Char
  displayName : String
deriving DecidableEq, Repr

/-- The agents with their active claims, and where the projects are placed. -/
structure Identities where
  agents : Table String AgentRow
  claims : Table String ActiveClaim
  projects : Table String Unit
  aliases : Table String String
  workspaces : Table String Unit
  placements : Table String String
  cutover : Bool
  named : ∀ id row, agents.get? id = some row → row.agentId = id

/-- An agent's row is written under its id. -/
def Identities.put (state : Identities) (id : String) (row : AgentRow) : Identities :=
  { state with
    agents := state.agents.insert id { row with agentId := id }
    named := by
      intro other found there
      rw [Table.get?_insert] at there
      split_ifs at there with same
      · cases there
        exact same.symm
      · exact state.named other found there }

def refuse {α : Type} (code message : String) : Except AgentMutationError α := .error ⟨code,message,[]⟩

def requireCutover (state : Identities) : Except AgentMutationError Unit :=
  if state.cutover then .ok () else refuse "authority_not_cut_over" "agent identity authority is not cut over"

def OPERATOR_SUMMARY_LIMIT : Nat := 200

section Checks
variable (u : Unicode) (state : Identities)

/-- A current project wins before the single hop of an alias. -/
def project (id : String) : Except AgentMutationError String :=
  if state.projects.has id then .ok id
  else
    let resolved := (state.aliases.get? id).getD id
    if state.projects.has resolved then .ok resolved else refuse "not_found" id

def placement (id : String) : Except AgentMutationError String :=
  match (state.placements.get? id).filter fun workspace => state.workspaces.has workspace with
  | some workspace => .ok workspace
  | none => refuse "unresolved_workspace" "project has no resolved workspace"

/-- The agent other than this one that holds a name. -/
def holder (kind key : String) (name : List Char) (but : Option String) : Option String :=
  (state.claims.find? fun id claim => claim.namespaceKind == kind && claim.namespaceKey == key &&
    claim.normalizedName == name && some id != but).map Prod.fst

def checkName (kind key : String) (name : NormalizedAgentName) (but : Option String) : Except AgentMutationError Unit :=
  match holder state kind key name.normalizedName but with
  | some _ => refuse "name_conflict"
      ("name '" ++ String.ofList name.storedName ++ "' is claimed in " ++ kind ++ "/" ++ key)
  | none => .ok ()

def validateTag (raw : String) : Except AgentMutationError String :=
  match Agents.validateScalar 256 raw with
  | some tag => .ok tag
  | none => refuse "invalid_tag" "invalid_tag"

/-- Trimmed labels in the request's order; the fold of one refuses the others like it. -/
def validateLabels : List (List Char) → List String → Except AgentMutationError (List String)
  | _,[] => .ok []
  | seen,raw :: rest =>
    let label := trim raw.toList
    let key := label.flatMap u.foldChar
    if label.isEmpty then refuse "invalid_labels" "invalid_labels: Empty"
    else if 32 < label.length then refuse "invalid_labels" "invalid_labels: TooLong"
    else if key ∈ seen then refuse "invalid_labels" "invalid_labels: Duplicate"
    else (validateLabels (key :: seen) rest).map (String.ofList label :: ·)

def validateAgentLabels (raw : List String) : Except AgentMutationError (List String) :=
  if 16 < raw.length then refuse "invalid_labels" "invalid_labels: TooMany" else validateLabels u [] raw

def validAgentId (id : String) : Bool :=
  "agent_".toList.isPrefixOf id.toList &&
    (let digits := String.ofList (id.toList.drop 6)
     Package.isHex digits 8 || Package.isHex digits 16)

end Checks

structure Create where
  role : Role
  name : String
  tag : String
  projectId : Option String
  workspaceId : Option String
  supervisorAgentId : Option String
deriving DecidableEq, Repr

inductive Mutation
  | create (request : Create)
  | rename (agentId name : String)
  | tag (agentId tag : String)
  | labels (agentId : String) (labels : List String)
  | dispose (agentId : String)
deriving DecidableEq, Repr

structure NameEdit where
  kind : String
  key : String
  name : NormalizedAgentName

/-- A write that passed every check; `previous` is none for a create. -/
structure Prepared where
  row : AgentRow
  previous : Option AgentRow
  name : Option NameEdit
  release : Bool

section Validate
variable (u : Unicode) (state : Identities) (now : Int)

def scopeId (validate : String → Option String) (message : String) : Option String → Except AgentMutationError (Option String)
  | none => .ok none
  | some raw => match validate raw with
    | some id => .ok (some id)
    | none => refuse "invalid_role_shape" message

def shapeOf (role : Role) (projectId workspaceId : Option String) : Bool :=
  match role with
  | .assistant => projectId.isNone && workspaceId.isNone
  | .workspaceHead => projectId.isNone && workspaceId.isSome
  | .head => projectId.isSome && workspaceId.isNone
  | .hiree => projectId.isSome && workspaceId.isNone

/-- A supervisor is the live head of the hiree's project. -/
def checkSupervisor (role : Role) (projectId : Option String) : Option String → Except AgentMutationError Unit
  | none => .ok ()
  | some id =>
    let supervisor := if validAgentId id then state.agents.get? id else none
    if role = .hiree ∧ supervisor.any (fun s => s.role == "head" && s.status == "live" && s.projectId == projectId) then
      .ok ()
    else refuse "invalid_supervisor" "supervisor must be this hiree's live project head"

def headConflict (projectId : String) : Bool :=
  state.agents.any fun _ row => row.projectId == some projectId && row.role == "head" && row.status == "live"

def resolveProject : Option String → Except AgentMutationError (Option String)
  | none => .ok none
  | some id => (project state id).map some

/-- A head or hiree is placed where its project is; the others where the request says. -/
def resolveWorkspace (asked : Option String) : Option String → Except AgentMutationError (Option String)
  | none => .ok asked
  | some id => (placement state id).map some

/-- Where the name of a new agent is claimed. -/
def namespaceOf (role : Role) (workspaceId : Option String) : String × String :=
  match role with
  | .assistant => ("assistant","global")
  | _ => ("workspace",workspaceId.getD "")

def validateCreate (r : Create) : Except AgentMutationError (AgentRow × NameEdit) := do
  let given ← scopeId Agents.validateProjectId "invalid project_id" r.projectId
  let asked ← scopeId Agents.validateWorkspaceId "invalid workspace_id" r.workspaceId
  if !shapeOf r.role given asked then
    refuse "invalid_role_shape" "role does not match project_id and workspace_id"
  else
    let name ← normalizeAgentName u r.name.toList
    let tag ← validateTag r.tag
    let projectId ← resolveProject state given
    if r.role = .workspaceHead ∧ !(asked.any fun id => state.workspaces.has id) then
      refuse "not_found" (asked.getD "")
    else
      let workspaceId ← resolveWorkspace state asked projectId
      checkSupervisor state r.role projectId r.supervisorAgentId
      let (kind,key) := namespaceOf r.role workspaceId
      checkName state kind key name none
      if r.role = .head ∧ projectId.any (fun id => headConflict state id) then
        refuse "agent_project_taken" "project already has a live head"
      else
        .ok ({
          agentId := ""
          name := String.ofList name.storedName
          nameVersion := 1
          tag := tag
          labels := []
          role := r.role.asStr
          projectId := projectId
          -- only a workspace head stores its workspace
          workspaceId := if r.role = .workspaceHead then workspaceId else none
          status := "live"
          mergedInto := none
          supervisorAgentId := r.supervisorAgentId
          createdAtMs := now
          terminalAtMs := none
          agentGeneration := 1 },⟨kind,key,name⟩)

def Mutation.target : Mutation → Option String
  | .create _ => none
  | .rename id _ => some id
  | .tag id _ => some id
  | .labels id _ => some id
  | .dispose id => some id

def requirePlacement (row : AgentRow) : Except AgentMutationError Unit :=
  if row.role = "head" ∨ row.role = "hiree" then (placement state (row.projectId.getD "")).map fun _ => () else .ok ()

def activeClaim (id : String) : Except AgentMutationError ActiveClaim :=
  match state.claims.get? id with
  | some claim => .ok claim
  | none => refuse "storage_error" "Query returned no rows"

/-- The changed row, its name where it is renamed, and whether its claim is released. -/
def changed (id : String) (row : AgentRow) : Mutation → Except AgentMutationError (AgentRow × Option NameEdit × Bool)
  | .create _ => .ok (row,none,false)
  | .rename _ raw => do
    requirePlacement state row
    let name ← normalizeAgentName u raw.toList
    let active ← activeClaim state id
    checkName state active.namespaceKind active.namespaceKey name (some id)
    .ok ({ row with name := String.ofList name.storedName, nameVersion := row.nameVersion + 1 },
      some ⟨active.namespaceKind,active.namespaceKey,name⟩,true)
  | .tag _ raw => do
    let tag ← validateTag raw
    .ok ({ row with tag := tag },none,false)
  | .labels _ raw => do
    let labels ← validateAgentLabels u raw
    .ok ({ row with labels := labels },none,false)
  | .dispose _ => do
    let _ ← activeClaim state id
    .ok ({ row with status := "retired", terminalAtMs := some now },none,true)

def validate (request : Mutation) : Except AgentMutationError Prepared :=
  match request with
  | .create r => do
    let (row,name) ← validateCreate u state now r
    .ok ⟨row,none,some name,false⟩
  | request => do
    let id := request.target.getD ""
    match state.agents.get? id with
    | none => refuse "unknown_agent" ("unknown agent " ++ id)
    | some previous =>
      -- a retired agent is retired again without a change
      if previous.status = "retired" ∧ request = .dispose id then .ok ⟨previous,some previous,none,false⟩
      else if previous.status ≠ "live" then refuse "gone" "agent is gone"
      else
        let (row,name,release) ← changed u state now id previous request
        let row := if row = previous then row else { row with agentGeneration := previous.agentGeneration + 1 }
        .ok ⟨row,some previous,name,release⟩

end Validate

section Summary
variable (plain : Char → Bool)

def quoted (text : String) : List Char := DebugText.quote plain text

def joined (separator : List Char) (parts : List (List Char)) : List Char := (parts.intersperse separator).flatten

def roleText (role : String) : String := if role = "workspace_head" then "workspace head" else role

def placeText (row : AgentRow) (name : Option NameEdit) : List Char :=
  match row.projectId with
  | some project => " for project ".toList ++ quoted plain project ++
    (match name with
     | some edit => " in workspace ".toList ++ quoted plain edit.key
     | none => [])
  | none => match row.workspaceId with
    | some workspace => " for workspace ".toList ++ quoted plain workspace
    | none => []

def supervisorText (state : Identities) : Option String → Except AgentMutationError (List Char)
  | none => .ok []
  | some id => match state.agents.get? id with
    | none => refuse "invalid_supervisor" "supervisor disappeared"
    | some s => .ok (" supervised by ".toList ++ quoted plain s.name ++ " (".toList ++ quoted plain id ++ ")".toList)

def createText (state : Identities) (row : AgentRow) (name : Option NameEdit) : Except AgentMutationError (List Char) := do
  let supervisor ← supervisorText plain state row.supervisorAgentId
  .ok ("create ".toList ++ (roleText row.role).toList ++ " agent ".toList ++ quoted plain row.name ++ placeText plain row name ++
    supervisor ++ " with tag ".toList ++ quoted plain row.tag)

/-- `"name" ("id")`. -/
def agentText (target : AgentRow) : List Char :=
  quoted plain target.name ++ " (".toList ++ quoted plain target.agentId ++ ")".toList

def labelsText (labels : List String) : List Char :=
  if labels = [] then "none".toList else joined ", ".toList (labels.map (quoted plain))

/-- The text of a write, built before the prompt and again inside the write. -/
def summary (state : Identities) (request : Mutation) (prepared : Prepared) :
    Except AgentMutationError (List Char) :=
  let target := prepared.previous.getD prepared.row
  match request with
  | .create _ => createText plain state prepared.row prepared.name
  | .rename .. => .ok ("rename agent ".toList ++ agentText plain target ++ " to ".toList ++ quoted plain prepared.row.name)
  | .dispose _ => .ok ("retire agent ".toList ++ agentText plain target)
  | .tag .. => .ok ("set tag of agent ".toList ++ agentText plain target ++ " to ".toList ++ quoted plain prepared.row.tag)
  | .labels .. => .ok ("set labels of agent ".toList ++ agentText plain target ++ " to ".toList ++
      labelsText plain prepared.row.labels)

end Summary

def stale {α : Type} : Except AgentMutationError α :=
  refuse "operator_approval_stale" "agent identity or placement changed after operator approval"

section Writes
variable (u : Unicode) (plain : Char → Bool)

/-- The new row, and the claim it holds. -/
def Prepared.apply (prepared : Prepared) (state : Identities) (id : String) : Identities :=
  let released := if prepared.release then state.claims.erase id else state.claims
  { state.put id prepared.row with
    claims := match prepared.name with
      | some edit => released.insert id ⟨edit.kind,edit.key,edit.name.normalizedName,String.ofList edit.name.storedName⟩
      | none => released }

/-- What an operator is asked before a write. -/
def precheck (state : Identities) (request : Mutation) (now : Int) : Except AgentMutationError (List Char) := do
  requireCutover state
  let prepared ← validate u state now request
  let text ← summary plain state request prepared
  if OPERATOR_SUMMARY_LIMIT < text.length then
    refuse "operator_summary_too_long" "shorten the tag, name or label set to fit the operator prompt"
  else .ok text

/-- A write of a direct caller with the approved text. A new agent is written under the id drawn for it. -/
def agentMutation (state : Identities) (request : Mutation) (now : Int) (drawn : String) (approval : List Char) :
    Except AgentMutationError (Identities × Prepared) := do
  requireCutover state
  let prepared ← validate u state now request
  let text ← summary plain state request prepared
  if text ≠ approval then stale
  else if prepared.previous.isNone && state.agents.has drawn then
    refuse "identity_log_invariant" "pre-drawn agent id is occupied"
  else .ok (prepared.apply state (request.target.getD drawn),prepared)

end Writes

end Entorhinal.Approvals
