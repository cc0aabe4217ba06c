import Entorhinal.AgentReads
import Entorhinal.Approvals
import Entorhinal.JsonValue
import Entorhinal.Names
import Entorhinal.RegistryTables
import Mathlib.Data.Prod.Lex

/-! The consent tables of one machine: requests for a permission and the writes they are about,
standing grants, feed cursors and the audit, with the statements that change them. -/
namespace Entorhinal.Consent

open Agents (AgentRow)
open Approvals (validAgentId)

section Types

inductive Authorization
  | card (id answer : String)
  | grant (id : String)
  | publisherGrants (ids : List String)
  | ownHire
deriving DecidableEq, Repr

inductive GrantClass
  | registerProject
  | createHead
  | hire
deriving DecidableEq, Repr

structure StandingGrant where
  id : String
  holderAgentId : String
  grantClass : GrantClass
  scopeId : String
  grantedAtMs : Int
  cardRef : String
  revokedAtMs : Option Int
deriving DecidableEq, Repr

structure RequestIdentity where
  agentId : String
  tool : String
  requestKey : String
deriving DecidableEq, Repr

abbrev Key := String ×ₗ String ×ₗ String

def RequestIdentity.key (identity : RequestIdentity) : Key :=
  toLex (identity.agentId,toLex (identity.tool,identity.requestKey))

theorem RequestIdentity.key_injective {a b : RequestIdentity} (same : a.key = b.key) : a = b := by
  cases a
  cases b
  simp only [key,EmbeddingLike.apply_eq_iff_eq,Prod.mk.injEq] at same
  obtain ⟨rfl,rfl,rfl⟩ := same
  rfl

def refuse {α : Type} (code message : String) : Except AgentMutationError α := .error ⟨code,message,[]⟩

def reject (code message : String) (when : Bool) : Except AgentMutationError Unit :=
  if when then refuse code message else .ok ()

def found {α : Type} (code message : String) : Option α → Except AgentMutationError α
  | some value => .ok value
  | none => refuse code message

def RequestIdentity.validate (identity : RequestIdentity) : Except AgentMutationError Unit :=
  let bytes := Utf8.encode identity.requestKey.toList
  reject "invalid_request_key" "request_key must be 1..=128 printable ASCII bytes"
    (!(decide (1 ≤ bytes.length) && decide (bytes.length ≤ 128)) ||
      !bytes.all fun b => decide (0x20 ≤ b) && decide (b ≤ 0x7e))

inductive RequestState
  | awaiting
  | applied
  | refused
deriving DecidableEq, Repr

structure RecordedSettlement where
  state : String
  choice : Option String
  elicitationId : String
  settledAtMs : Int
deriving DecidableEq, Repr

variable (F : Type)

structure ConsentRequest where
  identity : RequestIdentity
  argsDigest : String
  scopeRef : String
  scopeEpoch : Int
  createdAtMs : Int
  elicitationId : Option String
  settlement : Option RecordedSettlement
  state : RequestState
  outcome : Option (Json F)
deriving DecidableEq

/-- A stored request, under the check of its table. -/
structure RequestRow where
  argsDigest : String
  scopeRef : String
  scopeEpoch : Int
  createdAtMs : Int
  elicitationId : Option String
  settlement : Option RecordedSettlement
  state : RequestState
  outcome : Option (Json F)
  ended : state = .awaiting ↔ outcome = none
deriving DecidableEq

/-- A write with the ids and names its card showed. -/
structure ConsentWrite where
  tool : String
  arguments : Json F
  target : Json F
  grantClass : Option GrantClass
  scopeId : Option String
deriving DecidableEq

structure AuditRow where
  rowId : Nat
  timeMs : Int
  agentId : String
  action : String
  target : Json F
  authorization : Authorization
  outcome : Json F
deriving DecidableEq

/-- What a write commits under. Its target is the plan, written as JSON. -/
structure ConsentCommit where
  request : ConsentRequest F
  authorization : Authorization
  action : String
  target : ConsentWrite F
  granted : Option StandingGrant
  nowMs : Int
deriving DecidableEq

end Types

/-- The uniqueness constraint of the grants. -/
structure GrantKey where
  holder : String
  grantClass : GrantClass
  scope : String
deriving DecidableEq, Repr

def StandingGrant.key (grant : StandingGrant) : GrantKey := ⟨grant.holderAgentId,grant.grantClass,grant.scopeId⟩

structure Grants where
  rows : Table String StandingGrant
  keyed : ∀ id grant, rows.get? id = some grant → grant.id = id
  unique : ∀ id id' grant grant', rows.get? id = some grant → rows.get? id' = some grant' →
    grant.key = grant'.key → id = id'
deriving DecidableEq

/-- What the registry and the agents hold, as far as a write with consent reads it. -/
structure Directory where
  cutOver : Bool
  agents : Table String AgentRow
  tables : Registry.Tables
deriving DecidableEq

structure Store (F : Type) where
  directory : Directory
  requests : Table Key (RequestRow F)
  plans : Table Key (ConsentWrite F)
  grants : Grants
  cursors : Table (String ×ₗ Int) Int
  audit : List (AuditRow F)
  caps : Table String Int

def Grants.empty : Grants where
  rows := ∅
  keyed := by intro id grant here; cases here
  unique := by intro id id' grant grant' here; cases here

section Reads
variable {F : Type}

def RequestRow.request (row : RequestRow F) (identity : RequestIdentity) : ConsentRequest F :=
  ⟨identity,row.argsDigest,row.scopeRef,row.scopeEpoch,row.createdAtMs,row.elicitationId,row.settlement,row.state,
    row.outcome⟩

def loadRequest (s : Store F) (identity : RequestIdentity) : Option (ConsentRequest F) :=
  (s.requests.get? identity.key).map (·.request identity)

def loadRow (d : Directory) (id : String) : Option AgentRow := if validAgentId id then d.agents.get? id else none

def consentFeedCursor (s : Store F) (scopeRef : String) (epoch : Int) : Int :=
  (s.cursors.get? (toLex (scopeRef,epoch))).getD 0

def grantLive (s : Store F) (id holder : String) : Bool :=
  (s.grants.rows.get? id).any fun grant => grant.holderAgentId == holder && grant.revokedAtMs.isNone &&
    (s.directory.agents.get? holder).any (fun agent => agent.status == "live") &&
    match grant.grantClass with
    | .hire => s.directory.tables.projects.has grant.scopeId
    | _ => s.directory.tables.workspaces.has grant.scopeId

def coveringConsentGrant (s : Store F) (holder : String) (grantClass : GrantClass) (scope : String) :
    Option StandingGrant :=
  (s.grants.rows.find? fun id grant => grant.key == ⟨holder,grantClass,scope⟩ && grantLive s id holder).map Prod.snd

structure HireCap where
  cap : Int
  liveHires : Nat
deriving DecidableEq, Repr

def hireCap (d : Directory) (caps : Table String Int) (project : String) : HireCap where
  cap := (caps.get? project).getD 10
  liveHires := d.agents.rows.countP fun row => row.2.projectId == some project && row.2.role == "hiree" &&
    row.2.status == "live"

def checkHireCap (d : Directory) (caps : Table String Int) (project : String) : Except AgentMutationError Unit :=
  let status := hireCap d caps project
  if status.cap ≤ status.liveHires then
    .error ⟨"hire_cap_reached","project live hires have reached the hire cap",
      [("cap",.number status.cap),("current_count",.number status.liveHires)]⟩
  else .ok ()

end Reads

section Prepare
variable {F : Type}

/-- What a prepared write reads outside the store. -/
structure Site where
  blake3 : Registry.Digest
  canonical : String → Except AgentMutationError String

def requireCutover (d : Directory) : Except AgentMutationError Unit :=
  reject "authority_not_cut_over" "agent identity authority is not cut over" (!d.cutOver)

def liveCaller (d : Directory) (id : String) : Except AgentMutationError AgentRow := do
  let caller ← found "unknown_agent" "unknown requesting agent" (loadRow d id)
  reject "gone" "requesting agent is gone" (caller.status != "live")
  return caller

/-- The role that may perform a write. -/
def writer (tool : String) : Except AgentMutationError String :=
  if tool = "projects_create_workspace" ∨ tool = "projects_register" ∨ tool = "agents_create_head" then .ok "assistant"
  else if tool = "agents_hire" ∨ tool = "agents_retire_hire" then .ok "head"
  else refuse "unknown_tool" tool

def text (arguments : Json F) (field : String) : Except AgentMutationError String :=
  found "invalid_request" s!"missing string {field}" (arguments.field field).asStr

def toolFieldBytes (value : String) (maximum : Nat) (field : String) : Except AgentMutationError Unit :=
  reject "invalid_request" s!"{field} exceeds {maximum} UTF-8 bytes for a tool write"
    (decide (maximum < (Utf8.encode value.toList).length))

def optional : Option String → Json F
  | some value => .string value
  | none => .null

def workspaceLabel (d : Directory) (id : String) : Except AgentMutationError String :=
  found "unknown_workspace" "workspace must already exist" (d.tables.workspaces.get? id)

/-- A project with the workspace it is placed in. -/
def placement (d : Directory) (id : String) : Except AgentMutationError (Json F) := do
  let project ← found "unknown_project" "project must already exist" (d.tables.projects.get? id)
  return .objectOf [("project_id",.string id),("name",.string project.name),
    ("workspace_id",optional (d.tables.placement.get? id))]

def workspaceId (raw : String) : Except AgentMutationError String :=
  found "invalid_workspace_id" "invalid workspace_id" (Agents.validateWorkspaceId raw)

def projectId (raw : String) : Except AgentMutationError String :=
  found "invalid_project_id" "invalid project_id" (Agents.validateProjectId raw)

def trimmed (value : String) : String := String.ofList (Agents.trim value.toList)

abbrev Target (F : Type) := Json F × Option GrantClass × Option String

def createWorkspaceTarget (d : Directory) (arguments : Json F) : Except AgentMutationError (Target F) := do
  let name ← text arguments "name"
  toolFieldBytes (trimmed name) 1024 "workspace name"
  let id ← workspaceId (← text arguments "workspace_id")
  reject "workspace_exists" "workspace already exists" (d.tables.workspaces.has id)
  return (.objectOf [("kind",.string "workspace"),("label",.string (trimmed name)),("workspace_id",.string id)],none,none)

def domainField (arguments : Json F) : Except AgentMutationError (Option String) :=
  match arguments.get? "domain" with
  | none => .ok none
  | some value => some <$> found "invalid_domain" "domain must be a string" value.asStr

def validateDomain : Option String → Except AgentMutationError Unit
  | none => .ok ()
  | some value => reject "invalid_domain" "domain must be a canonical catalog package name (@scope/name)"
      (!Package.canonicalName value)

def registerTarget (site : Site) (d : Directory) (arguments : Json F) : Except AgentMutationError (Target F) := do
  let name ← text arguments "name"
  toolFieldBytes name 1024 "project name"
  let raw ← text arguments "dir"
  toolFieldBytes raw 4096 "project root"
  let id ← workspaceId (← text arguments "workspace_id")
  let label ← workspaceLabel d id
  let domain ← domainField arguments
  validateDomain domain
  let dir ← site.canonical raw
  match d.tables.aliases.get? (Registry.implicitProjectId site.blake3 dir) with
  | some owner => toolFieldBytes owner 512 "implicit alias owner project id"
  | none => pure ()
  reject "project_exists" "project name or directory already registered"
    (d.tables.projects.any (fun _ project => project.name == name) || d.tables.roots.has dir ||
      d.tables.derived.has dir)
  return (.objectOf [("kind",.string "project"),("label",.string name),("dir",.string dir),
    ("workspace_id",.string id),("workspace_label",.string label),("domain",optional domain)],
    some .registerProject,some id)

def createHeadTarget (d : Directory) (arguments : Json F) : Except AgentMutationError (Target F) := do
  let id ← projectId (← text arguments "project_id")
  let placed ← placement d id
  let workspace ← found "invalid_role_shape" "head requires a placed project" (placed.field "workspace_id").asStr
  let label ← workspaceLabel d workspace
  let name ← text arguments "name"
  return (.objectOf [("kind",.string "agent"),("label",.string name),("placement",placed),
    ("workspace_label",.string label)],some .createHead,some workspace)

def hireTarget (d : Directory) (caps : Table String Int) (caller : AgentRow) (arguments : Json F) :
    Except AgentMutationError (Target F) := do
  let id ← found "invalid_role_shape" "head requires a project" caller.projectId
  let normalized ← projectId id
  reject "invalid_project_id" "head project id must already be normalized" (normalized != id)
  checkHireCap d caps id
  let name ← text arguments "name"
  let placed ← placement d id
  return (.objectOf [("kind",.string "agent"),("label",.string name),("placement",placed)],some .hire,some id)

def retireHireTarget (d : Directory) (callerId : String) (arguments : Json F) :
    Except AgentMutationError (Target F) := do
  let id ← text arguments "agent_id"
  let hire ← found "not_your_hire" "target must be the caller's live hire" <| (loadRow d id).filter fun hire =>
    hire.status == "live" && hire.role == "hiree" && hire.supervisorAgentId == some callerId
  return (.objectOf [("kind",.string "agent"),("label",.string hire.name),("agent_id",.string hire.agentId),
    ("project_id",optional hire.projectId),("supervisor_agent_id",optional hire.supervisorAgentId)],none,none)

def prepareTarget (site : Site) (d : Directory) (caps : Table String Int) (caller : AgentRow) (callerId tool : String)
    (arguments : Json F) : Except AgentMutationError (Target F) :=
  if tool = "projects_create_workspace" then createWorkspaceTarget d arguments
  else if tool = "projects_register" then registerTarget site d arguments
  else if tool = "agents_create_head" then createHeadTarget d arguments
  else if tool = "agents_hire" then hireTarget d caps caller arguments
  else retireHireTarget d callerId arguments

def prepareWrite (site : Site) (d : Directory) (caps : Table String Int) (callerId tool : String)
    (arguments : Json F) : Except AgentMutationError (ConsentWrite F) := do
  requireCutover d
  let caller ← liveCaller d callerId
  let role ← writer tool
  reject "role_forbidden" "stored role cannot perform this write" (caller.role != role)
  let target ← prepareTarget site d caps caller callerId tool arguments
  return ⟨tool,arguments,target.1,target.2.1,target.2.2⟩

end Prepare

section Statements
variable {F : Type} [DecidableEq F]

/-- A new row, as its columns are bound. -/
def ConsentRequest.row (request : ConsentRequest F) : RequestRow F where
  argsDigest := request.argsDigest
  scopeRef := request.scopeRef
  scopeEpoch := request.scopeEpoch
  createdAtMs := request.createdAtMs
  elicitationId := request.elicitationId
  settlement := request.settlement
  state := .awaiting
  outcome := none
  ended := iff_of_true rfl rfl

def Store.setRequest (s : Store F) (key : Key) (row : RequestRow F) : Store F :=
  { s with requests := s.requests.insert key row }

/-- Inserts once, or answers with the row that is there. -/
def beginRequest (s : Store F) (request : ConsentRequest F) :
    Except AgentMutationError (ConsentRequest F × Store F) := do
  request.identity.validate
  match loadRequest s request.identity with
  | some existing =>
    reject "request_key_conflict" "request key has different arguments" (existing.argsDigest != request.argsDigest)
    return (existing,s)
  | none =>
    reject "invalid_request" "new requests must be awaiting" (request.state != .awaiting || request.outcome.isSome)
    return (request,s.setRequest request.identity.key request.row)

/-- `INSERT OR IGNORE`; the request a plan belongs to must be there. -/
def saveWritePlan (s : Store F) (identity : RequestIdentity) (plan : ConsentWrite F) :
    Except AgentMutationError (Store F) := do
  reject "storage_error" "FOREIGN KEY constraint failed"
    (!s.plans.has identity.key && !s.requests.has identity.key)
  return { s with plans := s.plans.insertOrIgnore identity.key plan }

def setElicitation (s : Store F) (identity : RequestIdentity) (id : String) : Store F :=
  match s.requests.get? identity.key with
  | some row =>
    if row.state = .awaiting ∧ row.elicitationId = none then
      s.setRequest identity.key { row with elicitationId := some id }
    else s
  | none => s

/-- Whether an answer is for a stored request that still waits for one. -/
def RequestRow.awaits (row : RequestRow F) (digest scopeRef : String) (epoch : Int) (elicitation : String) : Bool :=
  row.argsDigest == digest && row.scopeRef == scopeRef && row.scopeEpoch == epoch && row.state == .awaiting &&
    row.settlement.isNone && row.elicitationId.all (· == elicitation)

def recordSettlement (s : Store F) (identity : RequestIdentity) (digest scopeRef : String) (epoch : Int)
    (answer : RecordedSettlement) : Store F :=
  match s.requests.get? identity.key with
  | some row =>
    if row.awaits digest scopeRef epoch answer.elicitationId then
      s.setRequest identity.key
        { row with elicitationId := some answer.elicitationId, settlement := some answer }
    else s
  | none => s

/-- The plan of a deleted request goes with it. -/
def deleteAwaiting (s : Store F) (identity : RequestIdentity) : Store F :=
  match s.requests.get? identity.key with
  | some row =>
    if row.state = .awaiting then
      { s with requests := s.requests.erase identity.key, plans := s.plans.erase identity.key }
    else s
  | none => s

/-- The two ways a request ends. -/
inductive Ending
  | applied
  | refused
deriving DecidableEq, Repr

def Ending.state : Ending → RequestState
  | .applied => .applied
  | .refused => .refused

def RequestRow.finish (row : RequestRow F) (ending : Ending) (outcome : Json F) : RequestRow F :=
  { row with
    state := ending.state
    outcome := some outcome
    ended := iff_of_false (by cases ending <;> intro same <;> cases same) (by intro same; cases same) }

def finishRequest (s : Store F) (identity : RequestIdentity) (digest : String) (ending : Ending) (outcome : Json F) :
    Except AgentMutationError (Store F) :=
  match (s.requests.get? identity.key).filter fun row => row.argsDigest == digest && row.state == .awaiting with
  | some row => .ok (s.setRequest identity.key (row.finish ending outcome))
  | none => refuse "request_key_conflict" "request is missing, terminal, or has different arguments"

def appendAudit (s : Store F) (timeMs : Int) (agentId action : String) (target : Json F)
    (authorization : Authorization) (outcome : Json F) : Store F :=
  { s with audit := s.audit ++ [⟨s.audit.length + 1,timeMs,agentId,action,target,authorization,outcome⟩] }

def Grants.row (g : Grants) (key : GrantKey) : Option (String × StandingGrant) :=
  g.rows.find? fun _ grant => grant.key == key

theorem Grants.row_some {g : Grants} {key : GrantKey} {id : String} {grant : StandingGrant}
    (here : g.row key = some (id,grant)) : g.rows.get? id = some grant ∧ grant.key = key := by
  have ⟨stored,holds⟩ := Table.find?_some here
  exact ⟨stored,of_decide_eq_true holds⟩

/-- Refreshed by a repeated approval, under its first id. -/
def StandingGrant.refresh (old grant : StandingGrant) : StandingGrant :=
  { old with grantedAtMs := grant.grantedAtMs, cardRef := grant.cardRef, revokedAtMs := none }

theorem Grants.unique_set {g : Grants} {id : String} {grant : StandingGrant}
    (others : ∀ other old, other ≠ id → g.rows.get? other = some old → old.key ≠ grant.key) :
    ∀ a b x y, (g.rows.insert id grant).get? a = some x → (g.rows.insert id grant).get? b = some y →
      x.key = y.key → a = b := by
  intro a b x y first second same
  rw [Table.get?_insert] at first second
  split at first <;> split at second
  next here there => rw [here,there]
  next here there =>
    cases first
    exact absurd same.symm (others b y there second)
  next here there =>
    cases second
    exact absurd same (others a x here first)
  next => exact g.unique a b x y first second same

/-- Writes a row under its id, when no other row has its key. -/
def Grants.set (g : Grants) (grant : StandingGrant)
    (others : ∀ other old, other ≠ grant.id → g.rows.get? other = some old → old.key ≠ grant.key) : Grants where
  rows := g.rows.insert grant.id grant
  keyed := by
    intro id row here
    rw [Table.get?_insert] at here
    split at here
    next same => cases here; exact same.symm
    next => exact g.keyed id row here
  unique := Grants.unique_set others

theorem Grants.others_same {g : Grants} {old grant : StandingGrant} {id : String}
    (here : g.rows.get? id = some old) (key : grant.key = old.key) (named : grant.id = id) :
    ∀ other row, other ≠ grant.id → g.rows.get? other = some row → row.key ≠ grant.key := by
  intro other row apart stored same
  exact apart ((g.unique other id row old stored here (same.trans key)).trans named.symm)

theorem Grants.others_fresh {g : Grants} {grant : StandingGrant} (absent : g.row grant.key = none) :
    ∀ other row, other ≠ grant.id → g.rows.get? other = some row → row.key ≠ grant.key := by
  intro other row _ stored same
  exact absurd same (by simpa using Table.find?_none.mp absent other row stored)

/-- A repeated approval refreshes the row of its holder, class and scope. -/
def Grants.put (g : Grants) (grant : StandingGrant) : Except AgentMutationError (String × Grants) :=
  match here : g.row grant.key with
  | some (id,old) =>
    have stored := (Grants.row_some here).1
    .ok (id,g.set (old.refresh grant) (Grants.others_same stored rfl (g.keyed id old stored)))
  | none =>
    if g.rows.has grant.id then refuse "storage_error" "UNIQUE constraint failed: consent_grant.id"
    else .ok (grant.id,g.set { grant with revokedAtMs := none } (Grants.others_fresh here))

def putGrant (s : Store F) (grant : StandingGrant) : Except AgentMutationError (String × Store F) := do
  let put ← s.grants.put grant
  return (put.1,{ s with grants := put.2 })

def StandingGrant.revoke (grant : StandingGrant) (now : Int) : StandingGrant := { grant with revokedAtMs := some now }

def Grants.revoke (g : Grants) (id : String) (now : Int) : Bool × Grants :=
  match here : g.rows.get? id with
  | some grant =>
    if grant.revokedAtMs.isNone then
      (true,g.set (grant.revoke now) (Grants.others_same here rfl (g.keyed id grant here)))
    else (false,g)
  | none => (false,g)

def revokeGrant (s : Store F) (id : String) (now : Int) : Bool × Store F :=
  ((s.grants.revoke id now).1,{ s with grants := (s.grants.revoke id now).2 })

def saveFeedCursor (s : Store F) (scopeRef : String) (epoch cursor : Int) : Store F :=
  let key := toLex (scopeRef,epoch)
  { s with cursors := s.cursors.insert key (((s.cursors.get? key).map (max · cursor)).getD cursor) }

def setProjectHireCap (s : Store F) (project : String) (cap : Int) : Except AgentMutationError (Store F) := do
  reject "invalid_request" "hire cap must be non-negative" (decide (cap < 0))
  reject "not_found" "unknown project" (!s.directory.tables.projects.has project)
  return { s with caps := s.caps.insert project cap }

end Statements

section Commit
variable {F : Type} [DecidableEq F]

def putGranted (s : Store F) : Option StandingGrant → Except AgentMutationError (Store F)
  | some grant => (putGrant s grant).map Prod.snd
  | none => .ok s

/-- Records the outcome of a write with its audit row and any new standing grant. -/
def complete (s : Store F) (commit : ConsentCommit F) (outcome : Json F) : Except AgentMutationError (Store F) := do
  let (_,s) ← beginRequest s commit.request
  let s ← putGranted s commit.granted
  let s ← finishRequest s commit.request.identity commit.request.argsDigest .applied outcome
  return appendAudit s commit.nowMs commit.request.identity.agentId commit.action commit.target.target
    commit.authorization outcome

def staleUnless (codes : List String) (e : AgentMutationError) : AgentMutationError :=
  if e.code ∈ codes then e else ⟨"consent_stale",e.message,[]⟩

/-- The write as it would be prepared now. A catalog install checks its own target. -/
def freshPlan (site : Site) (s : Store F) (caller : String) (plan : ConsentWrite F) :
    Except AgentMutationError (ConsentWrite F) :=
  if plan.tool = "catalog_install" then .ok plan
  else
    let prepared := prepareWrite site s.directory s.caps caller plan.tool plan.arguments
    prepared.mapError (staleUnless ["gone","hire_cap_reached","not_your_hire"])

/-- The target as it is now must be the one that was approved. -/
def checkPlan (site : Site) (s : Store F) (caller : String) (plan : ConsentWrite F) :
    Except AgentMutationError Unit := do
  let fresh ← freshPlan site s caller plan
  reject "consent_stale" "approved target or placement changed" (fresh != plan)

/-- A standing grant covers the class and the scope of the plan. -/
def checkCovers (s : Store F) (authorization : Authorization) (plan : ConsentWrite F) :
    Except AgentMutationError Unit :=
  match authorization with
  | .grant id => reject "consent_stale" "grant no longer covers the target"
      ((s.grants.rows.get? id).map (fun grant => (grant.grantClass,grant.scopeId)) !=
        plan.grantClass.bind fun grantClass => plan.scopeId.map (grantClass,·))
  | _ => .ok ()

def checkLive (s : Store F) (authorization : Authorization) (holder : String) : Except AgentMutationError Unit :=
  match authorization with
  | .grant id => reject "consent_stale" "standing grant is no longer live" (!grantLive s id holder)
  | _ => .ok ()

/-- What was decided before the write, if it was; otherwise the write may go on. -/
def admitCommit (site : Site) (s : Store F) (commit : ConsentCommit F) :
    Except AgentMutationError (Option (Json F)) := do
  let identity := commit.request.identity
  identity.validate
  let _ ← liveCaller s.directory identity.agentId
  match loadRequest s identity with
  | some request =>
    reject "request_key_conflict" "request key has different arguments" (request.argsDigest != commit.request.argsDigest)
    if request.state ≠ .awaiting then return request.outcome
  | none => pure ()
  checkPlan site s identity.agentId commit.target
  checkCovers s commit.authorization commit.target
  checkLive s commit.authorization identity.agentId
  return none

end Commit

end Entorhinal.Consent
