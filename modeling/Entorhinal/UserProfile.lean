import Entorhinal.ConsentBroker
import Entorhinal.RegistryTables
import Entorhinal.RemoteEntry
import Entorhinal.Transition

/-! The fleet-wide profile of the user: how one change is checked and stored, what a read answers, and the
journal that a replica replays. -/
namespace Entorhinal.UserProfile

open Remote (UserScope UserEntry asI64)
open Consent (found reject refuse)

def SET_OP : String := "user.set"

def OPERATOR_SUMMARY_LIMIT : Nat := 200

section Checks
variable {F : Type}

/-- Control characters, line separators, and those that change the direction of a text. -/
def isForbidden (c : Char) : Bool :=
  let n := c.toNat
  n < 0x20 || (0x7f ≤ n && n ≤ 0x9f) || (0x202a ≤ n && n ≤ 0x202e) || (0x2066 ≤ n && n ≤ 0x2069) || n == 0x2028 || n == 0x2029

def invalidValue {α : Type} (message : String) : Except AgentMutationError α := refuse "invalid_value" message

/-- Checked before it is trimmed. -/
def text (value : String) (limit : Nat) : Except AgentMutationError String :=
  if value.toList.any isForbidden then invalidValue "text contains forbidden characters"
  else
    let trimmed := Agents.trim value.toList
    if trimmed.isEmpty || decide (limit < trimmed.length) then
      invalidValue s!"text must contain 1–{limit} characters"
    else .ok (String.ofList trimmed)

def limitOf (field : String) : Except AgentMutationError (Option Nat) :=
  if field = "name" ∨ field = "address_as" then .ok (some 64)
  else if field = "pronouns" then .ok (some 32)
  else if field = "expertise" then .ok (some 300)
  else if field = "computer_savviness" ∨ field = "verbosity" then .ok none
  else refuse "invalid_request" "unknown user field"

def verbosities : List String := ["concise","balanced","verbose"]

def normalizeVerbosity (value : Json F) : Except AgentMutationError (Json F) := do
  let raw ← found "invalid_value" "verbosity must be text" value.asStr
  let checked ← text raw 8
  if verbosities.contains checked then return .string checked
  else invalidValue "verbosity must be concise, balanced or verbose"

def normalizeText (value : Json F) (limit : Nat) : Except AgentMutationError (Json F) := do
  let raw ← found "invalid_value" "value must be text" value.asStr
  return .string (← text raw limit)

def normalize (field : String) (value : Json F) (scope : Option UserScope) : Except AgentMutationError (Json F) := do
  let limit ← limitOf field
  reject "invalid_request" "scope is required only for expertise" ((field == "expertise") != scope.isSome)
  reject "invalid_request" "scope kind must be workspace or project"
    (scope.any fun scope => scope.kind != "workspace" && scope.kind != "project")
  if value.isNull then return .null
  match limit with
  | some limit => normalizeText value limit
  | none =>
    if field = "computer_savviness" ∧ (asI64 value).any (fun n => decide (1 ≤ n ∧ n ≤ 3)) then return value
    else if field = "verbosity" then normalizeVerbosity value
    else invalidValue "computer_savviness must be 1, 2 or 3"

def scopeExists (tables : Registry.Tables) (scope : UserScope) : Except AgentMutationError Unit :=
  reject "unknown_scope" "scope must name an existing workspace or registered project"
    (!(if scope.kind = "workspace" then tables.workspaces.has scope.id
      else if scope.kind = "project" ∧ "pj-implicit".toList.isPrefixOf scope.id.toList = false then
        tables.projects.has scope.id
      else false))

variable (F) in
structure UserSetRequest where
  field : String
  value : Json F
  scope : Option UserScope
  requestKey : String
  actor : Option String
deriving DecidableEq

def checkActor : Option String → Except AgentMutationError (Option String)
  | none => .ok none
  | some actor => some <$> text actor 128

def UserSetRequest.normalized (request : UserSetRequest F) : Except AgentMutationError (UserSetRequest F) := do
  let bytes := Utf8.encode request.requestKey.toList
  reject "invalid_request" "request_key must be 1–128 printable ASCII characters"
    (bytes.isEmpty || decide (128 < bytes.length) || !bytes.all fun b => decide (0x20 ≤ b) && decide (b ≤ 0x7e))
  let value ← normalize request.field request.value request.scope
  let actor ← checkActor request.actor
  return { request with value, actor }

def UserSetRequest.entry (request : UserSetRequest F) (principal : String) : UserEntry F :=
  ⟨SET_OP,request.field,request.value,request.scope,principal,request.actor⟩

/-- What the operator is asked to approve. -/
def UserSetRequest.summary [Json.Doubles F] (request : UserSetRequest F) : Except AgentMutationError String := do
  let scope := (request.scope.map fun s => s!" of {s.kind} {String.ofList (Json.quote s.id)}").getD ""
  let value := if request.value.isNull then "clear" else String.ofList request.value.emit
  let summary := s!"set user {request.field}{scope} to {value}"
  reject "operator_summary_too_long" "exact user change exceeds the operator summary limit"
    (decide (OPERATOR_SUMMARY_LIMIT < summary.toList.length))
  return summary

variable [DecidableEq F]

def validate (tables : Registry.Tables) (entry : UserEntry F) : Except AgentMutationError Unit := do
  reject "invalid_request" "unknown user entry op" (entry.op != SET_OP)
  let value ← normalize entry.field entry.value entry.scope
  reject "invalid_value" "user entry text must be trimmed" (value != entry.value)
  let actor ← checkActor entry.actor
  reject "invalid_value" "user entry text must be trimmed" (actor != entry.actor)
  match entry.scope with
  | some scope => scopeExists tables scope
  | none => return ()

end Checks

section Store
variable {F : Type}

structure Profile where
  name : Option String
  addressAs : Option String
  pronouns : Option String
  computerSavviness : Option Int
  verbosity : Option String
deriving DecidableEq, Repr

def Profile.empty : Profile := ⟨none,none,none,none,none⟩

/-- What the registry holds of projects and workspaces, and the rows of the profile. -/
structure Projection where
  tables : Registry.Tables
  profile : Option Profile
  expertise : Table (String ×ₗ String) String
deriving DecidableEq

def UserScope.key (scope : UserScope) : String ×ₗ String := toLex (scope.kind,scope.id)

/-- `UPDATE user_profile SET`, by the name of the column. -/
def Profile.set (profile : Profile) (field : String) (value : Json F) : Profile :=
  if field = "name" then { profile with name := value.asStr }
  else if field = "address_as" then { profile with addressAs := value.asStr }
  else if field = "pronouns" then { profile with pronouns := value.asStr }
  else if field = "computer_savviness" then { profile with computerSavviness := asI64 value }
  else if field = "verbosity" then { profile with verbosity := value.asStr }
  else profile

/-- A row without any field is deleted. -/
def keep (profile : Profile) : Option Profile := if profile = .empty then none else some profile

def write (p : Projection) (entry : UserEntry F) : Projection :=
  match entry.scope with
  | some scope =>
    match entry.value.asStr with
    | some text => { p with expertise := p.expertise.insert (UserScope.key scope) text }
    | none => { p with expertise := p.expertise.erase (UserScope.key scope) }
  | none => { p with profile := keep ((p.profile.getD .empty).set entry.field entry.value) }

def restore [DecidableEq F] (p : Projection) (entry : UserEntry F) : Except AgentMutationError Projection := do
  validate p.tables entry
  return write p entry

def column (field : String) (value : Option (Json F)) : List (String × Json F) := (value.map fun value => (field,value)).toList

/-- The columns that are not null. -/
def columns (profile : Profile) : List (String × Json F) :=
  column "name" (profile.name.map .string) ++ column "address_as" (profile.addressAs.map .string) ++
    column "pronouns" (profile.pronouns.map .string) ++
    column "computer_savviness" (profile.computerSavviness.map Consent.jsonInt) ++
    column "verbosity" (profile.verbosity.map .string)

def userJson (profile : Profile) : Json F := .objectOf (columns profile)

def expertiseJson (row : (String ×ₗ String) × String) : Json F :=
  .objectOf [("scope",.objectOf [("kind",.string (ofLex row.1).1),("id",.string (ofLex row.1).2)]),("text",.string row.2)]

/-- Workspaces first. -/
def ordered (expertise : Table (String ×ₗ String) String) : List ((String ×ₗ String) × String) :=
  expertise.rows.filter (fun row => (ofLex row.1).1 == "workspace") ++
    expertise.rows.filter fun row => (ofLex row.1).1 != "workspace"

def record (p : Projection) : Json F :=
  .objectOf [("user",userJson (p.profile.getD .empty)),("expertise",.array ((ordered p.expertise).map expertiseJson))]

structure UserGetRequest where
  projectId : Option String
  token : Option String

/-- A project's own text, or else that of its workspace. -/
def effective (p : Projection) (project : String) : Option (UserScope × String) :=
  match p.expertise.get? (toLex ("project",project)) with
  | some text => some (⟨"project",project⟩,text)
  | none => do
    let workspace ← p.tables.placement.get? project
    let text ← p.expertise.get? (toLex ("workspace",workspace))
    return (⟨"workspace",workspace⟩,text)

/-- The token is a hash of what is answered. -/
def reply (hash : Json F → String) (p : Projection) (request : UserGetRequest) : Except AgentMutationError (Json F) := do
  let value := record p
  let value ← match request.projectId with
    | none => .ok value
    | some project => do
      reject "unknown_project" "project must name a registered project"
        ("pj-implicit".toList.isPrefixOf project.toList || !p.tables.projects.has project)
      match effective p project with
      | some (scope,text) => .ok (value.set "effective_expertise" (.objectOf
          [("from",.objectOf [("kind",.string scope.kind),("id",.string scope.id)]),("text",.string text)]))
      | none => .ok value
  let token := s!"u1:{hash value}"
  if request.token = some token then return .objectOf [("token",.string token),("unchanged",.bool true)]
  else return (value.set "token" (.string token)).set "unchanged" (.bool false)

/-- Snapshots hold whole rows, under the rules of local changes. -/
def validateProjection [DecidableEq F] (p : Projection) : Except AgentMutationError Unit := do
  reject "invalid_value" "empty profile must omit its row" (p.profile == some .empty)
  ((userJson (F := F) (p.profile.getD .empty)).members.getD []).forM fun field => do
    let value ← normalize field.1 field.2 none
    reject "invalid_value" "untrimmed user field" (value != field.2)
  (ordered p.expertise).forM fun row => do
    let scope : UserScope := ⟨(ofLex row.1).1,(ofLex row.1).2⟩
    scopeExists p.tables scope
    let value ← normalize (F := F) "expertise" (.string row.2) (some scope)
    reject "invalid_value" "untrimmed expertise" (value != .string row.2)

end Store

section Runs
variable {F : Type} [DecidableEq F] [Json.Doubles F]

structure Store (F : Type) where
  projection : Projection
  /-- Every answered request with its body. -/
  requests : Table String (String × Json F)

/-- The projects and workspaces whose rows a write deleted. -/
structure Deleted where
  projects : List String
  workspaces : List String

/-- The triggers of deleted projects and workspaces. -/
def cascade (deleted : Deleted) (tables : Registry.Tables) (p : Projection) : Projection :=
  { p with
    tables
    expertise := p.expertise.filter fun key _ =>
      !((ofLex key).1 == "project" && deleted.projects.contains (ofLex key).2) &&
        !((ofLex key).1 == "workspace" && deleted.workspaces.contains (ofLex key).2) }

inductive Row (F : Type)
  | user (entry : UserEntry F) (actor : String) (now : Int)
  | elsewhere (deleted : Deleted) (tables : Registry.Tables)

/-- A journal row, as a replay applies it. -/
def Row.apply (p : Projection) : Row F → Except AgentMutationError Projection
  | .user entry _ _ => restore p entry
  | .elsewhere deleted tables => .ok (cascade deleted tables p)

def replayAll (p : Projection) (journal : List (Row F)) : Except AgentMutationError Projection := journal.foldlM Row.apply p

def cached (s : Store F) (request : UserSetRequest F) (body : String) : Except AgentMutationError (Option (Json F)) :=
  match s.requests.get? request.requestKey with
  | some row => do
    reject "request_key_reused" "request key has a different body" (row.1 != body)
    return some row.2
  | none => .ok none

structure Done (F : Type) where
  value : Json F
  store : Store F
  row : Option (Row F)

/-- The text of a request and the hash of an answer are those of the libraries. -/
structure Site (F : Type) where
  body : UserSetRequest F → String
  hash : Json F → String

/-- An operator's own change needs the operator's approval of its exact summary. -/
def approved (principal : String) (request : UserSetRequest F) (approval : Option String) : Bool :=
  principal != "direct" || approval.any fun summary => request.summary.toOption == some summary

def userSet (site : Site F) (principal : String) (request : UserSetRequest F) (now : Int) (approval : Option String)
    (s : Store F) : Except AgentMutationError (Done F) := do
  let body := site.body request
  let request ← request.normalized
  match ← cached s request body with
  | some value => return ⟨value,s,none⟩
  | none =>
    let entry := request.entry principal
    validate s.projection.tables entry
    reject "operator_approval_stale" "user change needs approval of the exact summary" (!approved principal request approval)
    let p ← restore s.projection entry
    let row := if record (F := F) s.projection ≠ record p then some (.user entry (request.actor.getD "user") now) else none
    let value ← reply site.hash p ⟨none,none⟩
    return ⟨value,⟨p,s.requests.insert request.requestKey (body,value)⟩,row⟩

structure World (F : Type) where
  store : Store F
  journal : List (Row F)

def Projection.start (tables : Registry.Tables) : Projection := ⟨tables,none,∅⟩

def World.start (tables : Registry.Tables) : World F := ⟨⟨.start tables,∅⟩,[]⟩

inductive Label (F : Type)
  | set (principal : String) (request : UserSetRequest F) (now : Int) (approval : Option String)
  /-- An entry of another machine, from the log. -/
  | remote (entry : UserEntry F) (now : Int)
  | elsewhere (deleted : Deleted) (tables : Registry.Tables)

/-- What is gone was deleted. -/
def deletes (deleted : Deleted) (before after : Registry.Tables) : Bool :=
  (before.projects.keys.all fun id => after.projects.has id || deleted.projects.contains id) &&
    before.workspaces.keys.all fun id => after.workspaces.has id || deleted.workspaces.contains id

def next (site : Site F) (w : World F) : Label F → Option (World F)
  | .set principal request now approval => match userSet site principal request now approval w.store with
    | .ok done => some ⟨done.store,w.journal ++ done.row.toList⟩
    | .error _ => some w
  | .remote entry now => match restore w.store.projection entry with
    | .ok p => some ⟨{ w.store with projection := p },w.journal ++ [.user entry (entry.actor.getD "user") now]⟩
    | .error _ => some w
  | .elsewhere deleted tables =>
    if deletes deleted w.store.projection.tables tables then
      some ⟨{ w.store with projection := cascade deleted tables w.store.projection },w.journal ++ [.elsewhere deleted tables]⟩
    else none

end Runs

end Entorhinal.UserProfile
