import Entorhinal.Paging
import Entorhinal.Refusal
import Entorhinal.Table
import Entorhinal.Utf8
import Mathlib.Data.List.DropRight
import Mathlib.Data.String.Basic

/-! The reads of the agent registry: names and scope ids, the list of agents page by page, and
the lookup of a name. -/
namespace Entorhinal.Agents

section Names

def isUnicodeWhitespace (c : Char) : Bool :=
  let n := c.toNat
  (0x9 ≤ n && n ≤ 0xd) || n == 0x20 || n == 0x85 || n == 0xa0 || n == 0x1680 || (0x2000 ≤ n && n ≤ 0x200a) ||
    n == 0x2028 || n == 0x2029 || n == 0x202f || n == 0x205f || n == 0x3000

def trim (text : List Char) : List Char := (text.dropWhile isUnicodeWhitespace).rdropWhile isUnicodeWhitespace

/-- Invisible formatting, bidirectional controls and the like. -/
def isDisallowedNameCharacter (c : Char) : Bool :=
  let n := c.toNat
  n == 0xad || (0x600 ≤ n && n ≤ 0x605) || n == 0x61c || n == 0x6dd || n == 0x70f || (0x890 ≤ n && n ≤ 0x891) ||
    n == 0x8e2 || n == 0x180e || (0x200b ≤ n && n ≤ 0x200f) || (0x202a ≤ n && n ≤ 0x202e) ||
    (0x2060 ≤ n && n ≤ 0x2064) || (0x2066 ≤ n && n ≤ 0x206f) || n == 0xfeff || (0xfff9 ≤ n && n ≤ 0xfffb) ||
    n == 0x110bd || n == 0x110cd || (0x13430 ≤ n && n ≤ 0x1343f) || (0x1bca0 ≤ n && n ≤ 0x1bca3) ||
    (0x1d173 ≤ n && n ≤ 0x1d17a) || n == 0xe0001 || (0xe0020 ≤ n && n ≤ 0xe007f)

/-- The Unicode data of the third-party libraries: composition, and folding of a character. -/
structure Unicode where
  nfc : List Char → List Char
  foldChar : Char → List Char

def MAX_NAME_SCALARS : Nat := 24

def MAX_SCOPE_BYTES : Nat := 512

structure NormalizedAgentName where
  storedName : List Char
  normalizedName : List Char
deriving DecidableEq

def invalidName {α : Type} (message : String) : Except AgentMutationError α := .error ⟨"invalid_name",message,[]⟩

/-- `{:04X}`. -/
def upperHex4 (n : Nat) : String :=
  let digits := (Nat.toDigits 16 n).map Char.toUpper
  String.ofList (List.replicate (4 - digits.length) '0' ++ digits)

/-- The first refused character, by its number. -/
def disallowedText (raw : List Char) : String :=
  "invalid_name: disallowed character U+" ++ ((raw.find? isDisallowedNameCharacter).map fun c => upperHex4 c.toNat).getD ""

def normalizeAgentName (u : Unicode) (raw : List Char) : Except AgentMutationError NormalizedAgentName :=
  if raw.any isDisallowedNameCharacter then invalidName (disallowedText raw)
  else
    let displayNfc := u.nfc raw
    let storedName := trim displayNfc
    let normalizedName := trim (displayNfc.flatMap u.foldChar)
    if storedName.length = 0 ∨ normalizedName.length = 0 then invalidName "invalid_name: Empty"
    else if MAX_NAME_SCALARS < storedName.length ∨ MAX_NAME_SCALARS < normalizedName.length then
      invalidName "invalid_name: TooLong"
    else .ok ⟨storedName,normalizedName⟩

/-- `validate_project_id` and `validate_workspace_id` differ in the refusal only. -/
def validateScalar (maximum : Nat) (raw : String) : Option String :=
  let value := trim raw.toList
  if value.isEmpty || decide (maximum < (Utf8.encode value).length) then none else some (String.ofList value)

def validateProjectId (raw : String) : Option String := validateScalar MAX_SCOPE_BYTES raw

def validateWorkspaceId (raw : String) : Option String := validateScalar MAX_SCOPE_BYTES raw

end Names

structure NameClaim where
  namespaceKind : String
  namespaceKey : String
  releasedAtMs : Option Int
deriving DecidableEq, Repr

/-- What the reads answer of an agent's row; `status` is `live`, `retired` or `merged`. -/
structure AgentRow where
  agentId : String
  name : String
  nameVersion : Int
  tag : String
  labels : List String
  role : String
  projectId : Option String
  workspaceId : Option String
  status : String
  mergedInto : Option String
  supervisorAgentId : Option String
  createdAtMs : Int
  terminalAtMs : Option Int
  agentGeneration : Int
deriving DecidableEq, Repr

/-- The agents by id, the claims of each in the order of their ids, and what else a read answers
from. Every stored id is one the registry gives out. -/
structure AgentStore where
  agents : Table String AgentRow
  claims : Table String (List NameClaim)
  activated : Bool
  generation : Int
  named : ∀ id row, agents.get? id = some row → row.agentId = id ∧ id ≠ ""

structure Gone where
  reason : String
  atMs : Option Int
  intoAgentId : Option String
deriving DecidableEq, Repr

def AgentRow.gone (row : AgentRow) : Option Gone :=
  if row.status = "retired" then some ⟨"deleted",row.terminalAtMs,none⟩
  else if row.status = "merged" then some ⟨"merged",row.terminalAtMs,row.mergedInto⟩
  else none

/-- `workspaceId` is left out, or there as what it holds. -/
structure Digest where
  agentId : String
  name : String
  nameVersion : Int
  tag : String
  labels : List String
  role : String
  createdAt : Int
  agentGeneration : Int
  projectId : Option String
  workspaceId : Option (Option String)
deriving DecidableEq, Repr

def AgentRow.digest (row : AgentRow) : Digest where
  agentId := row.agentId
  name := row.name
  nameVersion := row.nameVersion
  tag := row.tag
  labels := row.labels
  role := row.role
  createdAt := row.createdAtMs
  agentGeneration := row.agentGeneration
  projectId := row.projectId
  workspaceId := if row.workspaceId.isSome || row.role == "head" || row.role == "hiree" then some row.workspaceId else none

/-- The workspace a read scopes an agent under. -/
def scopeWorkspace (store : AgentStore) (row : AgentRow) : Option String :=
  if row.role = "head" ∨ row.role = "hiree" then
    let claims := (store.claims.get? row.agentId).getD []
    let claim := (claims.find? fun claim => claim.releasedAtMs.isNone).or claims.getLast?
    match claim.filter fun claim => claim.namespaceKind == "workspace" with
    | some claim => some claim.namespaceKey
    | none => row.workspaceId
  else row.workspaceId

/-- The rows in the order of their ids. -/
def AgentStore.rows (store : AgentStore) : List AgentRow := store.agents.rows.map Prod.snd

section List

inductive Role
  | assistant
  | workspaceHead
  | head
  | hiree
deriving DecidableEq, Repr

def Role.asStr : Role → String
  | assistant => "assistant"
  | workspaceHead => "workspace_head"
  | head => "head"
  | hiree => "hiree"

structure ListRequest where
  role : Option Role := none
  projectId : Option String := none
  workspaceId : Option String := none
  includeGone : Option Bool := none
  activatedOnly : Option Bool := none
  cursor : Option String := none
  limit : Option Int := none
deriving DecidableEq, Repr

structure ListReply where
  agents : List Digest
  gone : List (String × Gone)
  nextCursor : Option String
  generation : Int
deriving DecidableEq, Repr

/-- The rows a list is about, whatever its cursor. -/
def selects (store : AgentStore) (request : ListRequest) (project workspace : Option String) (row : AgentRow) : Bool :=
  (request.includeGone.getD false || row.status == "live") && request.role.all (fun role => row.role == role.asStr) &&
    project.all (fun id => row.projectId == some id) && workspace.all fun id => scopeWorkspace store row == some id

def afterCursor (cursor : Option String) (row : AgentRow) : Bool := cursor.all fun id => decide (id < row.agentId)

/-- A scope filter, checked where it is given. -/
def scopeFilter (validate : String → Option String) : Option String → Option (Option String)
  | none => some none
  | some raw => (validate raw).map some

def listRefusal {α : Type} (code message : String) : Except AgentMutationError α := .error ⟨code,message,[]⟩

/-- The scan stops one row after the page. -/
def agentList (store : AgentStore) (request : ListRequest) : Except AgentMutationError ListReply :=
  let limit := request.limit.getD 50
  if ¬(1 ≤ limit ∧ limit ≤ 200) ∨ request.cursor = some "" then
    listRefusal "invalid_cursor" "limit must be 1..=200 and cursor must not be empty"
  else match scopeFilter validateProjectId request.projectId with
    | none => listRefusal "invalid_request" "invalid project_id filter"
    | some project => match scopeFilter validateWorkspaceId request.workspaceId with
      | none => listRefusal "invalid_request" "invalid workspace_id filter"
      | some workspace =>
        if request.activatedOnly.getD false && !store.activated then .ok ⟨[],[],none,store.generation⟩
        else
          let found := (store.rows.filter fun row => selects store request project workspace row &&
            afterCursor request.cursor row).take (limit.toNat + 1)
          let page := Paging.lookAhead AgentRow.agentId limit.toNat found
          .ok ⟨(page.1.filter fun row => row.status == "live").map AgentRow.digest,
            page.1.filterMap (fun row => row.gone.map fun gone => (row.agentId,gone)),page.2,store.generation⟩

end List

end Entorhinal.Agents
