import Entorhinal.AgentReads
import Entorhinal.Json
import Entorhinal.JsonValue
import Entorhinal.Traverse

/-! The entries of the identity log as a machine receives them, and the transaction that applies one. The text
rules of rows, the reading of bytes and the database's constraints are the fields of `Outside`. -/
namespace Entorhinal.Remote

section Rows

inductive Cell
  | null
  | text (value : String)
  | integer (value : Int)
deriving DecidableEq, Repr

/-- A row by its columns; what is not there is null. -/
abbrev Row := List (String × Cell)

def Row.get (row : Row) (column : String) : Cell := (row.lookup column).getD .null

def Row.set (row : Row) (column : String) (cell : Cell) : Row :=
  row.map fun c => if c.1 = column then (column,cell) else c

/-- The machine-neutral tables, parents before their dependents. -/
inductive SharedTable
  | workspace
  | project
  | workspaceDocument
  | projectWorkspace
  | projectAlias
  | projectRootKey
  | catalogPinSet
  | catalogPin
  | userProfile
  | userExpertise
deriving DecidableEq, Repr

def projectSharedTables : List SharedTable :=
  [.workspace,.project,.workspaceDocument,.projectWorkspace,.projectAlias,.projectRootKey,.catalogPinSet,.catalogPin,
    .userProfile,.userExpertise]

def SharedTable.name : SharedTable → String
  | .workspace => "workspace"
  | .project => "project"
  | .workspaceDocument => "workspace_document"
  | .projectWorkspace => "project_workspace"
  | .projectAlias => "project_alias"
  | .projectRootKey => "project_root_key"
  | .catalogPinSet => "catalog_pin_set"
  | .catalogPin => "catalog_pin"
  | .userProfile => "user_profile"
  | .userExpertise => "user_expertise"

def SharedTable.columns : SharedTable → List String
  | .workspace => ["workspace_id","name","created_at","updated_at"]
  | .project => ["project_id","name","implicit","seed_identity","created_at","updated_at","domain"]
  | .workspaceDocument => ["workspace_id","revision","charter","document","sha256","accepted_at_ms","accepted_via"]
  | .projectWorkspace => ["project_id","workspace_id"]
  | .projectAlias => ["old_id","project_id","created_at"]
  | .projectRootKey => ["project_id","kind","root_key","created_at"]
  | .catalogPinSet => ["agent_id","pin_digest"]
  | .catalogPin => ["agent_id","name","version","kind","manifest_sha256","archive_sha256","publisher_fingerprint","root","range"]
  | .userProfile => ["id","name","address_as","pronouns","computer_savviness","verbosity"]
  | .userExpertise => ["scope_kind","scope_id","text"]

def SharedTable.keys : SharedTable → List String
  | .workspace => ["workspace_id"]
  | .project => ["project_id"]
  | .workspaceDocument => ["workspace_id","revision"]
  | .projectWorkspace => ["project_id"]
  | .projectAlias => ["old_id"]
  | .projectRootKey => ["project_id","kind","root_key"]
  | .catalogPinSet => ["agent_id"]
  | .catalogPin => ["agent_id","name"]
  | .userProfile => ["id"]
  | .userExpertise => ["scope_kind","scope_id"]

/-- The tables of this machine alone that follow a project or a workspace. -/
inductive MachineTable
  | workspaceRoot
  | workspaceMember
  | projectRoot
  | derivedRootParent
  | rootBinding
  | retiredBinding
  | rootApproval
deriving DecidableEq, Repr

end Rows

section Entries

structure AgentAvatar where
  genome : String
  avatarType : String
  version : Option Int
deriving DecidableEq, Repr

/-- An agent's row; the identity of its repository account is kept as its text. -/
structure AgentRow where
  agentId : String
  name : String
  nameVersion : Int
  nameNormalizationVersion : Int
  tag : String
  labels : List String
  role : String
  projectId : Option String
  workspaceId : Option String
  avatar : Option AgentAvatar
  githubIdentity : Option String
  status : String
  mergedInto : Option String
  supervisorAgentId : Option String
  requestKey : Option String
  createdAtMs : Int
  updatedAtMs : Int
  terminalAtMs : Option Int
  agentGeneration : Int
deriving DecidableEq, Repr

structure AgentNameClaim where
  claimId : Int
  agentId : String
  namespaceKind : String
  namespaceKey : String
  normalizedName : String
  nameNormalizationVersion : Int
  displayName : String
  claimedAtMs : Int
  releasedAtMs : Option Int
deriving DecidableEq, Repr

structure AgentChangeEntry where
  seq : Int
  op : String
  agentId : String
  agentGeneration : Int
  row : AgentRow
  claims : List AgentNameClaim
  oldDisplayName : Option String
  newDisplayName : Option String
  status : Option String
  mergedInto : Option String
deriving DecidableEq, Repr

structure MemberName where
  author : String
  displayName : String
deriving DecidableEq, Repr

abbrev SharedRow (F : Type) := Table String (Json F)

structure TableChanges (F : Type) where
  upsert : List (SharedRow F)
  delete : List (SharedRow F)

structure ProjectEntry (F : Type) where
  op : String
  tables : Table String (TableChanges F)
  agents : List AgentChangeEntry
  memberName : Option MemberName

structure CatalogPinSet where
  op : String
  agentId : String
  pins : List Row
  pinDigest : String
deriving DecidableEq, Repr

structure UserScope where
  kind : String
  id : String
deriving DecidableEq, Repr

structure UserEntry (F : Type) where
  op : String
  field : String
  value : Json F
  scope : Option UserScope
  principal : String
  actor : Option String

structure RemoteEntry where
  position : Int
  entryId : String
  author : String
  signer : String
  keyId : String
  envelopeVersion : Int
  kind : String
  entry : Utf8.Bytes
deriving DecidableEq, Repr

inductive Decoded (F : Type)
  | project (entry : ProjectEntry F)
  | agent (entry : AgentChangeEntry)
  | member (name : MemberName)
  | pins (set : CatalogPinSet)
  | user (entry : UserEntry F)

end Entries

section Store

/-- The agents and the history of their name claims. -/
structure Identity where
  agents : Table String AgentRow
  claims : Table Int AgentNameClaim

inductive Payload (F : Type)
  | empty
  | user (entry : UserEntry F)
  | pins (entry : CatalogPinSet)
  | agent (entry : AgentChangeEntry) (signed : Option (String × String))
  | signed (signer keyId : String)
  | other (text : String)

structure JournalRow (F : Type) where
  seq : Int
  op : String
  payload : Payload F
  actor : String
  createdAt : Int
  principal : String
  stream : String
  origin : String
  entryId : Option String
  logPosition : Option Int
  entry : Option Utf8.Bytes

inductive LogState
  | disabled
  | enabling
  | joining
  | enabled
deriving DecidableEq, Repr

/-- A machine's store; `rest` are the tables that no statement here names. -/
structure Store (F R : Type) where
  shared : SharedTable → List Row
  identity : Identity
  memberNames : Table String String
  machine : MachineTable → List Row
  journal : List (JournalRow F)
  state : LogState
  lastAppliedPosition : Int
  lastSeenHead : Int
  pending : Table String Int
  selfAuthor : Option (String × Int)
  rest : R

/-- What the database, the decoders and the rules of texts decide: how a column keeps a cell, whether the constraints
hold after a statement and the references at the end, what bytes and JSON values are read as, and whether a row's texts,
a user entry, the stored profile and a set of pins are sound. -/
structure Outside (F R : Type) where
  affinity : SharedTable → String → Cell → Cell
  constraintsHold : Store F R → Bool
  foreignKeysHold : Store F R → Bool
  fromSlice : Utf8.Bytes → Option (Json F)
  projectEntry : Json F → Option (ProjectEntry F)
  agentEntry : Json F → Option AgentChangeEntry
  memberNameEntry : Json F → Option MemberName
  pinSet : Json F → Option CatalogPinSet
  userEntry : Json F → Option (UserEntry F)
  rowSound : SharedTable → SharedRow F → Bool
  userSound : UserEntry F → Bool
  profileSound : (SharedTable → List Row) → Bool
  pinDigest : List Row → Option String

variable {F R : Type} (outside : Outside F R)

/-- One statement. -/
def execute (write : Store F R → Store F R) (s : Store F R) : Except String (Store F R) :=
  if outside.constraintsHold (write s) then .ok (write s) else .error "constraint failed"

def Store.nextSeq (s : Store F R) : Int := (s.journal.map JournalRow.seq).foldl max 0 + 1

def append (op : String) (payload : Payload F) (actor : String) (now : Int) (principal : String) (s : Store F R) :
    Store F R × Int :=
  ({ s with journal := s.journal ++ [⟨s.nextSeq,op,payload,actor,now,principal,"local","here",none,none,none⟩] },s.nextSeq)

def Store.journaled (s : Store F R) (seq : Int) (f : JournalRow F → JournalRow F) : Store F R :=
  { s with journal := s.journal.map fun row => if row.seq = seq then f row else row }

end Store

section Identity

def identityMarkerOp : String := "agent.cutover"

def identityChangeOps : List String :=
  ["agent.create","agent.rename","agent.update_tag","agent.set_labels","agent.set_avatar","agent.set_github_identity",
    "agent.dispose","agent.merge","agent.import","agent.set_namespace"]

def agentOps : List String :=
  ["agent.create","agent.rename","agent.update_tag","agent.set_labels","agent.set_avatar","agent.set_github_identity",
    "agent.dispose","agent.merge","agent.set_namespace"]

def Identity.writeRow (identity : Identity) (row : AgentRow) : Identity :=
  { identity with agents := identity.agents.insert row.agentId row }

/-- A claim of a known id only takes the time of its release. -/
def Identity.writeClaim (identity : Identity) (claim : AgentNameClaim) : Identity :=
  { identity with claims := identity.claims.insert claim.claimId (match identity.claims.get? claim.claimId with
    | some stored => { stored with releasedAtMs := claim.releasedAtMs }
    | none => claim) }

def Identity.loadClaims (identity : Identity) (agentId : String) : List AgentNameClaim :=
  (identity.claims.filter fun _ claim => claim.agentId == agentId).rows.map Prod.snd

def Identity.activeClaims (identity : Identity) (agentId : String) : List AgentNameClaim :=
  (identity.loadClaims agentId).filter fun claim => claim.releasedAtMs.isNone

variable {F R : Type} (outside : Outside F R)

/-- The row of an after-image, then its claims in their order. -/
def replayAgentEntry (entry : AgentChangeEntry) (s : Store F R) : Except String (Store F R) :=
  if entry.op = identityMarkerOp ∨ entry.op ∉ identityChangeOps then .ok s
  else do
    let s ← execute outside (fun s => { s with identity := s.identity.writeRow entry.row }) s
    entry.claims.foldlM (fun s claim => execute outside (fun s => { s with identity := s.identity.writeClaim claim }) s) s

def checkClaim (s : Store F R) (agent : AgentChangeEntry) (claim : AgentNameClaim) : Except String Unit :=
  let owner := (s.identity.claims.get? claim.claimId).map AgentNameClaim.agentId
  if claim.agentId ≠ agent.agentId ∨ owner.any (· ≠ agent.agentId) = true then
    .error "agent entry changes another agent's claim"
  else .ok ()

def checkAgentEntry (s : Store F R) (agent : AgentChangeEntry) : Except String Unit :=
  if agent.agentId ≠ agent.row.agentId ∨ agent.agentGeneration ≠ agent.row.agentGeneration then
    .error "inconsistent agent after-image"
  else agent.claims.forM (checkClaim s agent)

end Identity

section Projects
variable {F R : Type} [DecidableEq F] (outside : Outside F R)

def validateMemberName (name : MemberName) : Except String Unit :=
  let author := name.author.toList
  let shown := name.displayName.toList
  if author.length ≠ 32 ∨ author.all (fun c => c.isDigit || (decide ('a' ≤ c) && decide (c ≤ 'f'))) = false ∨
      Agents.trim shown ≠ shown ∨ shown.isEmpty = true ∨ 64 < shown.length then .error "invalid member name"
  else .ok ()

def restoreMemberName (name : MemberName) (s : Store F R) : Except String (Store F R) := do
  validateMemberName name
  execute outside (fun s => { s with memberNames := s.memberNames.insert name.author name.displayName }) s

def restoreCarriedName (entry : ProjectEntry F) (s : Store F R) : Except String (Store F R) :=
  match entry.memberName with
  | some name => restoreMemberName outside name s
  | none => .ok s

def asI64 : Json F → Option Int
  | .number (.posInt n) => if n.val < 2 ^ 63 then some n.val else none
  | .number (.negInt n) => some (-(n.val : Int) - 1)
  | _ => none

def sqlValue (value : Json F) : Except String Cell :=
  match value,asI64 value with
  | .null,_ => .ok .null
  | .string text,_ => .ok (.text text)
  | _,some n => .ok (.integer n)
  | _,none => .error "shared cells must be null, text or signed integers"

def asText (row : SharedRow F) (column : String) : Option String := (row.get? column).bind Json.asStr

def implicitPrefix : String := "pj-implicit1-"

def isImplicit (id : String) : Bool := implicitPrefix.toList.isPrefixOf id.toList

/-- Its columns are the expected ones, but a project's domain may be left out; its cells are cells, and its texts
are sound. -/
def validateRow (table : SharedTable) (expected : List String) (row : SharedRow F) : Except String Unit := do
  let legacyDomain := table == .project && expected.contains "domain" && !row.has "domain"
  if row.size + legacyDomain.toNat ≠ expected.length ∨
      expected.any (fun name => !row.has name && !(legacyDomain && name == "domain")) = true then
    .error ("unknown or missing columns in " ++ table.name)
  else do
    row.rows.forM fun c => (sqlValue c.2).map fun _ => ()
    if outside.rowSound table row = false then .error ("invalid row of " ++ table.name)
    else if table = .projectAlias ∧ (asText row "old_id").any isImplicit = true then
      .error "implicit aliases are machine-local"
    else .ok ()

/-- A scope's text goes only when the scope does. -/
def validateExpertise (entry : ProjectEntry F) (row : SharedRow F) : Except String Unit :=
  let removed := fun parent key =>
    if (entry.tables.get? parent).any (fun changes => changes.delete.any fun p =>
        decide (p.get? key = row.get? "scope_id")) = true then .ok ()
    else .error "expertise deletion requires scope removal"
  match asText row "scope_kind" with
  | some "project" => removed "project" "project_id"
  | some "workspace" => removed "workspace" "workspace_id"
  | _ => .error "invalid expertise deletion scope"

def validateTable (entry : ProjectEntry F) (name : String) (changes : TableChanges F) : Except String Unit := do
  if entry.op = "project.shared" ∧ "user_".toList.isPrefixOf name.toList = true then
    if name ≠ "user_expertise" ∨ changes.upsert.isEmpty = false then .error "profile changes require user.set"
    else changes.delete.forM (validateExpertise entry)
  else .ok ()
  if entry.op = "project.shared" ∧ (name = "catalog_pin" ∨ name = "catalog_pin_set") then
    .error "pin changes require catalog.pin"
  else match projectSharedTables.find? fun table => table.name == name with
    | none => .error ("unknown shared table " ++ name)
    | some table => do
      changes.upsert.forM (validateRow outside table table.columns)
      changes.delete.forM (validateRow outside table table.keys)

def ProjectEntry.validate (entry : ProjectEntry F) : Except String Unit := do
  if (entry.op ≠ "project.shared" ∧ entry.op ≠ "shared.snapshot") ∨
      (entry.op = "project.shared" ∧ entry.memberName.isSome = true) ∨
      (entry.op = "project.shared" ∧ entry.agents.any (fun agent => agent.op != "agent.set_namespace") = true) then
    .error "unsupported project entry op"
  else do
    entry.tables.rows.forM fun x => validateTable outside entry x.1 x.2
    if entry.op = "shared.snapshot" ∧ entry.agents.any (fun agent => agent.op != "agent.import") = true then
      .error "snapshot agents must be imports"
    else match entry.memberName with
      | some name => validateMemberName name
      | none => .ok ()

def ProjectEntry.changes (entry : ProjectEntry F) (table : SharedTable) : TableChanges F :=
  (entry.tables.get? table.name).getD ⟨[],[]⟩

def Store.setShared (s : Store F R) (table : SharedTable) (rows : List Row) : Store F R :=
  { s with shared := fun t => if t = table then rows else s.shared t }

def Store.setMachine (s : Store F R) (table : MachineTable) (rows : List Row) : Store F R :=
  { s with machine := fun t => if t = table then rows else s.machine t }

/-- The cells of the columns, as the table keeps them. -/
def cellsOf (table : SharedTable) (columns : List String) (row : SharedRow F) : Except String Row :=
  columns.mapM fun name => (sqlValue ((row.get? name).getD .null)).map fun cell => (name,outside.affinity table name cell)

def agrees (keys : List String) (a b : Row) : Bool := keys.all fun key => decide (a.get key = b.get key)

/-- Inserts a row, or overwrites the one of its key; a null is no key. -/
def upsertRow (table : SharedTable) (row : Row) (s : Store F R) : Store F R :=
  let conflict := fun old => agrees table.keys old row && table.keys.all fun key => decide (row.get key ≠ .null)
  let rows := s.shared table
  s.setShared table (if rows.any conflict then rows.map fun old => if conflict old then row else old else rows ++ [row])

def upsertTable (entry : ProjectEntry F) (table : SharedTable) (s : Store F R) : Except String (Store F R) :=
  (entry.changes table).upsert.foldlM (fun s row => do
    let cells ← cellsOf outside table table.columns row
    execute outside (upsertRow table cells) s) s

/-- What goes with deleted rows: a workspace's documents and its root, and the texts of either scope. -/
def afterDelete (table : SharedTable) (gone : List Row) (s : Store F R) : Store F R :=
  let ids := fun column => gone.map (Row.get · column)
  let withoutScope := fun kind column s => Store.setShared s .userExpertise ((s.shared .userExpertise).filter fun row =>
    !(row.get "scope_kind" == .text kind && (ids column).contains (row.get "scope_id")))
  match table with
  | .project => withoutScope "project" "project_id" s
  | .workspace =>
    let s := withoutScope "workspace" "workspace_id" s
    let s := s.setShared .workspaceDocument ((s.shared .workspaceDocument).filter fun row =>
      !(ids "workspace_id").contains (row.get "workspace_id"))
    s.setMachine .workspaceRoot ((s.machine .workspaceRoot).filter fun row =>
      !(ids "workspace_id").contains (row.get "workspace_id"))
  | _ => s

def deleteRow (table : SharedTable) (key : Row) (s : Store F R) : Store F R :=
  let gone := (s.shared table).filter (agrees table.keys key)
  afterDelete table gone (s.setShared table ((s.shared table).filter fun row => !agrees table.keys key row))

def deleteTable (entry : ProjectEntry F) (table : SharedTable) (s : Store F R) : Except String (Store F R) :=
  (entry.changes table).delete.foldlM (fun s row => do
    let cells ← cellsOf outside table table.keys row
    execute outside (deleteRow table cells) s) s

def Row.of (row : Row) (column : String) (cell : Cell) : Bool := row.get column == cell && cell != .null

def dropWorkspace (id : Cell) (s : Store F R) : Except String (Store F R) := do
  let without := fun table s => Store.setMachine s table ((s.machine table).filter fun row => !row.of "workspace_id" id)
  let s ← execute outside (without .workspaceRoot) s
  execute outside (without .workspaceMember) s

/-- Every active binding of a project is retired, and its approvals go with their epochs. -/
def retireProjectBindings (projectId : String) (seq : Int) (s : Store F R) : Except String (Store F R) := do
  let bindings := (s.machine .rootBinding).filter (·.of "project_id" (.text projectId))
  let s ← execute outside (fun s => s.setMachine .retiredBinding (s.machine .retiredBinding ++ bindings.map fun b =>
    [("registration_epoch",b.get "registration_epoch"),("canonical_root",b.get "canonical_root"),
      ("project_id",b.get "project_id"),("incarnation",b.get "incarnation"),("reason",.text "removed"),
      ("retired_seq",.integer seq)])) s
  let s ← execute outside (fun s => s.setMachine .rootApproval ((s.machine .rootApproval).filter fun row =>
    !bindings.any fun b => row.of "registration_epoch" (b.get "registration_epoch"))) s
  execute outside (fun s => s.setMachine .rootBinding ((s.machine .rootBinding).filter fun row =>
    !row.of "project_id" (.text projectId))) s

def implicitAlias (row : Row) : Bool :=
  match row.get "old_id" with
  | .text id => isImplicit id
  | _ => false

/-- A deleted project's own rows go to its successor, or with it. -/
def dropProject (entry : ProjectEntry F) (id : String) (seq : Int) (s : Store F R) : Except String (Store F R) := do
  let s ← retireProjectBindings outside id seq s
  let own := fun row : Row => row.of "project_id" (.text id)
  let successor := ((entry.changes .projectAlias).upsert.find? fun row => asText row "old_id" == some id).bind
    fun row => asText row "project_id"
  let follow := fun (mine : Row → Bool) (rows : List Row) => match successor with
    | some project => rows.map fun row => if own row && mine row then row.set "project_id" (.text project) else row
    | none => rows.filter fun row => !(own row && mine row)
  let s ← execute outside (fun s => s.setMachine .projectRoot (follow (fun _ => true) (s.machine .projectRoot))) s
  let s ← execute outside
    (fun s => s.setMachine .derivedRootParent (follow (fun _ => true) (s.machine .derivedRootParent))) s
  execute outside (fun s => s.setShared .projectAlias (follow implicitAlias (s.shared .projectAlias))) s

def cascadeLocal (entry : ProjectEntry F) (seq : Int) (s : Store F R) : Except String (Store F R) := do
  let s ← (entry.changes .workspace).delete.foldlM (fun s row => do
    let id ← sqlValue ((row.get? "workspace_id").getD .null)
    dropWorkspace outside (outside.affinity .workspace "workspace_id" id) s) s
  (entry.changes .project).delete.foldlM (fun s row => match asText row "project_id" with
    | none => .error "project key must be text"
    | some id => dropProject outside entry id seq s) s

def loadStatus (identity : Identity) (agentId : String) : Option String :=
  let digits := agentId.toList.drop 6
  if "agent_".toList.isPrefixOf agentId.toList && (digits.length == 8 || digits.length == 16) &&
      digits.all (fun c => c.isDigit || (decide ('a' ≤ c) && decide (c ≤ 'f'))) then
    (identity.agents.get? agentId).map AgentRow.status
  else none

def CatalogPinSet.validate (set : CatalogPinSet) (requireLive : Bool) (s : Store F R) : Except String Unit :=
  if set.op ≠ "catalog.pin" ∨ outside.pinDigest set.pins ≠ some set.pinDigest then
    .error "invalid catalog pin digest or op"
  else match loadStatus s.identity set.agentId with
    | none => .error "catalog pin agent is missing or not live"
    | some status =>
      if requireLive = true ∧ status ≠ "live" then .error "catalog pin agent is missing or not live" else .ok ()

def CatalogPinSet.restore (set : CatalogPinSet) (s : Store F R) : Except String (Store F R) := do
  set.validate outside true s
  let s ← execute outside
    (upsertRow .catalogPinSet [("agent_id",.text set.agentId),("pin_digest",.text set.pinDigest)]) s
  let s ← execute outside (fun s => s.setShared .catalogPin ((s.shared .catalogPin).filter fun row =>
    !row.of "agent_id" (.text set.agentId))) s
  set.pins.foldlM (fun s pin => execute outside (fun s =>
    s.setShared .catalogPin (s.shared .catalogPin ++ [("agent_id",.text set.agentId) :: pin])) s) s

/-- Every stored set of pins has its digest and an agent. -/
def validatePinProjection (s : Store F R) : Except String Unit :=
  (s.shared .catalogPinSet).forM fun set => match set.get "agent_id",set.get "pin_digest" with
    | .text agentId,.text digest =>
      let pins := ((s.shared .catalogPin).filter (·.of "agent_id" (.text agentId))).map fun row =>
        row.filter fun c => c.1 != "agent_id"
      CatalogPinSet.validate outside ⟨"catalog.pin",agentId,pins,digest⟩ false s
    | _,_ => .error "invalid catalog pin set"

/-- The index of placements is built again from the shared ones. -/
def rebuildMembers (s : Store F R) : Store F R :=
  s.setMachine .workspaceMember (((s.machine .workspaceMember).filter fun row => !row.of "ref_kind" (.text "local")) ++
    (s.shared .projectWorkspace).map fun row => [("workspace_id",row.get "workspace_id"),("ref_kind",.text "local"),
      ("device_fingerprint",.text ""),("project_id",row.get "project_id")])

def unkeyed (row : Row) : Row := (row.set "root_key" .null).set "root_key_kind" .null

def clearUnownedMappings (s : Store F R) : Store F R :=
  s.setMachine .projectRoot ((s.machine .projectRoot).map fun row =>
    if row.get "root_key" ≠ .null ∧ (s.shared .projectRootKey).any (fun k => row.of "project_id" (k.get "project_id") &&
        row.of "root_key_kind" (k.get "kind") && row.of "root_key" (k.get "root_key")) = false then unkeyed row else row)

def ProjectEntry.apply (entry : ProjectEntry F) (seq : Int) (s : Store F R) : Except String (Store F R) := do
  entry.validate outside
  let s ← restoreCarriedName outside entry s
  let s ← upsertTable outside entry .workspace s
  let s ← upsertTable outside entry .project s
  let s ← cascadeLocal outside entry seq s
  let s ← projectSharedTables.reverse.foldlM (fun s table => deleteTable outside entry table s) s
  let s ← (projectSharedTables.drop 2).foldlM (fun s table => upsertTable outside entry table s) s
  let s ← entry.agents.foldlM (fun s agent => replayAgentEntry outside agent s) s
  validatePinProjection outside s
  if outside.profileSound s.shared = false then .error "invalid profile"
  else do
    let s ← execute outside rebuildMembers s
    if (entry.changes .projectRootKey).delete.isEmpty then .ok s else execute outside clearUnownedMappings s

end Projects

section Users
variable {F R : Type} (outside : Outside F R)

def scopeExists (scope : UserScope) (s : Store F R) : Bool :=
  match scope.kind with
  | "workspace" => (s.shared .workspace).any (·.of "workspace_id" (.text scope.id))
  | "project" => !"pj-implicit".toList.isPrefixOf scope.id.toList &&
    (s.shared .project).any (·.of "project_id" (.text scope.id))
  | _ => false

def UserEntry.validate (user : UserEntry F) (s : Store F R) : Except String Unit :=
  if user.op ≠ "user.set" then .error "unknown user entry op"
  else if outside.userSound user = false then .error "user entry text must be trimmed"
  else if user.scope.any (fun scope => !scopeExists scope s) = true then
    .error "scope must name an existing workspace or registered project"
  else .ok ()

def profileFields : List String := ["name","address_as","pronouns","computer_savviness","verbosity"]

/-- The text of a scope, or without one where there is none left to say. -/
def restoreExpertise (scope : UserScope) (value : Cell) (s : Store F R) : Except String (Store F R) :=
  if value = .null then
    execute outside (fun s => s.setShared .userExpertise ((s.shared .userExpertise).filter fun row =>
      !(row.of "scope_kind" (.text scope.kind) && row.of "scope_id" (.text scope.id)))) s
  else execute outside
    (upsertRow .userExpertise [("scope_kind",.text scope.kind),("scope_id",.text scope.id),("text",value)]) s

/-- One field of the profile; a profile with no field left goes. -/
def restoreProfile (field : String) (value : Cell) (s : Store F R) : Except String (Store F R) := do
  let s ← execute outside (fun s => if (s.shared .userProfile).any (·.of "id" (.integer 1)) then s
    else s.setShared .userProfile (s.shared .userProfile ++ [("id",.integer 1) :: profileFields.map fun f => (f,.null)])) s
  let s ← execute outside (fun s => s.setShared .userProfile ((s.shared .userProfile).map fun row =>
    if row.of "id" (.integer 1) then row.set field value else row)) s
  execute outside (fun s => s.setShared .userProfile ((s.shared .userProfile).filter fun row =>
    !profileFields.all fun f => row.get f == .null)) s

def UserEntry.restore (user : UserEntry F) (s : Store F R) : Except String (Store F R) := do
  user.validate outside s
  let value ← sqlValue user.value
  match user.scope with
  | some scope => restoreExpertise outside scope value s
  | none => restoreProfile outside user.field value s

end Users

section Apply
variable {F R : Type} [DecidableEq F] (outside : Outside F R)

def decode (entry : RemoteEntry) (s : Store F R) : Except String (Decoded F) :=
  if entry.envelopeVersion ≠ 1 then .error "unknown envelope_version"
  else if entry.kind ≠ "change" ∧ entry.kind ≠ "snapshot" then .error "unknown entry kind"
  else match outside.fromSlice entry.entry with
    | none => .error "invalid JSON"
    | some value => match (value.get? "op").bind Json.asStr with
      | none => .error "missing entry op"
      | some op =>
        if (entry.kind = "change" ∧ op = "project.shared") ∨ (entry.kind = "snapshot" ∧ op = "shared.snapshot") then
          match outside.projectEntry value with
          | none => .error "invalid project entry"
          | some project => do
            -- a record's op is the one of the value
            let project := { project with op := op }
            project.validate outside
            if project.memberName.any fun name => name.author != entry.author then
              .error "snapshot names another author"
            else do
              if project.op = "project.shared" then project.agents.forM (checkAgentEntry s) else .ok ()
              return .project project
        else if entry.kind = "change" ∧ op = "member.set_name" then
          match outside.memberNameEntry value with
          | none => .error "invalid member name entry"
          | some name => do
            validateMemberName name
            if name.author ≠ entry.author then .error "member name author differs from log author"
            else return .member name
        else if entry.kind = "change" ∧ op = "catalog.pin" then
          match outside.pinSet value with
          | none => .error "invalid catalog pin entry"
          | some pins => do
            pins.validate outside true s
            return .pins pins
        else if entry.kind = "change" ∧ op = "user.set" then
          match outside.userEntry value with
          | none => .error "invalid user entry"
          | some user => do
            user.validate outside s
            return .user user
        else if entry.kind = "change" ∧ op ∈ agentOps then
          match outside.agentEntry value with
          | none => .error "invalid agent entry"
          | some agent => do
            let agent := { agent with op := op }
            checkAgentEntry s agent
            return .agent agent
        else .error "unknown entry op or kind/op mismatch"

def adoptedSeq (s : Store F R) : Int := ((s.journal.filter fun row => row.op == "store.adopt").map JournalRow.seq).foldl max 0

/-- The row of the entry's own write here, since the store was last adopted. -/
def ownSeq (entry : RemoteEntry) (s : Store F R) : Option Int :=
  (s.journal.find? fun row => row.entryId == some entry.entryId && row.origin == "here" && decide (adoptedSeq s < row.seq)).map
    JournalRow.seq

def tag (seq : Int) (entry : RemoteEntry) (payload : Payload F) (s : Store F R) : Store F R :=
  s.journaled seq fun row => { row with
    payload := payload
    stream := "shared"
    origin := "log"
    entryId := some entry.entryId
    logPosition := some entry.position
    entry := some entry.entry }

/-- A received agent change under the next row of the journal; a live agent keeps one active claim, a gone one none. -/
def installAgent (agent : AgentChangeEntry) (entry : RemoteEntry) (s : Store F R) :
    Except String (Store F R × Int × Payload F) := do
  let (s,seq) := append agent.op .empty "log" agent.row.updatedAtMs "entorhinal" s
  let agent := { agent with seq := seq }
  let s ← replayAgentEntry outside agent s
  if (s.identity.activeClaims agent.agentId).length ≠ (if agent.row.status = "live" then 1 else 0) then
    .error "agent after-image has an invalid active claim count"
  else return (s,seq,.agent agent (some (entry.signer,entry.keyId)))

/-- The project's row first, if there are tables, then a row for each agent. -/
def applyCarried (project : ProjectEntry F) (entry : RemoteEntry) (s : Store F R) : Except String (Store F R) := do
  let (s,tagged) ← (if project.tables.rows.isEmpty then return (s,none)
    else do
      let (s,seq) := append project.op .empty "log" 0 "entorhinal" s
      let s ← project.apply outside seq s
      return (s,some (seq,Payload.signed entry.signer entry.keyId)) : Except String (Store F R × Option (Int × Payload F)))
  let (s,tagged) ← project.agents.foldlM (fun (state : Store F R × Option (Int × Payload F)) agent => do
    let (s,seq,payload) ← installAgent outside agent entry state.1
    let s := s.journaled seq fun row => { row with payload := payload, origin := "log" }
    return (s,if project.tables.rows.isEmpty then some (seq,payload) else state.2)) (s,tagged)
  return match tagged with
    | some (seq,payload) => tag seq entry payload s
    | none => s

def importAgent (agent : AgentChangeEntry) (s : Store F R) : Except String (Store F R) := do
  let (s,seq) := append "agent.import" .empty "log" agent.row.updatedAtMs "entorhinal" s
  let agent := { agent with seq := seq }
  let s ← replayAgentEntry outside { agent with op := "agent.import" } s
  return s.journaled seq fun row => { row with payload := .agent agent none }

def installProject (project : ProjectEntry F) (entry : RemoteEntry) (s : Store F R) : Except String (Store F R) := do
  let s ← (if project.op = "shared.snapshot" then do
    let s ← project.agents.foldlM (fun s agent => importAgent outside agent s) s
    return if s.journal.any (fun row => row.op == identityMarkerOp) then s
      else (append identityMarkerOp .empty "log" 0 "entorhinal" s).1
    else return s : Except String (Store F R))
  if project.op = "project.shared" ∧ project.agents.isEmpty = false then applyCarried outside project entry s
  else do
    let (s,seq) := append project.op .empty "log" 0 "entorhinal" s
    let s ← project.apply outside seq s
    return tag seq entry (.signed entry.signer entry.keyId) s

def install (decoded : Decoded F) (entry : RemoteEntry) (s : Store F R) : Except String (Store F R) :=
  match decoded with
  | .user user => do
    let (s,seq) := append "user.set" (.user user) (user.actor.getD "log") 0 user.principal s
    let s ← user.restore outside s
    return tag seq entry (.user user) s
  | .pins pins => do
    let (s,seq) := append "catalog.pin" (.pins pins) "log" 0 "entorhinal" s
    let s ← pins.restore outside s
    return tag seq entry (.pins pins) s
  | .project project => installProject outside project entry s
  | .agent agent => do
    let (s,seq,payload) ← installAgent outside agent entry s
    return tag seq entry payload s
  | .member name => do
    let (s,seq) := append "member.set_name" .empty "log" 0 "entorhinal" s
    let s ← restoreMemberName outside name s
    return tag seq entry (.signed entry.signer entry.keyId) s

/-- An own write is installed already. -/
def installOnce (decoded : Decoded F) (entry : RemoteEntry) (s : Store F R) : Except String (Store F R) :=
  match ownSeq entry s with
  | some _ => .ok s
  | none => install outside decoded entry s

def finishJoinAtHead (head : Int) (s : Store F R) : Store F R :=
  if s.state = .joining ∧ s.lastAppliedPosition = head then
    { (append "identity_log.enable" .empty "log" 0 "entorhinal" s).1 with state := .enabled }
  else s

/-- The position is passed, and with it every attempt that expected an older head. -/
def advance (position : Int) (s : Store F R) : Store F R :=
  let s := { s with lastAppliedPosition := position, lastSeenHead := max s.lastSeenHead position }
  let s := finishJoinAtHead s.lastSeenHead s
  { s with pending := s.pending.filter fun _ expected => decide (position ≤ expected) }

def applyEntry (entry : RemoteEntry) (s : Store F R) : Except String (Store F R) := do
  let decoded ← decode outside entry s
  if entry.position ≠ s.lastAppliedPosition + 1 then .error "entry is not the next log position"
  else do
    let s ← installOnce outside decoded entry s
    let s := advance entry.position s
    if outside.foreignKeysHold s = false then .error "shared after-image violates a foreign key"
    else .ok s

def learnIdentity (author : Option String) (now : Int) (s : Store F R) : Store F R :=
  match author,s.selfAuthor with
  | some author,none => { s with selfAuthor := some (author,now) }
  | _,_ => s

/-- One transaction: the store after it, and the refusal if it was rolled back. -/
def applyRemoteEntry (entry : RemoteEntry) (author : Option String) (now : Int) (s : Store F R) : Store F R × Option String :=
  match applyEntry outside entry s with
  | .ok s' => (learnIdentity author now s',none)
  | .error message => (s,some message)

end Apply

end Entorhinal.Remote
