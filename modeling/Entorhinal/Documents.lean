import Entorhinal.IdentityLog
import Entorhinal.RegistryTables
import Entorhinal.Utf8
import Mathlib.Data.Prod.Lex

/-! The accepted documents of workspaces: the write that plans the next revision, the entry it
shares, and the entries that are applied from the log. -/
namespace Entorhinal.Documents
open IdentityLog Registry

structure WorkspaceDocument where
  workspaceId : String
  revision : Int
  charter : String
  document : String
  sha256 : String
  acceptedAtMs : Int
  acceptedVia : String
deriving DecidableEq, Repr

/-- The primary key of the table: the workspace and the revision. -/
abbrev DocumentKey := String ×ₗ Int

def keyOf (workspaceId : String) (revision : Int) : DocumentKey := toLex (workspaceId,revision)

def WorkspaceDocument.key (doc : WorkspaceDocument) : DocumentKey := keyOf doc.workspaceId doc.revision

/-- The names of the workspaces, their documents, and the operation each request key is bound to. -/
structure Tables where
  workspaces : Table String String
  documents : Table DocumentKey WorkspaceDocument
  requestKeys : Table String String

/-- The rows an entry upserts and deletes in the two shared tables. -/
structure Change where
  workspaces : List (String × String)
  goneWorkspaces : List String
  documents : List WorkspaceDocument
  goneDocuments : List DocumentKey
deriving DecidableEq

/-- The hash, and the bytes of entries as the JSON library writes and reads them. -/
structure Outside (ν : Type) where
  sha256Hex : List UInt8 → String
  encode : Change → List UInt8
  decode : List UInt8 → Except String Change
  decodePart : List UInt8 → Except String (SnapshotPart ν)

def CHARTER_LIMIT : Nat := 4 * 1024

def DOCUMENT_LIMIT : Nat := 64 * 1024

def SHARED_ENTRY_LIMIT : Nat := 256 * 1024

def OPERATOR_SUMMARY_LIMIT : Nat := 200

section Text

def utf8Length (text : List Char) : Nat := (Utf8.encode text).length

def isControl (c : Char) : Bool := c.toNat < 32 || (127 ≤ c.toNat && c.toNat ≤ 159)

def refusedCharacter (c : Char) : Bool := isControl c && !(c == '\t' || c == '\n' || c == '\r')

def validateText (field text : String) (limit : Nat) : Except RegistryError Unit :=
  if limit < utf8Length text.toList then
    .error ⟨"document_too_large",field ++ " exceeds " ++ toString limit ++ " UTF-8 bytes"⟩
  else if text.toList.any refusedCharacter then
    .error ⟨"document_invalid_text",field ++ " contains a control character at byte " ++
      toString (utf8Length (text.toList.takeWhile fun c => !refusedCharacter c))⟩
  else .ok ()

def lengthBytes (length : Nat) : List UInt8 := (List.range 8).map fun i => UInt8.ofNat (length / 256 ^ (7 - i))

def framed (text : String) : List UInt8 := lengthBytes (utf8Length text.toList) ++ Utf8.encode text.toList

def documentSha256 (sha256Hex : List UInt8 → String) (charter document : String) : String :=
  sha256Hex (Utf8.asBytes "ck-workspace-document-v1" ++ 0 :: (framed charter ++ framed document))

end Text

variable {ν : Type} (outside : Outside ν)

section Plan

structure SetWorkspaceDocumentRequest where
  workspaceId : String
  expectedRevision : Int
  charter : String
  document : String
  requestKey : String
deriving DecidableEq, Repr

/-- The highest revision of a workspace's documents, or 0. -/
def current (documents : Table DocumentKey WorkspaceDocument) (workspaceId : String) : Int :=
  (((documents.rows.filter fun r => (ofLex r.1).1 == workspaceId).map fun r => (ofLex r.1).2).max?).getD 0

def documentEntry (doc : WorkspaceDocument) : Change := ⟨[],[],[doc],[]⟩

def requireKey (key : String) : Except RegistryError Unit :=
  if key = "" then .error ⟨"request_key_required","request_key must not be empty"⟩ else .ok ()

def planDocument (tables : Tables) (req : SetWorkspaceDocumentRequest) (now : Int) :
    Except RegistryError (WorkspaceDocument × String) := do
  requireKey req.requestKey
  validateText "charter" req.charter CHARTER_LIMIT
  validateText "document" req.document DOCUMENT_LIMIT
  match tables.workspaces.get? req.workspaceId with
  | none => .error ⟨"workspace_unknown",req.workspaceId⟩
  | some name =>
    let revision := current tables.documents req.workspaceId
    if req.expectedRevision ≠ revision then
      .error ⟨"revision_conflict","current revision is " ++ toString revision⟩
    else if 2 ^ 63 ≤ revision + 1 then .error ⟨"revision_conflict","revision exhausted"⟩
    else
      let doc : WorkspaceDocument := {
        workspaceId := req.workspaceId
        revision := revision + 1
        charter := req.charter
        document := req.document
        sha256 := documentSha256 outside.sha256Hex req.charter req.document
        acceptedAtMs := now
        acceptedVia := "direct" }
      if SHARED_ENTRY_LIMIT < (outside.encode (documentEntry doc)).length then
        .error ⟨"document_too_large","encoded shared entry exceeds " ++ toString SHARED_ENTRY_LIMIT ++ " bytes"⟩
      else
        let text := "set document of workspace " ++ name ++ " revision " ++ toString (revision + 1) ++
          " (charter " ++ toString (utf8Length req.charter.toList) ++ " bytes, document " ++
          toString (utf8Length req.document.toList) ++ " bytes, sha256 " ++ String.ofList (doc.sha256.toList.take 12) ++ ")"
        if OPERATOR_SUMMARY_LIMIT < text.toList.length then
          .error ⟨"operator_summary_too_long","shorten the project or workspace name to fit the operator prompt"⟩
        else .ok (doc,text)

end Plan

section Shared

/-- The after-images of the rows that differ. -/
def delta (before after : Tables) : Change where
  workspaces := after.workspaces.rows.filter fun r => decide (before.workspaces.get? r.1 ≠ some r.2)
  goneWorkspaces := before.workspaces.keys.filter fun id => !after.workspaces.has id
  documents := (after.documents.rows.filter fun r => decide (before.documents.get? r.1 ≠ some r.2)).map Prod.snd
  goneDocuments := before.documents.keys.filter fun key => !after.documents.has key

def validateRow (doc : WorkspaceDocument) : Except String Unit := do
  (validateText "charter" doc.charter CHARTER_LIMIT).mapError RegistryError.message
  (validateText "document" doc.document DOCUMENT_LIMIT).mapError RegistryError.message
  if doc.revision < 1 ∨ doc.sha256 ≠ documentSha256 outside.sha256Hex doc.charter doc.document ∨
      doc.acceptedVia ≠ "direct" then .error "invalid accepted workspace document"
  else .ok ()

def validate (change : Change) : Except String Unit := change.documents.forM (validateRow outside)

/-- The documents an entry leaves before it upserts its own. -/
def keptDocuments (documents : Table DocumentKey WorkspaceDocument) (change : Change) :
    Table DocumentKey WorkspaceDocument :=
  (documents.filter fun key _ => decide (key ∉ change.goneDocuments)).filter
    fun key _ => decide ((ofLex key).1 ∉ change.goneWorkspaces)

/-- Each row is inserted, or overwrites the row of its key. -/
def upsert (documents : Table DocumentKey WorkspaceDocument) (rows : List WorkspaceDocument) :
    Table DocumentKey WorkspaceDocument := rows.foldl (fun documents doc => documents.insert doc.key doc) documents

/-- Workspaces first, then the deletes, then the documents; the references are checked at the end
of the transaction. -/
def restore (tables : Tables) (change : Change) : Except String Tables := do
  validate outside change
  let workspaces := (tables.workspaces.insertAll change.workspaces).filter fun id _ =>
    decide (id ∉ change.goneWorkspaces)
  let documents := upsert (keptDocuments tables.documents change) change.documents
  if documents.rows.all fun r => workspaces.has r.2.workspaceId then
    .ok { tables with workspaces := workspaces, documents := documents }
  else .error "shared after-image violates a foreign key"

/-- The rows of all parts; what a snapshot that supersedes the log lacks is deleted. -/
def merged (parts : List (LogEntry ν)) (supersedes : Bool) (tables : Tables) : Except String Change := do
  let changes ← parts.mapM fun part => outside.decode part.body.data
  let workspaces := changes.flatMap Change.workspaces
  let documents := changes.flatMap Change.documents
  if supersedes then
    .ok ⟨workspaces,tables.workspaces.keys.filter fun id => decide (id ∉ workspaces.map Prod.fst),documents,
      tables.documents.keys.filter fun key => decide (key ∉ documents.map WorkspaceDocument.key)⟩
  else .ok ⟨workspaces,changes.flatMap Change.goneWorkspaces,documents,changes.flatMap Change.goneDocuments⟩

end Shared

section Operations

/-- The writes that reach these tables. `bound` and `checks` are what the checks of other tables
refuse with; `placing` is one of the writes that place a project and create its workspace. -/
inductive Op
  | setDocument (req : SetWorkspaceDocumentRequest) (now : Int) (principal : String) (approved : Option String)
  | remove (workspaceId : String) (requestKey bound : Option String)
  | createWorkspace (workspaceId name : String)
  | placing (op workspaceId name : String) (requestKey checks : Option String)
deriving DecidableEq

/-- The request-key cache of a mutation. -/
def keyed (tables : Tables) (op : String) (key : Option String) (write : Outcome Tables) : Outcome Tables :=
  match key.bind tables.requestKeys.get? with
  | some other => if other = op then .cached else .refused "request_key_reused_across_ops"
  | none => write

def written (tables after : Tables) (op : String) (key : Option String) : Outcome Tables :=
  let bound := { after with requestKeys := key.elim after.requestKeys fun key => after.requestKeys.insert key op }
  .shared bound (outside.encode (delta tables bound))

def setWorkspaceDocument (tables : Tables) (req : SetWorkspaceDocumentRequest) (now : Int) (principal : String)
    (approved : Option String) : Outcome Tables :=
  if principal ≠ "direct" then .refused "direct_caller_required"
  else keyed tables "workspace.set_document" (some req.requestKey) <|
    match planDocument outside tables req now with
    | .error e => .refused e.code
    | .ok (doc,text) =>
      if approved ≠ some text then .refused "operator_approval_stale"
      else if tables.documents.has doc.key then .refused "storage_error"
      else written outside tables { tables with documents := tables.documents.insert doc.key doc }
        "workspace.set_document" (some req.requestKey)

/-- The documents of a workspace go with it. -/
def remove (tables : Tables) (workspaceId : String) (key bound : Option String) : Outcome Tables :=
  keyed tables "remove" key <|
    if !tables.workspaces.has workspaceId then .refused "not_found"
    else match bound with
      | some code => .refused code
      | none => written outside tables { tables with
          workspaces := tables.workspaces.erase workspaceId
          documents := tables.documents.filter fun key _ => (ofLex key).1 != workspaceId }
        "remove" key

def createWorkspace (tables : Tables) (workspaceId name : String) : Outcome Tables :=
  if tables.workspaces.has workspaceId then .refused "workspace_exists"
  else written outside tables { tables with workspaces := tables.workspaces.insert workspaceId name }
    "create_workspace" none

def placing (tables : Tables) (op workspaceId name : String) (key checks : Option String) : Outcome Tables :=
  keyed tables op key <|
    match checks with
    | some code => .refused code
    | none => written outside tables
        { tables with workspaces := tables.workspaces.insertOrIgnore workspaceId name } op key

def operate (op : Op) (tables : Tables) : Outcome Tables :=
  match op with
  | .setDocument req now principal approved => setWorkspaceDocument outside tables req now principal approved
  | .remove workspaceId key bound => remove outside tables workspaceId key bound
  | .createWorkspace workspaceId name => createWorkspace outside tables workspaceId name
  | .placing op workspaceId name key checks => placing outside tables op workspaceId name key checks

/-- What the transactions of a store do to these tables. -/
def documentRegistry : IdentityLog.Registry ν Tables Op where
  operate := operate outside
  decodePart := outside.decodePart
  validate entry _ := do validate outside (← outside.decode entry.body.data)
  restore entry tables := do restore outside tables (← outside.decode entry.body.data)
  install parts supersedes tables := do restore outside tables (← merged outside parts supersedes tables)
  -- `restore` checks the references itself
  referencesHold _ := true

end Operations

end Entorhinal.Documents
