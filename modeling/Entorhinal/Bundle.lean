import Entorhinal.PackageRecord

/-! Starter bundles: a signed list of packages in one container, and the proof of a package
that is kept for later starts. -/
namespace Entorhinal.Package

open Json (Floats)
open Utf8 (Bytes)

structure KeyCert where
  schema : String
  scope : String
  publicKey : String
  validFrom : String
  validUntil : Option String

section Certificate
variable {F : Type} [Floats F]

def invalidStatement (field : String) : Refusal := .at .statementInvalid field

def statementString (s : Json F) (field : String) : Except Refusal String :=
  match (s.field field).asStr with
  | none => .error (invalidStatement field)
  | some text => .ok text

def statementKey (s : Json F) (field : String) : Except Refusal String := do
  let k ← statementString s field
  require (isHex k 64) (invalidStatement field)
  return k

def timestamp (s : Json F) (field : String) : Except Refusal String := do
  let t ← statementString s field
  require (time t) (invalidStatement field)
  return t

def checkUntil (s : Json F) (validFrom : String) : Except Refusal Unit :=
  if (s.field "valid_until").isNull then .ok ()
  else do
    let last ← timestamp s "valid_until"
    require (decide (validFrom < last)) (invalidStatement "valid_until")

def readKeyCert (s : Json F) : Option KeyCert := do
  return ⟨← (s.get? "schema").bind Json.asStr,← (s.get? "scope").bind Json.asStr,
    ← (s.get? "public_key").bind Json.asStr,← (s.get? "valid_from").bind Json.asStr,
    ← optionalStr (s.field "valid_until")⟩

/-- The certificate of a key of the starter scope, signed by the root. -/
def verifyKeyCert (F : Type) [Floats F] (scheme : Scheme) (text sig root : String) : Except Refusal KeyCert := do
  let s : Json F ← shape text "ck-key-cert/v1" ["schema","scope","public_key","valid_from","valid_until"] []
    .statementInvalid
  require ((s.field "scope").asStr == some "cortexkit") (invalidStatement "scope")
  let _ ← statementKey s "public_key"
  let validFrom ← timestamp s "valid_from"
  checkUntil s validFrom
  require (scheme.verifySignature root "ck-key-cert/v1" s.jcsText sig) (.new .signatureInvalid)
  match readKeyCert s with
  | none => .error (invalidStatement "json")
  | some cert => return cert

end Certificate

inductive BundleError
  | document (refusal : Refusal)
  | archive (error : Archive.ArchiveError)
  | member (code : RefusalCode) (field : String) (member : String)

structure Entry where
  name : String
  version : String
  archiveSha256 : String
  record : String
  recordMemberSha256 : String
  archive : String
deriving DecidableEq, Repr

structure Document where
  schema : String
  created : String
  records : List Entry

/-- What authenticates a package's first status again after a restart. -/
structure Proof where
  document : String
  certificate : String
  signature : String
  member : String
  memberBytes : String
deriving DecidableEq, Repr

structure Metadata (F : Type) [Floats F] where
  record : String
  recordSignature : String
  status : HeldStatus F
  statusSignature : String

/-- One package of a verified bundle. -/
structure Bundled (F : Type) [Floats F] where
  package : VerifiedPackage F
  recordSignature : String
  status : HeldStatus F
  statusSignature : String
  archive : Bytes
  manifest : Bytes
  proof : Proof

structure VerifiedBundle (F : Type) [Floats F] where
  document : Document
  packages : List (Bundled F)

def bundleDomain : String := "ck-starter-bundle/v1"

section Read
variable {F : Type}

def readEntry (value : Json F) : Option Entry :=
  (value.structGet ["name","version","archive_sha256","record","record_member_sha256","archive"]).bind fun get => do
    let str := fun key => (get key).bind Json.asStr
    return ⟨← str "name",← str "version",← str "archive_sha256",← str "record",← str "record_member_sha256",
      ← str "archive"⟩

def readDocument (value : Json F) : Option Document :=
  (value.structGet ["schema","created","records"]).bind fun get => do
    return ⟨← (get "schema").bind Json.asStr,← (get "created").bind Json.asStr,
      ← (get "records").bind fun records => records.asArray.bind (·.mapM readEntry)⟩

end Read

def recordPath (mapped : MappedName) (version : String) : String :=
  "records/" ++ mapped.scope ++ "/" ++ mapped.name ++ "/" ++ version ++ ".json"

def archivePath (archiveSha256 : String) : String := "archives/" ++ archiveSha256 ++ ".tar"

/-- The checks of one entry after those before it. -/
def checkEntry (scheme : Scheme) (identities : List (String × String)) (entry : Entry) : Except Refusal Unit :=
  match mapName scheme entry.name with
  | .error _ => .error (invalidRecord "name")
  | .ok mapped =>
    if mapped.canonical ≠ entry.name ∨ mapped.scope ≠ "cortexkit" ∨
        (Semver.Version.parse entry.version).isNone ∨ ¬ isHex entry.archiveSha256 64 ∨
        ¬ isHex entry.recordMemberSha256 64 ∨ (entry.name,entry.version) ∈ identities then
      .error (invalidRecord "records")
    else if entry.record ≠ recordPath mapped entry.version then .error (invalidRecord "record")
    else if (Archive.checkPath entry.record).toOption.isNone then .error (invalidRecord "record")
    else if entry.archive ≠ archivePath entry.archiveSha256 then .error (mismatch "archive_sha256")
    else .ok ()

def checkEntries (scheme : Scheme) : List (String × String) → List Entry → Except Refusal Unit
  | _,[] => .ok ()
  | identities,entry :: rest => do
    checkEntry scheme identities entry
    checkEntries scheme ((entry.name,entry.version) :: identities) rest

section Verify
variable {F : Type} [Floats F]

/-- The value of a signed document given by its bytes. -/
def document (bytes : Bytes) : Except Refusal (Json F) :=
  match (Utf8.decode bytes).bind fun chars => (Json.parseSigned (String.ofList chars) : Option (Json F × List String)) with
  | none => .error (invalidRecord "json")
  | some (value,_) => .ok value

/-- The list of packages and the key that signed it, certified by the root for the time the
list was made. -/
def authenticated (F : Type) [Floats F] (scheme : Scheme) (documentBytes certificate : Bytes)
    (signature root : String) : Except Refusal (Document × ScopeKey) := do
  let value : Json F ← document documentBytes
  match readDocument value with
  | none => .error (invalidRecord "bundle.json")
  | some doc =>
    require (doc.schema == bundleDomain && time doc.created) (invalidRecord "bundle.json")
    let cert : Json F ← document certificate
    let key ← verifyKeyCert F scheme (cert.field "statement").jcsText ((cert.field "signature").asStr.getD "") root
    require (windowCovers key.validFrom key.validUntil doc.created) (.new .keyNotValid)
    require (scheme.verifySignature key.publicKey bundleDomain value.jcsText signature) (.new .signatureInvalid)
    checkEntries scheme [] doc.records
    return (doc,⟨key.publicKey,key.validFrom,key.validUntil,none⟩)

def authenticate (F : Type) [Floats F] (scheme : Scheme) (documentBytes certificate : Bytes)
    (signature root : String) : Except BundleError (Document × ScopeKey) :=
  (authenticated F scheme documentBytes certificate signature root).mapError .document

/-- A status that the signature of its bundle authenticates; it constrains no later signer. -/
def HeldStatus.fromBundle (text : String) : Except Refusal (HeldStatus F) :=
  match parsed : parseStatus F text with
  | .error e => .error e
  | .ok (record,canonical) => .ok ⟨record,canonical,0,true,parseStatus_found parsed⟩

def checkEntryMember (scheme : Scheme) (entry : Entry) (bytes : Bytes) : Except BundleError Unit :=
  if scheme.sha256Hex bytes ≠ entry.recordMemberSha256 then
    .error (.member .recordMismatch "record_member_sha256" entry.record)
  else .ok ()

/-- An envelope's signature, where its document is an object. -/
def envelopeSignature (envelope : Json F) : Option String :=
  (envelope.field "signature").asStr.filter fun _ => (envelope.field "record").isObject

/-- What the record and the status of an entry say of the entry and of one another. -/
def checkNames (scheme : Scheme) (entry : Entry) (record : Record F) (status : StatusRecord) : Except Refusal Unit :=
  if record.name ≠ entry.name ∨ status.name ≠ entry.name then .error (mismatch "name")
  else if record.version ≠ entry.version ∨ status.version ≠ entry.version then .error (mismatch "version")
  else if record.archiveSha256 ≠ entry.archiveSha256 ∨ status.archiveSha256 ≠ entry.archiveSha256 then
    .error (mismatch "archive_sha256")
  else if some status.publisherKey ≠ scheme.keyFingerprint record.publicKey then .error (mismatch "publisher_key")
  else .ok ()

def readMetadata (scheme : Scheme) (entry : Entry) (bytes : Bytes) (key : ScopeKey) :
    Except Refusal (Metadata F) := do
  let envelopes : Json F ← document bytes
  match envelopeSignature (envelopes.field "record"),envelopeSignature (envelopes.field "status") with
  | none,_ => .error (invalidRecord "record")
  | some _,none => .error (.at .statusInvalid "status")
  | some recordSignature,some statusSignature =>
    let held ← HeldStatus.fromBundle ((envelopes.field "status").field "record").jcsText
    let text := ((envelopes.field "record").field "record").jcsText
    let record ← verifyRecordTrust scheme text recordSignature ⟨[key],some held.record.publishedAt⟩
    checkNames scheme entry (record : Record F) held.record
    return ⟨text,recordSignature,held,statusSignature⟩

def metadata (scheme : Scheme) (entry : Entry) (bytes : Bytes) (key : ScopeKey) :
    Except BundleError (Metadata F) := do
  checkEntryMember scheme entry bytes
  (readMetadata scheme entry bytes key).mapError .document

def Proof.verify (F : Type) [Floats F] (scheme : Scheme) (proof : Proof) (root : String) :
    Except BundleError (HeldStatus F) := do
  let (doc,key) ← authenticate F scheme (Utf8.asBytes proof.document) (Utf8.asBytes proof.certificate)
    proof.signature root
  match doc.records.find? fun e => e.record == proof.member with
  | none => .error (.document (invalidRecord "record"))
  | some entry => (metadata scheme entry (Utf8.asBytes proof.memberBytes) key).map Metadata.status

/-- Bytes that are a text. -/
def textOf (bytes : Bytes) : Except BundleError String :=
  match Utf8.decode bytes with
  | none => .error (.document (invalidRecord "json"))
  | some chars => .ok (String.ofList chars)

def memberBytes (members : Table String Archive.ReadMember) (path : String) (refusal : Refusal) :
    Except BundleError Bytes :=
  match members.get? path with
  | none => .error (.document refusal)
  | some member => .ok member.bytes

def bundleSignature (members : Table String Archive.ReadMember) : String :=
  (((members.get? "bundle.sig").bind fun member => Utf8.decode member.bytes).map String.ofList).getD ""

variable [DecidableEq F]

/-- One package of the container, with the proof that is kept of it. -/
def verifyEntry (scheme : Scheme) (members : Table String Archive.ReadMember) (documentBytes certificate : Bytes)
    (key : ScopeKey) (entry : Entry) : Except BundleError (Bundled F) := do
  let recordBytes ← memberBytes members entry.record (invalidRecord entry.record)
  checkEntryMember scheme entry recordBytes
  let archive ← memberBytes members entry.archive (mismatch "archive_sha256")
  if scheme.sha256Hex archive ≠ entry.archiveSha256 then throw (.document (mismatch "archive_sha256"))
  let found : Metadata F ← metadata scheme entry recordBytes key
  let contents ← (Archive.read archive).mapError BundleError.archive
  match contents.get? "ck.json" with
  | none => throw (.document (invalidRecord "ck.json"))
  | some manifest =>
    let package ← (verifyRecord scheme found.record found.recordSignature manifest archive
      ⟨[key],some found.status.record.publishedAt⟩).mapError BundleError.document
    let documentText ← textOf documentBytes
    let certificateText ← textOf certificate
    let memberText ← textOf recordBytes
    return {
      package := package
      recordSignature := found.recordSignature
      status := found.status
      statusSignature := found.statusSignature
      archive := archive
      manifest := manifest
      proof := ⟨documentText,certificateText,bundleSignature members,entry.record,memberText⟩ }

/-- The names that the container may hold. -/
def expectedMembers (doc : Document) : List String :=
  ["bundle.json","bundle.cert.json","bundle.sig"] ++ doc.records.flatMap fun entry => [entry.record,entry.archive]

/-- The first member of the container that no entry names. -/
def unlisted (members : Table String Archive.ReadMember) (doc : Document) : Option (String × Archive.ReadMember) :=
  (members.rows.filter fun row => !(expectedMembers doc).contains row.1).foldl
    (fun first row => match first with
      | none => some row
      | some best => if row.2.offset < best.2.offset then some row else some best) none

/-- A whole bundle against the root that the program carries. -/
def verifyBundle (F : Type) [Floats F] [DecidableEq F] (scheme : Scheme) (bytes : Bytes) (root : String) :
    Except BundleError (VerifiedBundle F) := do
  let members ← (Archive.readMembers bytes).mapError BundleError.archive
  let documentBytes ← memberBytes members "bundle.json" (invalidRecord "bundle.json")
  let certificate ← memberBytes members "bundle.cert.json" (.new .keyUnknown)
  let (doc,key) ← authenticate F scheme documentBytes certificate (bundleSignature members) root
  let packages ← doc.records.mapM (verifyEntry scheme members documentBytes certificate key)
  match unlisted members doc with
  | some (path,member) => .error (.archive (.inMember .memberUnlisted (some member.offset) path))
  | none => return ⟨doc,packages⟩

end Verify

end Entorhinal.Package
