import Entorhinal.Manifest
import Entorhinal.Status

/-! The signed record of a package: its shape, its signer, and what it promises of the
bytes of an archive. -/
namespace Entorhinal.Package

open Json (Floats Value)
open Utf8 (Bytes)

structure Record (F : Type) where
  schema : String
  name : String
  version : String
  manifestSha256 : String
  archiveSha256 : String
  archiveBytes : Nat
  publicKey : String
  logHead : Value F
  flowVersion : Option Nat

structure Revocation where
  reason : String
  compromiseFrom : String
deriving DecidableEq, Repr

structure ScopeKey where
  publicKey : String
  validFrom : String
  validUntil : Option String
  revocation : Option Revocation
deriving DecidableEq, Repr

def windowCovers (validFrom : String) (validUntil : Option String) (moment : String) : Bool :=
  decide (validFrom ≤ moment) && validUntil.all fun u => decide (moment < u)

def ScopeKey.covers (key : ScopeKey) (moment : String) : Bool := windowCovers key.validFrom key.validUntil moment

def revokedAt (publishedAt : Option String) (compromiseFrom : String) : Bool :=
  publishedAt.all fun moment => decide (compromiseFrom ≤ moment)

/-- The keys of the selected scope, and when the registry says it was published. -/
structure Trust where
  keys : List ScopeKey
  publishedAt : Option String

structure VerifiedPackage (F : Type) where
  record : Record F
  manifest : Manifest F
  canonicalRecord : String

def invalidRecord (field : String) : Refusal := .at .recordInvalid field

def mismatch (field : String) : Refusal := .at .recordMismatch field

def recordFields : List String :=
  ["schema","name","version","manifest_sha256","archive_sha256","archive_bytes","public_key","log_head"]

section Read
variable {F : Type}

def jsonNat (n : Nat) : Json F := .number (.posInt (Fin.ofNat _ n))

def optionalU64 : Option (Json F) → Option (Option Nat)
  | none | some .null => some none
  | some value => value.asU64.map fun n => some n.val

def recordOf (str : String → Option String) (archiveBytes : Option Nat) (logHead : Option (Json F))
    (flowVersion : Option (Option Nat)) : Option (Record F) := do
  return {
    schema := ← str "schema"
    name := ← str "name"
    version := ← str "version"
    manifestSha256 := ← str "manifest_sha256"
    archiveSha256 := ← str "archive_sha256"
    archiveBytes := ← archiveBytes
    publicKey := ← str "public_key"
    logHead := .of (← logHead)
    flowVersion := ← flowVersion }

def readRecord (r : Json F) : Option (Record F) :=
  (r.structGet (recordFields ++ ["flow_version"])).bind fun get =>
    recordOf (fun key => (get key).bind Json.asStr) (((get "archive_bytes").bind Json.asU64).map Fin.val)
      (get "log_head") (optionalU64 (get "flow_version"))

variable [Floats F]

/-- The checks of a record that its fields have the right form; the length of the archive
and the identifier the name is bound to. -/
def checkRecord (scheme : Scheme) (r : Json F) : Except Refusal (Nat × String) :=
  match (r.field "name").asStr.filter canonicalName with
  | none => .error (invalidRecord "name")
  | some name => match mapName scheme name with
    | .error _ => .error (invalidRecord "name")
    | .ok mapped =>
      if ¬ someStr (r.field "version") (fun text => (Semver.Version.parse text).isSome) then
        .error (invalidRecord "version")
      else match ["manifest_sha256","archive_sha256","public_key"].find? fun f =>
          !someStr (r.field f) (isHex · 64) with
        | some f => .error (invalidRecord f)
        | none => match (positive (r.field "archive_bytes")).filter fun n => decide (n ≤ Archive.archiveMax) with
          | none => .error (invalidRecord "archive_bytes")
          | some len =>
            if (r.get? "flow_version").any fun v => (positive v).isNone then .error (invalidRecord "flow_version")
            else .ok (len,mapped.id)

/-- The key that signed is trusted for the time of publication. -/
def checkKey (trust : Trust) (publicKey : String) : Except Refusal Unit :=
  match trust.keys.find? fun k => k.publicKey == publicKey with
  | none => .error (.new .keyUnknown)
  | some key =>
    if key.revocation.any fun rev => revokedAt trust.publishedAt rev.compromiseFrom then .error (.new .keyRevoked)
    else if (trust.publishedAt.any fun moment => !key.covers moment) ||
        (trust.publishedAt.isNone && key.validUntil.isSome) then .error (.new .keyNotValid)
    else .ok ()

/-- The document of a record, its canonical text, the length of the archive and the
identifier of the package. -/
def trustedRecord (scheme : Scheme) (text sig : String) (trust : Trust) :
    Except Refusal (Json F × String × Nat × String) := do
  let r : Json F ← shape text "ck-record/v1" recordFields ["flow_version"] .recordInvalid
  let (len,id) ← checkRecord scheme r
  match (r.field "public_key").asStr with
  | none => .error (invalidRecord "public_key")
  | some publicKey =>
    require (scheme.verifySignature publicKey "ck-record/v1" r.jcsText sig) (.new .signatureInvalid)
    checkKey trust publicKey
    return (r,r.jcsText,len,id)

def verifyRecordTrust (scheme : Scheme) (text sig : String) (trust : Trust) : Except Refusal (Record F) := do
  let (r,_,len,_) ← trustedRecord scheme text sig trust
  match readRecord (r.set "archive_bytes" (jsonNat len)) with
  | none => .error (invalidRecord "json")
  | some record => return record

end Read

def archiveRuleText : Archive.ArchiveRule → String
  | .headerChecksum => "header_checksum"
  | .magic => "magic"
  | .memberType => "member_type"
  | .sizeEncoding => "size_encoding"
  | .pathInvalid => "path_invalid"
  | .pathTooLong => "path_too_long"
  | .pathNotUstar => "path_not_ustar"
  | .tooManyMembers => "too_many_members"
  | .pathDuplicate => "path_duplicate"
  | .pathCollision => "path_collision"
  | .truncated => "truncated"
  | .terminatorMissing => "terminator_missing"
  | .trailingData => "trailing_data"
  | .ckJsonMissing => "ck_json_missing"
  | .ckJsonNotFirst => "ck_json_not_first"
  | .memberUnlisted => "member_unlisted"

def archiveRefusal (e : Archive.ArchiveError) : Refusal :=
  match e.rule with
  | some rule => .at e.code (archiveRuleText rule)
  | none => .new e.code

/-- Every listed file is a member with its length and digest, and every other member but
the manifest is listed. -/
def checkFiles (scheme : Scheme) (members : Table String Bytes) (files : List File) : Except Refusal Unit :=
  match files.find? fun file => (members.get? file.path).all fun bytes =>
      bytes.length != file.bytes || scheme.sha256Hex bytes != file.sha256 with
  | some file => .error (.at .filesMismatch file.path)
  | none => match members.keys.find? fun path => path != "ck.json" && !(files.map (·.path)).contains path with
    | some path => .error (.at .filesMismatch path)
    | none => .ok ()

section Verify
variable {F : Type} [Floats F] [DecidableEq F]

/-- The flow file is for this package and has the version of the record. -/
def checkFlowFile (members : Table String Bytes) (id : String) (r m : Json F) : Except Refusal Unit :=
  let path := ((m.field "body").field "manifest").asStr.getD "flow.json"
  match ((members.get? path).bind parseMember : Option (Json F)) with
  | none => .error (mismatch "flow.json id")
  | some f =>
    if (f.field "id").asStr ≠ some id then .error (mismatch "flow.json id")
    else if f.field "version" ≠ r.field "flow_version" then .error (mismatch "flow_version")
    else .ok ()

/-- The record with its numbers as the integers they are. -/
def settled (r : Json F) (len : Nat) : Json F :=
  let r := r.set "archive_bytes" (jsonNat len)
  match (r.get? "flow_version").bind positive with
  | some n => r.set "flow_version" (jsonNat n)
  | none => r

/-- What a record's document and its manifest's document say of one another. -/
def checkManifest (members : Table String Bytes) (id : String) (r m : Json F) : Except Refusal Unit := do
  require (m.field "name" == r.field "name") (mismatch "name")
  require (m.field "version" == r.field "version") (mismatch "version")
  let flow := (m.field "kind").asStr == some "flow"
  require (flow == (r.get? "flow_version").isSome) (mismatch "flow_version")
  if flow then checkFlowFile members id r m else return ()

def verifyRecord (scheme : Scheme) (text sig : String) (manifestBytes archiveBytes : Bytes) (trust : Trust) :
    Except Refusal (VerifiedPackage F) := do
  let (r,canonical,len,id) ← trustedRecord scheme text sig trust
  require ((r.field "manifest_sha256").asStr == some (scheme.sha256Hex manifestBytes)) (mismatch "manifest_sha256")
  require ((r.field "archive_sha256").asStr == some (scheme.sha256Hex archiveBytes)) (mismatch "archive_sha256")
  require (len == archiveBytes.length) (mismatch "archive_bytes")
  let members ← (Archive.read archiveBytes).mapError archiveRefusal
  require (members.get? "ck.json" == some manifestBytes) (mismatch "ck.json")
  let m : Json F ← manifestValue manifestBytes
  checkManifest members id r m
  let manifest ← validateManifest m
  checkFiles scheme members manifest.files
  match readRecord (settled r len) with
  | none => .error (invalidRecord "json")
  | some record => return ⟨record,manifest,canonical⟩

end Verify

end Entorhinal.Package
