import Entorhinal.PackageRecord

/-! The checks of an unsigned package before a publisher is asked to sign, and the record
that is signed. -/
namespace Entorhinal.Package

open Json (Floats Value)
open Utf8 (Bytes)

structure CheckedArchive (F : Type) where
  manifest : Manifest F
  manifestSha256 : String
  archiveSha256 : String
  archiveBytes : Nat
  flowVersion : Option Nat

section
variable {F : Type} [Floats F]

/-- The version that a flow package's flow file gives. -/
def checkFlowVersion (members : Table String Bytes) (id : String) (manifest : Manifest F) : Except Refusal Nat :=
  let path := (manifest.body.json.field "manifest").asStr.getD ""
  match ((members.get? path).bind parseMember : Option (Json F)) with
  | none => .error (mismatch "flow.json")
  | some flow =>
    if (flow.field "id").asStr ≠ some id then .error (.at .flowIdMismatch "flow.json id")
    else match positive (flow.field "version") with
      | none => .error (.at .recordInvalid "flow_version")
      | some version => .ok version

def flowVersionOf (members : Table String Bytes) (id : String) (manifest : Manifest F) : Except Refusal (Option Nat) :=
  if manifest.kind = .flow then (checkFlowVersion members id manifest).map some else .ok none

/-- What can be decided of a package without a signature or a registry. -/
def check (scheme : Scheme) (archiveBytes : Bytes) (scope : String) : Except Refusal (CheckedArchive F) := do
  require (decide (archiveBytes.length ≤ Archive.archiveMax)) (.new .archiveTooLarge)
  let members ← (Archive.read archiveBytes).mapError fun e => Refusal.new e.code
  match members.get? "ck.json" with
  | none => .error (.at .manifestInvalid "ck.json")
  | some manifestBytes =>
    let manifest : Manifest F ← parseManifest manifestBytes
    let mapped ← (mapName scheme manifest.name).mapError fun e => Refusal.new e.code
    require ("@" ++ mapped.scope == scope) (mismatch "scope")
    checkFiles scheme members manifest.files
    let flowVersion ← flowVersionOf members mapped.id manifest
    return {
      manifest := manifest
      manifestSha256 := scheme.sha256Hex manifestBytes
      archiveSha256 := scheme.sha256Hex archiveBytes
      archiveBytes := archiveBytes.length
      flowVersion := flowVersion }

def CheckedArchive.record (checked : CheckedArchive F) (publicKey : String) : Record F where
  schema := "ck-record/v1"
  name := checked.manifest.name
  version := checked.manifest.version
  manifestSha256 := checked.manifestSha256
  archiveSha256 := checked.archiveSha256
  archiveBytes := checked.archiveBytes
  publicKey := publicKey
  logHead := .of .null
  flowVersion := checked.flowVersion

/-- The document of a record; its fields stand in key order, a missing version is left out. -/
def Record.value (r : Record F) : Json F :=
  .objectOf ([("schema",.string r.schema),("name",.string r.name),("version",.string r.version),
    ("manifest_sha256",.string r.manifestSha256),("archive_sha256",.string r.archiveSha256),
    ("archive_bytes",jsonNat r.archiveBytes),("public_key",.string r.publicKey),
    ("log_head",r.logHead.json)] ++ (r.flowVersion.map fun n => ("flow_version",jsonNat n)).toList)

def Record.text (r : Record F) : String := r.value.jcsText

end

end Entorhinal.Package
