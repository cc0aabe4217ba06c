import Entorhinal.Archive
import Entorhinal.Signed

/-! The manifest of a package: its fields, and the checks of each kind's body. -/
namespace Entorhinal.Package

open Json (Floats Value)
open Semver (splitOnce)

def Kind.ofText : String → Option Kind
  | "persona" => some .persona
  | "skill" => some .skill
  | "flow" => some .flow
  | "memory-profile" => some .memoryProfile
  | _ => none

structure File where
  path : String
  sha256 : String
  bytes : Nat
deriving DecidableEq, Repr

structure Manifest (F : Type) where
  schema : String
  name : String
  version : String
  kind : Kind
  summary : String
  license : String
  source : String
  requires : Requires
  files : List File
  body : Value F

def isLowerDigit (c : Char) : Bool := c.isLower || c.isDigit

def capabilityPart (text : List Char) : Bool := text.head?.any Char.isLower && text.all isLowerDigit

/-- A number without leading zeros. -/
def majorNumber (text : List Char) : Bool := !text.isEmpty && text.head? != some '0' && text.all Char.isDigit

def capabilityToken (text : String) : Bool :=
  match text.toList with
  | 'c' :: 'a' :: 'p' :: '/' :: body => match splitOnce '@' body with
    | none => false
    | some (parts,major) =>
      let parts := parts.splitOn '.'
      parts.all capabilityPart && decide (parts.length ≤ 2) && majorNumber major
  | _ => false

def contractId (text : String) : Bool :=
  match splitOnce '/' text.toList with
  | none => false
  | some (owner,rest) => match splitOnce '@' rest with
    | none => false
    | some (name,major) =>
      !owner.isEmpty && owner.all (fun c => isLowerDigit c || c == '-') &&
        !name.isEmpty && name.all (fun c => isLowerDigit c || c == '-' || c == '.') && majorNumber major

def isControl (c : Char) : Bool := decide (c.toNat < 32) || (decide (127 ≤ c.toNat) && decide (c.toNat < 160))

/-- A scheme and something after it, without blanks. -/
def sourceUrl (text : String) : Bool :=
  (match splitOnce ':' text.toList with
  | none => false
  | some (scheme,rest) =>
    !rest.isEmpty && scheme.head?.any Char.isAlpha &&
      scheme.all fun c => c.isAlphanum || c == '+' || c == '.' || c == '-') &&
    !text.toList.any fun c => Semver.isWhitespace c || isControl c

variable {F : Type}

def readStrings (value : Json F) : Option (List String) := value.asArray.bind fun items => items.mapM Json.asStr

def readStringMap : Json F → Option (Table String String)
  | .object fields =>
    (fields.mapM fun (f : String × Json F) => f.2.asStr.map fun text => (f.1,text)).map fun rows =>
      rows.foldl (fun table row => table.insert row.1 row.2) ∅
  | _ => none

def readFile (value : Json F) : Option File := do
  let get ← value.structGet ["path","sha256","bytes"]
  return ⟨← (get "path").bind Json.asStr,← (get "sha256").bind Json.asStr,(← (get "bytes").bind Json.asU64).val⟩

def readRequires (value : Json F) : Option Requires := do
  let get ← value.structGet ["capabilities","packages"]
  return ⟨← (get "capabilities").bind readStrings,← (get "packages").bind readStringMap⟩

def manifestFields : List String :=
  ["schema","name","version","kind","summary","license","source","requires","files","body"]

def manifestOf (str : String → Option String) (kind : Option Kind) (requires : Option Requires)
    (files : Option (List File)) (body : Option (Json F)) : Option (Manifest F) := do
  return {
    schema := ← str "schema"
    name := ← str "name"
    version := ← str "version"
    kind := ← kind
    summary := ← str "summary"
    license := ← str "license"
    source := ← str "source"
    requires := ← requires
    files := ← files
    body := .of (← body) }

def readManifest (value : Json F) : Option (Manifest F) :=
  (value.structGet manifestFields).bind fun get =>
    manifestOf (fun key => (get key).bind Json.asStr) ((get "kind").bind (Json.variant Kind.ofText))
      ((get "requires").bind readRequires) ((get "files").bind fun files => files.asArray.bind (·.mapM readFile))
      (get "body")

def require (holds : Bool) (refusal : Refusal) : Except Refusal Unit := if holds then .ok () else .error refusal

def invalidManifest (field : String) : Refusal := .at .manifestInvalid field

def fileValid (file : File) : Bool :=
  (Archive.checkPath file.path).toOption.isSome && file.path != "ck.json" && isHex file.sha256 64 &&
    decide (file.bytes ≤ Archive.archiveMax)

/-- A text of the body that names one of the files. -/
def checkFile (m : Manifest F) (value : Json F) : Except Refusal Unit :=
  require (value.asStr.any fun path => (m.files.map (·.path)).contains path) (invalidManifest "body")

def uniqueStrings (value : Json F) (check : String → Bool) : Bool :=
  match readStrings value with
  | none => false
  | some texts => texts.all check && decide texts.Nodup

/-- A text of the body that names a required package. -/
def checkRef (m : Manifest F) (value : Json F) (field : String) : Except Refusal Unit :=
  match value.asStr.filter canonicalName with
  | none => .error (invalidManifest field)
  | some pkg => require (m.requires.packages.has pkg) (.at .bodyRefMissing field)

def allowedKeys : Kind → List String
  | .skill => ["entry","audience","scripts"]
  | .flow => ["manifest","script"]
  | .persona => ["prompt","extends","implements","delegates_to","capabilities","routing","activation","skills",
      "flows","memory_profile"]
  | .memoryProfile => []

def checkSkill (m : Manifest F) (body : Json F) : Except Refusal Unit := do
  checkFile m (body.field "entry")
  require ((body.field "audience").asStr.any fun text => text == "user" || text == "developer")
    (invalidManifest "body.audience")
  match (body.field "scripts").asArray with
  | none => .error (invalidManifest "body.scripts")
  | some scripts => scripts.forM fun script => do
    checkFile m (script.field "path")
    require ((script.field "runs_with").asStr.any (fun text => !text.isEmpty) &&
      script.members.any (fun fields => fields.length == 2)) (invalidManifest "body.scripts")

def checkFlow (m : Manifest F) (body : Json F) : Except Refusal Unit := do
  checkFile m (body.field "manifest")
  checkFile m (body.field "script")

def checkPersona (m : Manifest F) (body : Json F) : Except Refusal Unit := do
  checkFile m (body.field "prompt")
  require (uniqueStrings (body.field "implements") contractId) (invalidManifest "body.implements")
  require (uniqueStrings (body.field "skills") canonicalName && uniqueStrings (body.field "flows") canonicalName)
    (invalidManifest "body.skills/flows")
  let capabilities := body.field "capabilities"
  require (capabilities.members.any (fun fields => fields.length == 2) &&
      uniqueStrings (capabilities.field "required") capabilityToken &&
      uniqueStrings (capabilities.field "optional") capabilityToken) (invalidManifest "body.capabilities")
  require ((body.get? "routing").all Json.isObject &&
      (body.get? "activation").all fun value => value.asArray.any fun items => items.all Json.isObject)
    (invalidManifest "body.routing/activation")
  ["extends","memory_profile"].forM fun field => match body.get? field with
    | none => .ok ()
    | some value => checkRef m value field
  ["skills","flows"].forM fun field => match (body.field field).asArray with
    | none => .error (invalidManifest field)
    | some items => items.forM fun value => checkRef m value field
  match (body.field "delegates_to").members with
  | none => .error (invalidManifest "body.delegates_to")
  | some delegates => delegates.forM fun f => do
    require (contractId f.1) (invalidManifest "body.delegates_to")
    if f.2.isNull then .ok () else checkRef m f.2 "delegates_to"

def checkBody (m : Manifest F) : Except Refusal Unit :=
  match m.body.json.members with
  | none => .error (invalidManifest "body")
  | some fields =>
    if m.kind = .memoryProfile then .ok ()
    else if ¬ fields.all (fun f => (allowedKeys m.kind).contains f.1) then .error (invalidManifest "body")
    else match m.kind with
      | .skill => checkSkill m m.body.json
      | .flow => checkFlow m m.body.json
      | .persona => checkPersona m m.body.json
      | .memoryProfile => .ok ()

def validateManifest (value : Json F) : Except Refusal (Manifest F) :=
  match readManifest value with
  | none => .error (invalidManifest "json")
  | some m => do
    require (!(m.summary.isEmpty || m.license.isEmpty)) (invalidManifest "summary/license")
    require (sourceUrl m.source) (invalidManifest "source")
    require (decide m.requires.capabilities.Nodup) (invalidManifest "requires.capabilities")
    require (m.schema == "ck-package/v1") (invalidManifest "schema")
    require (canonicalName m.name) (invalidManifest "name")
    require (Semver.Version.parse m.version).isSome (invalidManifest "version")
    require (m.requires.capabilities.all capabilityToken) (invalidManifest "requires.capabilities")
    require (m.requires.packages.rows.all fun p => canonicalName p.1 && (Semver.Range.parse p.2).isSome)
      (invalidManifest "requires.packages")
    require (m.files.all fileValid && decide (m.files.map (·.path)).Nodup &&
      decide (m.files.map fun file => Utf8.asciiLower file.path).Nodup) (invalidManifest "files")
    checkBody m
    return m

variable [Floats F]

/-- The value of a member that is a JSON text. -/
def parseMember (bytes : Utf8.Bytes) : Option (Json F) :=
  (Utf8.decode bytes).bind fun chars => Json.parseStrict (String.ofList chars)

def manifestValue (bytes : Utf8.Bytes) : Except Refusal (Json F) :=
  match parseMember bytes with
  | none => .error (invalidManifest "json")
  | some value => .ok value

def parseManifest (bytes : Utf8.Bytes) : Except Refusal (Manifest F) := do
  validateManifest (← manifestValue bytes)

end Entorhinal.Package
