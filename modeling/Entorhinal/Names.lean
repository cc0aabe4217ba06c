import Entorhinal.PackageTypes
import Entorhinal.Semver
import Entorhinal.Utf8

/-! The names of packages: a scope and a name in lower case, and the identifier they are
bound to, which a digest shortens. -/
namespace Entorhinal.Package

open Utf8 (Bytes)

def scopeMax : Nat := 39
def packageNameMax : Nat := 64
def basalIdMax : Nat := 46

/-- The hash and the signatures that documents are checked with. -/
structure Scheme where
  sha256 : Bytes → Bytes
  sha256_length : ∀ bytes, (sha256 bytes).length = 32
  verifyStrict : (publicKey message signature : Bytes) → Bool

def hex (bytes : Bytes) : String :=
  String.ofList (bytes.flatMap fun b => [Nat.digitChar (b.toNat / 16),Nat.digitChar (b.toNat % 16)])

def Scheme.sha256Hex (scheme : Scheme) (bytes : Bytes) : String := hex (scheme.sha256 bytes)

def isHexDigit (c : Char) : Bool := c.isDigit || (decide ('a' ≤ c) && decide (c ≤ 'f'))

def isHex (text : String) (length : Nat) : Bool := text.toList.length == length && text.toList.all isHexDigit

def hexValue (c : Char) : Nat := if c.isDigit then c.toNat - 48 else c.toNat - 97 + 10

def hexBytes : List Char → Bytes
  | high :: low :: rest => UInt8.ofNat (hexValue high * 16 + hexValue low) :: hexBytes rest
  | _ => []

def decodeHex (length : Nat) (text : String) : Option Bytes :=
  if isHex text (length * 2) then some (hexBytes text.toList) else none

def Scheme.keyFingerprint (scheme : Scheme) (publicKey : String) : Option String :=
  (decodeHex 32 publicKey).map scheme.sha256Hex

def signingInput (domain canonical : String) : Bytes := Utf8.asBytes domain ++ 0 :: Utf8.asBytes canonical

def Scheme.verifySignature (scheme : Scheme) (publicKey domain canonical signature : String) : Bool :=
  match decodeHex 32 publicKey,decodeHex 64 signature with
  | some key,some sig => scheme.verifyStrict key (signingInput domain canonical) sig
  | _,_ => false

inductive NamePart
  | whole
  | scope
  | name
deriving DecidableEq, Repr

structure NameError where
  code : RefusalCode
  part : NamePart
deriving DecidableEq, Repr

inductive IdForm
  | short
  | hashed
deriving DecidableEq, Repr

structure MappedName where
  canonical : String
  scope : String
  name : String
  short : String
  shortBytes : Nat
  sha256 : String
  form : IdForm
  id : String
deriving DecidableEq, Repr

/-- Words of lower case letters and digits with one hyphen between them. -/
def isPart (text : List Char) : Bool :=
  !text.isEmpty && (text.splitOn '-').all fun word => !word.isEmpty && word.all fun c => c.isLower || c.isDigit

/-- The scope and the name of an input in lower case. -/
def splitName (lowered : List Char) : Except NameError (List Char × List Char) :=
  match lowered with
  | '@' :: rest => match Semver.splitOnce '/' rest with
    | none => .error ⟨.nameInvalid,.whole⟩
    | some (scope,name) =>
      if name.contains '/' then .error ⟨.nameInvalid,.whole⟩
      else if !isPart scope || decide (scopeMax < scope.length) then .error ⟨.nameInvalid,.scope⟩
      else if !isPart name || decide (packageNameMax < name.length) then .error ⟨.nameInvalid,.name⟩
      else .ok (scope,name)
  | _ => .error ⟨.nameInvalid,.whole⟩

def MappedName.of (scheme : Scheme) (lowered : String) (parts : List Char × List Char) : MappedName :=
  let short := parts.1 ++ '-' :: '-' :: parts.2
  let digest := scheme.sha256Hex (Utf8.asBytes lowered)
  let hashed := decide (basalIdMax < short.length)
  { canonical := lowered
    scope := String.ofList parts.1
    name := String.ofList parts.2
    short := String.ofList short
    shortBytes := short.length
    sha256 := digest
    form := if hashed then .hashed else .short
    id := if hashed then String.ofList (short.take 29 ++ '_' :: digest.toList.take 16) else String.ofList short }

def mapName (scheme : Scheme) (input : String) : Except NameError MappedName :=
  (splitName (Utf8.asciiLower input).toList).map (MappedName.of scheme (Utf8.asciiLower input))

/-- A name that is its own canonical form. -/
def canonicalName (text : String) : Bool :=
  (splitName (Utf8.asciiLower text).toList).toOption.isSome && Utf8.asciiLower text == text

theorem canonicalName_mapName (scheme : Scheme) (text : String) :
    canonicalName text = true ↔ ∃ mapped, mapName scheme text = .ok mapped ∧ mapped.canonical = text := by
  unfold canonicalName mapName
  cases splitName (Utf8.asciiLower text).toList with
  | error e => exact iff_of_false (fun holds => by cases holds) (fun ⟨_,mapped,_⟩ => by cases mapped)
  | ok parts =>
    rw [Bool.and_eq_true,beq_iff_eq]
    constructor
    · rintro ⟨_,same⟩
      exact ⟨_,rfl,same⟩
    · rintro ⟨_,mapped,same⟩
      obtain rfl := Except.ok.inj mapped
      exact ⟨rfl,same⟩

end Entorhinal.Package
