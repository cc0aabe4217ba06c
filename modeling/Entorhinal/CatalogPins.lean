import Mathlib.Data.List.Sort
import Mathlib.Data.String.Basic
import Entorhinal.Table
import Entorhinal.Traverse

/-! Package identities of the catalog: an agent's pins, their digest, the signed
statuses that block a version, and the facts kept with an installed set. A digest
stands for the canonical text it is the hash of; hashes are taken not to collide. -/
namespace Entorhinal.Catalog

inductive CatalogWriteError
  | refused (code : String)
  | store
deriving DecidableEq, Repr

inductive Kind
  | persona
  | skill
  | flow
  | memoryProfile
deriving DecidableEq, Repr

structure CatalogPin where
  name : String
  version : String
  kind : Kind
  manifestSha256 : String
  archiveSha256 : String
  publisherFingerprint : String
  root : Bool
  range : Option String
deriving DecidableEq, Repr

/-- The syntax of package names, versions and ranges, and the JSON values that have
a canonical form. -/
structure Rules where
  canonicalName : String → Bool
  version : String → Bool
  range : String → Bool
  canonicalJson : String → Bool

structure CatalogKindSlotConflict where
  kind : Kind
  held : String
  requested : String
deriving DecidableEq, Repr

/-- The root names of a kind, in order and once each. -/
def rootNames (pins : List CatalogPin) (kind : Kind) : List String :=
  ((pins.filter fun pin => pin.root && pin.kind == kind).map (·.name)).dedup.insertionSort (· ≤ ·)

def kindSlotConflictOf (pins : List CatalogPin) (requested : String) (kind : Kind) :
    Option CatalogKindSlotConflict :=
  let roots := rootNames pins kind
  match roots.find? (· ≠ requested) with
  | none => none
  | some held =>
    if requested ∈ roots then some ⟨kind,held,requested⟩
    else roots[1]?.map fun second => ⟨kind,held,second⟩

def kindSlotConflict (pins : List CatalogPin) (requested : String) : Option CatalogKindSlotConflict :=
  [Kind.memoryProfile,Kind.persona].findSome? (kindSlotConflictOf pins requested)

def isHex (length : Nat) (text : String) : Bool :=
  text.length == length && text.toList.all fun c => c.isDigit || ('a' ≤ c && c ≤ 'f')

def validPin (rules : Rules) (pin : CatalogPin) : Bool :=
  rules.canonicalName pin.name && rules.version pin.version && isHex 64 pin.manifestSha256 &&
    isHex 64 pin.archiveSha256 && isHex 64 pin.publisherFingerprint && pin.root == pin.range.isSome &&
    pin.range.all rules.range

def validatePins (rules : Rules) (pins : List CatalogPin) : Except CatalogWriteError Unit :=
  if (pins.map (·.name)).Nodup ∧ pins.all (validPin rules) = true then .ok () else .error .store

def sortPins (pins : List CatalogPin) : List CatalogPin := pins.insertionSort (·.name ≤ ·.name)

/-- What the digest covers: agent, kind and local ids are left out. -/
structure PinIdentity where
  name : String
  version : String
  manifestSha256 : String
  archiveSha256 : String
  publisherFingerprint : String
  root : Bool
  range : Option String
deriving DecidableEq, Repr

abbrev PinDigest : Type := List PinIdentity

def CatalogPin.identity (pin : CatalogPin) : PinIdentity :=
  ⟨pin.name,pin.version,pin.manifestSha256,pin.archiveSha256,pin.publisherFingerprint,pin.root,pin.range⟩

def pinDigest (rules : Rules) (pins : List CatalogPin) : Except CatalogWriteError PinDigest := do
  validatePins rules pins
  return (sortPins pins).map (·.identity)

inductive VersionState
  | available
  | withdrawn
  | tombstoned
  | revoked
deriving DecidableEq, Repr

structure StatusRecord where
  registryKeyId : String
  name : String
  version : String
  archiveSha256 : String
  publisherKey : String
  sequence : Nat
  state : VersionState
  reason : Option String
  compromiseFrom : Option String
  publishedAt : String
  changedAt : String
deriving DecidableEq, Repr

/-- Only a publication strictly before the compromise keeps a revoked version. -/
def revokedAt (publishedAt compromiseFrom : String) : Bool := decide (compromiseFrom ≤ publishedAt)

def statusBlocks (status : StatusRecord) : Bool :=
  match status.state with
  | .tombstoned => true
  | .revoked => revokedAt status.publishedAt (status.compromiseFrom.getD "")
  | _ => false

/-- The accepted status of each version of each package. -/
abbrev Statuses : Type := Table String (Table String StatusRecord)

def Statuses.of (statuses : Statuses) (pin : CatalogPin) : Option StatusRecord :=
  (statuses.get? pin.name).bind (·.get? pin.version)

/-- The statuses of a closure as they were read, by package name. -/
abbrev StatusSnapshot : Type := List (String × Option StatusRecord)

def statusSnapshot (statuses : Statuses) (pins : List CatalogPin) : StatusSnapshot :=
  pins.map fun pin => (pin.name,statuses.of pin)

def pinStatuses (statuses : Statuses) (pins : List CatalogPin) : List StatusRecord :=
  (pins.filterMap statuses.of).filter (·.state ≠ .available)

def blockedStatus (statuses : Statuses) (pins : List CatalogPin) : Option StatusRecord :=
  (pinStatuses statuses pins).find? statusBlocks

structure PreparedPackage where
  pin : CatalogPin
  trust : String
  capabilities : List String
  hasScripts : Bool
  rootCertified : Bool
deriving DecidableEq, Repr

structure ConsumerCheck where
  moduleId : String
  kinds : List Kind
  cardSection : String
deriving DecidableEq, Repr

/-- `moves` is a JSON value that is only stored. -/
structure PreparedPlan where
  packages : List PreparedPackage
  moves : String
  checks : List ConsumerCheck
deriving DecidableEq, Repr

structure CatalogPublisherFact where
  name : String
  fingerprint : String
  scope : String
  firstParty : Bool
deriving DecidableEq, Repr

def scopeOf (name : String) : String :=
  if name.toList.contains '/' then String.ofList (name.toList.takeWhile (· ≠ '/')) else ""

def publisherFacts (pins : List CatalogPin) (prepared : Option PreparedPlan) : List CatalogPublisherFact :=
  pins.map fun pin =>
    let scope := scopeOf pin.name
    ⟨pin.name,pin.publisherFingerprint,scope,scope == "@cortexkit" && prepared.any fun detail =>
      detail.packages.any fun package => package.pin.name == pin.name &&
        package.pin.publisherFingerprint == pin.publisherFingerprint && package.rootCertified⟩

/-- A blocked package is one with a status that blocks it. -/
theorem blockedStatus_isSome {statuses : Statuses} {pins : List CatalogPin} :
    (blockedStatus statuses pins).isSome = true ↔
      ∃ pin ∈ pins, ∃ status, statuses.of pin = some status ∧ statusBlocks status = true := by
  simp only [blockedStatus,List.find?_isSome,pinStatuses,List.mem_filter,List.mem_filterMap,
    decide_eq_true_eq]
  constructor
  · rintro ⟨status,⟨⟨pin,member,found⟩,_⟩,blocks⟩
    exact ⟨pin,member,status,found,blocks⟩
  · rintro ⟨pin,member,status,found,blocks⟩
    refine ⟨status,⟨⟨pin,member,found⟩,?_⟩,blocks⟩
    intro available
    simp [statusBlocks,available] at blocks

theorem blockedStatus_some {statuses : Statuses} {pins : List CatalogPin} {status : StatusRecord}
    (blocked : blockedStatus statuses pins = some status) :
    ∃ pin ∈ pins, statuses.of pin = some status ∧ statusBlocks status = true := by
  have member := List.mem_of_find?_eq_some blocked
  have blocks := List.find?_some blocked
  obtain ⟨pin,inside,found⟩ := List.mem_filterMap.mp (List.mem_filter.mp member).1
  exact ⟨pin,inside,found,blocks⟩

/-- Fewer pins block less. -/
theorem blockedStatus_none {statuses : Statuses} {pins fewer : List CatalogPin} (inside : fewer ⊆ pins)
    (unblocked : blockedStatus statuses pins = none) : blockedStatus statuses fewer = none := by
  rw [← Option.not_isSome_iff_eq_none,blockedStatus_isSome] at unblocked ⊢
  rintro ⟨pin,member,blocks⟩
  exact unblocked ⟨pin,inside member,blocks⟩

end Entorhinal.Catalog
