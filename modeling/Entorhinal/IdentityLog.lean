import Entorhinal.AppendLog
import Entorhinal.Table
import Mathlib.Data.String.Basic

/-! What the transactions on a store do with the identity log: the received
entry, the assembled snapshot, and the end of a shared write. The registry's own
writes and its decoding of entry bodies are the fields of `Registry`. -/
namespace Entorhinal.IdentityLog

inductive EntryKind
  | change
  | snapshot
deriving DecidableEq, Repr

structure Body (ν : Type) where
  author : ν
  envelopeVersion : Int
  kind : EntryKind
  data : List UInt8
deriving DecidableEq, Repr

abbrev LogEntry (ν : Type) := AppendLog.Entry String (Body ν)

structure SnapshotPart (ν : Type) where
  op : String
  snapshotId : String
  part : Nat
  parts : Nat
  supersedesThrough : Option Nat
  namesMember : Bool
  memberAuthor : Option ν
deriving DecidableEq, Repr

/-- How a registry write ends inside its transaction: refused, answered from a
decided request or from the reply cache, or carried out, with or without a
shared entry. -/
inductive Outcome (σ : Type)
  | refused (code : String)
  | answered
  | cached
  | kept (tables : σ)
  | shared (tables : σ) (data : List UInt8)

structure Registry (ν σ ω : Type) where
  operate : ω → σ → Outcome σ
  decodePart : List UInt8 → Except String (SnapshotPart ν)
  validate : LogEntry ν → σ → Except String Unit
  restore : LogEntry ν → σ → Except String σ
  install : List (LogEntry ν) → Bool → σ → Except String σ
  referencesHold : σ → Bool

inductive LogState
  | disabled
  | enabling
  | joining
  | enabled
deriving DecidableEq, Repr

/-- What one journal row did: a write made here, or an entry of the log. The
first part of a snapshot carries its merged rows, the others nothing. -/
inductive Change (ν ω : Type)
  | here (op : ω)
  | entry (received : LogEntry ν)
  | snapshot (parts : List (LogEntry ν)) (supersedes : Bool)
  | part
deriving DecidableEq

structure JournalRow (ν ω : Type) where
  change : Change ν ω
  logged : Option (LogEntry ν × Nat)
deriving DecidableEq

/-- The row's origin is `here` and it carries this entry id. -/
def JournalRow.own {ν ω : Type} (row : JournalRow ν ω) (entryId : String) : Bool :=
  (row.change matches .here _) && row.logged.any fun x => x.1.id == entryId

structure Store (ν σ ω : Type) where
  state : LogState
  lastAppliedPosition : Nat
  lastSeenHead : Nat
  pendingEntry : Table String Nat
  journal : List (JournalRow ν ω)
  tables : σ

def envelopeVersion : Int := 1

def entryCap : Nat := 256 * 1024

section Transactions

variable {ν σ ω : Type}

/-- The log entries applied so far, with their positions. -/
def Store.applied (store : Store ν σ ω) : List (LogEntry ν × Nat) :=
  store.journal.filterMap (·.logged)

def Store.hasOwn (store : Store ν σ ω) (entryId : String) : Bool :=
  store.journal.any (·.own entryId)

/-- What a journal row does to the tables. -/
def Registry.effect (registry : Registry ν σ ω) (tables : σ) (row : JournalRow ν ω) : σ :=
  match row.change with
  | .here op => match registry.operate op tables with
    | .kept written => written
    | .shared written _ => written
    | _ => tables
  | .entry received => (registry.restore received tables).toOption.getD tables
  | .snapshot parts supersedes => (registry.install parts supersedes tables).toOption.getD tables
  | .part => tables

def Store.finishJoin (store : Store ν σ ω) (head : Nat) : Store ν σ ω :=
  if store.state = .joining ∧ store.lastAppliedPosition = head then { store with state := .enabled }
  else store

/-- A position is passed: it decides every attempt that expected an older head. -/
def Store.advance (store : Store ν σ ω) (position : Nat) : Store ν σ ω :=
  let seen := max store.lastSeenHead position
  let passed := { store with lastAppliedPosition := position, lastSeenHead := seen }.finishJoin seen
  { passed with pendingEntry := passed.pendingEntry.filter fun _ head => position ≤ head }

/-- One entry's part of a transaction: its journal row, unless it was committed
here before, and its position. -/
def Store.write (store : Store ν σ ω) (change : Change ν ω) (tables : σ) (entry : LogEntry ν)
    (position : Nat) : Store ν σ ω :=
  if store.hasOwn entry.id then store.advance position
  else
    let written : Store ν σ ω := { store with
      journal := store.journal ++ [⟨change,some (entry,position)⟩]
      tables := tables }
    written.advance position

/-- `apply_remote_entry`. -/
def applyRemoteEntry (registry : Registry ν σ ω) (store : Store ν σ ω) (entry : LogEntry ν)
    (position : Nat) : Except String (Store ν σ ω) := do
  if entry.body.envelopeVersion ≠ envelopeVersion then .error "unknown envelope_version"
  else
    registry.validate entry store.tables
    if position ≠ store.lastAppliedPosition + 1 then .error "entry is not the next log position"
    else
      let tables ← if store.hasOwn entry.id then .ok store.tables
        else registry.restore entry store.tables
      let written := store.write (.entry entry) tables entry position
      if registry.referencesHold written.tables then .ok written
      else .error "shared after-image violates a foreign key"

def snapshotPart [DecidableEq ν] (registry : Registry ν σ ω) (entry : LogEntry ν) :
    Except String (SnapshotPart ν) := do
  let part ← registry.decodePart entry.body.data
  if entry.body.kind ≠ .snapshot ∨ entry.body.envelopeVersion ≠ envelopeVersion ∨
      part.op ≠ "shared.snapshot" ∨ part.snapshotId = "" ∨ part.part = 0 ∨ part.parts = 0 ∨
      part.parts < part.part ∨ (part.part ≠ 1 ∧ part.namesMember) ∨
      part.memberAuthor.any (· ≠ entry.body.author) then
    .error "invalid snapshot part"
  else .ok part

/-- The last position a complete snapshot replaces; `position` is its first part's. -/
def snapshotSupersedesThrough [DecidableEq ν] (registry : Registry ν σ ω) (position : Nat)
    (entries : List (LogEntry ν)) : Except String (Option Nat) := do
  let parts ← entries.mapM (snapshotPart registry)
  match parts with
  | [] => .ok none
  | first :: _ =>
    if parts.any fun part => part.supersedesThrough ≠ first.supersedesThrough then
      .error "supersede invariant: parts disagree on supersedes_through"
    else match first.supersedesThrough with
      | none => .ok none
      | some through =>
        if position < 1 ∨ through ≠ position - 1 then
          .error "supersede invariant: boundary is not the preceding position"
        else .ok (some through)

/-- The parts are one snapshot's, all of them and in order. -/
def completeSnapshot (parts : List (SnapshotPart ν)) (first : SnapshotPart ν) : Bool :=
  first.parts == parts.length && (parts.zipIdx 1).all fun x =>
    x.1.snapshotId == first.snapshotId && x.1.parts == first.parts && x.1.part == x.2

/-- The rows of a snapshot's parts, the first of which carries the merged rows. -/
def Store.writeParts (store : Store ν σ ω) (supersedes : Bool) (tables : σ)
    (entries : List (LogEntry ν)) (position : Nat) : Store ν σ ω :=
  match entries with
  | [] => store
  | entry :: rest => (rest.zipIdx (position + 1)).foldl
      (fun written x => written.write .part written.tables x.1 x.2)
      (store.write (.snapshot entries supersedes) tables entry position)

/-- A store without the log starts to join it at the head it observed. -/
def Store.join (store : Store ν σ ω) (head : Nat) : Store ν σ ω :=
  let joined := if store.state = .disabled then { store with state := .joining, lastSeenHead := head }
    else store
  joined.finishJoin head

/-- `install_snapshot`: all parts in one transaction; `joinHead` is the head a
joining store has observed. -/
def installSnapshot [DecidableEq ν] (registry : Registry ν σ ω) (store : Store ν σ ω)
    (entries : List (LogEntry ν)) (position : Nat) (joinHead : Option Nat) :
    Except String (Store ν σ ω) := do
  let parts ← entries.mapM (snapshotPart registry)
  let supersedes ← snapshotSupersedesThrough registry position entries
  match parts with
  | [] => .error "empty snapshot"
  | first :: _ =>
    if !completeSnapshot parts first then .error "snapshot parts are not complete and ordered"
    else if position ≠ store.lastAppliedPosition + 1 then .error "snapshot positions are not contiguous"
    else
      let tables ← registry.install entries supersedes.isSome store.tables
      if !registry.referencesHold tables then .error "shared after-image violates a foreign key"
      else
        let installed := store.writeParts supersedes.isSome tables entries position
        .ok (joinHead.elim installed installed.join)

/-- `finish` after a receipt, in the transaction that made the write. -/
def Store.commitOwn (store : Store ν σ ω) (op : ω) (tables : σ) (entry : LogEntry ν)
    (position : Nat) : Store ν σ ω where
  state := store.state
  lastAppliedPosition := position
  lastSeenHead := max store.lastSeenHead position
  pendingEntry := (store.pendingEntry.filter fun _ head => position ≤ head).erase entry.id
  journal := store.journal ++ [⟨.here op,some (entry,position)⟩]
  tables := tables

end Transactions
end Entorhinal.IdentityLog
