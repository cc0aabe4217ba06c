import Entorhinal.Signed

/-! The statuses of package versions: verifying one, comparing it with the one that is held
and applying a feed of them. -/
namespace Entorhinal.Package

open Json (Floats)

def State.ofText : String → Option State
  | "available" => some .available
  | "withdrawn" => some .withdrawn
  | "tombstoned" => some .tombstoned
  | "revoked" => some .revoked
  | _ => none

structure StatusRecord where
  schema : String
  registryKeyId : String
  name : String
  version : String
  archiveSha256 : String
  publisherKey : String
  sequence : Nat
  state : State
  reason : Option String
  compromiseFrom : Option String
  publishedAt : String
  changedAt : String
deriving DecidableEq, Repr

structure Pin where
  name : String
  version : String
  archiveSha256 : String
deriving DecidableEq, Repr

structure StatusKey where
  keyId : String
  publicKey : String
  validFrom : Option String
deriving DecidableEq, Repr

def statusFields : List String :=
  ["schema","registry_key_id","name","version","archive_sha256","publisher_key","sequence","state","reason",
    "compromise_from","published_at","changed_at"]

section Parse
variable {F : Type}

def optionalStr : Json F → Option (Option String)
  | .null => some none
  | .string text => some (some text)
  | _ => none

def statusOf (str : String → Option String) (state : Option State) (reason compromiseFrom : Option (Option String))
    (sequence : Nat) : Option StatusRecord := do
  return {
    schema := ← str "schema"
    registryKeyId := ← str "registry_key_id"
    name := ← str "name"
    version := ← str "version"
    archiveSha256 := ← str "archive_sha256"
    publisherKey := ← str "publisher_key"
    sequence := sequence
    state := ← state
    reason := ← reason
    compromiseFrom := ← compromiseFrom
    publishedAt := ← str "published_at"
    changedAt := ← str "changed_at" }

/-- The record of a document, its sequence put in as the integer it is. -/
def readStatus (s : Json F) (sequence : Nat) : Option StatusRecord :=
  (s.structGet statusFields).bind fun get =>
    statusOf (fun key => (get key).bind Json.asStr) ((get "state").bind (Json.variant State.ofText))
      (optionalStr ((get "reason").getD .null)) (optionalStr ((get "compromise_from").getD .null)) sequence

variable [Floats F]

def someStr (value : Json F) (holds : String → Bool) : Bool := value.asStr.any holds

/-- The checks of a status that its fields have the right form. -/
def checkStatus (s : Json F) (state : State) : Except Refusal Unit :=
  let invalid := Refusal.at .statusInvalid
  if ¬ (if state = .available then (s.field "reason").isNull || (s.field "reason").asStr.isSome
      else someStr (s.field "reason") fun text => !text.isEmpty) then .error (invalid "reason")
  else if ¬ (if state = .revoked then someStr (s.field "compromise_from") time
      else (s.field "compromise_from").isNull) then .error (invalid "compromise_from")
  else if ¬ someStr (s.field "published_at") time then .error (invalid "published_at")
  else if ¬ someStr (s.field "changed_at") time then .error (invalid "changed_at")
  else if ¬ (someStr (s.field "archive_sha256") (isHex · 64) && someStr (s.field "publisher_key") (isHex · 64)) then
    .error (invalid "digest")
  else if ¬ someStr (s.field "registry_key_id") (fun text => !text.isEmpty) then .error (invalid "registry_key_id")
  else if ¬ someStr (s.field "name") canonicalName then .error (invalid "name")
  else if ¬ someStr (s.field "version") (fun text => (Semver.Version.parse text).isSome) then
    .error (invalid "version")
  else .ok ()

/-- A status text gives its record and its canonical text. -/
def parseStatus (F : Type) [Floats F] (text : String) : Except Refusal (StatusRecord × String) := do
  let s : Json F ← shape text "ck-status/v1" statusFields [] .statusInvalid
  match (s.field "state").variant State.ofText with
  | none => .error (.at .statusInvalid "state")
  | some state => match positive (s.field "sequence") with
    | none => .error (.at .statusInvalid "sequence")
    | some sequence =>
      checkStatus s state
      match readStatus s sequence with
      | none => .error (.at .statusInvalid "json")
      | some record => return (record,s.jcsText)

end Parse

/-- A status that the caller accepted, with its signer's place in the chain of keys. It was
read from a text, so its canonical text is that of its record. -/
structure HeldStatus (F : Type) [Floats F] where
  record : StatusRecord
  canonical : String
  signerIndex : Nat
  bundleAttested : Bool
  parsed : ∃ text, parseStatus F text = .ok (record,canonical)

theorem parseStatus_found {F : Type} [Floats F] {text : String} {record : StatusRecord} {canonical : String}
    (parsed : parseStatus F text = .ok (record,canonical)) : ∃ text, parseStatus F text = .ok (record,canonical) :=
  ⟨text,parsed⟩

inductive Apply
  | applied
  | duplicate
deriving DecidableEq, Repr

section Compare
variable {F : Type} [Floats F]

/-- Sequence, time and signer of a status against those of the one held. A bundle sets a
missing status and advances none. -/
def compareStatus (held : Option (HeldStatus F)) (next : HeldStatus F) : Except Refusal Apply :=
  match held with
  | none => .ok .applied
  | some prior =>
    if next.record.sequence < prior.record.sequence then .error (.rollback .lowerSequence)
    else if next.record.sequence = prior.record.sequence then
      if next.canonical = prior.canonical then .ok .duplicate else .error (.rollback .sameSequenceOtherBytes)
    else if next.record.changedAt < prior.record.changedAt then .error (.rollback .changedAtRegressed)
    else if next.bundleAttested then .error (.rollback .keyEpochRegressed)
    else if ¬ prior.bundleAttested ∧ next.signerIndex < prior.signerIndex then .error (.rollback .keyEpochRegressed)
    else if ¬ prior.record.state.permits next.record.state then .error (.new .statusTerminal)
    else .ok .applied

/-- What remains to check of a status that was read: its signer and the pinned version. -/
def authenticStatus (scheme : Scheme) (record : StatusRecord) (canonical sig : String) (chain : List StatusKey)
    (pin : Pin) : Except Refusal Nat :=
  match chain.findIdx? fun k => k.keyId == record.registryKeyId with
  | none => .error (.new .keyUnknown)
  | some index =>
    let key := chain.getD index ⟨"","",none⟩
    let retirement := ((chain.drop (index + 1)).filterMap (·.validFrom)).min?
    if ¬ scheme.verifySignature key.publicKey "ck-status/v1" canonical sig then .error (.new .signatureInvalid)
    else if key.validFrom.any fun at_ => decide (record.changedAt < at_) then .error (.new .keyNotValid)
    else if retirement.any fun at_ => decide (at_ ≤ record.changedAt) then .error (.new .keyNotValid)
    else if record.name ≠ pin.name ∨ record.version ≠ pin.version ∨ record.archiveSha256 ≠ pin.archiveSha256 then
      .error (.new .recordMismatch)
    else .ok index

structure AppliedStatus (F : Type) [Floats F] where
  result : Apply
  held : HeldStatus F

def applyStatus (scheme : Scheme) (held : Option (HeldStatus F)) (text sig : String) (chain : List StatusKey)
    (pin : Pin) : Except Refusal (AppliedStatus F) :=
  match parsed : parseStatus F text with
  | .error e => .error e
  | .ok (record,canonical) => match authenticStatus scheme record canonical sig chain pin with
    | .error e => .error e
    | .ok index =>
      let next : HeldStatus F := ⟨record,canonical,index,false,parseStatus_found parsed⟩
      match compareStatus held next with
      | .error e => .error e
      | .ok .applied => .ok ⟨.applied,next⟩
      | .ok .duplicate => match held with
        | some prior => .ok ⟨.duplicate,if prior.bundleAttested then next else prior⟩
        | none => .ok ⟨.duplicate,next⟩

end Compare

structure FeedState (F : Type) [Floats F] where
  feedSeq : Option Nat
  held : Table String (HeldStatus F)

inductive FeedMode
  | full
  | after
deriving DecidableEq, Repr

inductive NextStep
  | done
  | fetchFullFeed
deriving DecidableEq, Repr

structure FeedRecord where
  id : String
  recordText : String
  signature : String
deriving DecidableEq, Repr

inductive FeedReply
  | unavailable
  | records (feedSeq : Nat) (records : List FeedRecord)
deriving DecidableEq, Repr

structure FeedOutcome (F : Type) [Floats F] where
  refusal : Option Refusal
  records : List (String × Except Refusal Apply)
  nextState : FeedState F
  nextStep : NextStep

section Feed
variable {F : Type} [Floats F]

def fallback : FeedMode → NextStep
  | .after => .fetchFullFeed
  | .full => .done

/-- One record of a feed: the held statuses after it, and how it went. -/
def feedRecord (scheme : Scheme) (chain : List StatusKey) (pins : Table String Pin)
    (held : Table String (HeldStatus F)) (r : FeedRecord) : Table String (HeldStatus F) × Except Refusal Apply :=
  match parseStatus F r.recordText with
  | .error e => (held,.error e)
  | .ok (record,_) =>
    let key := record.name ++ "@" ++ record.version
    match pins.get? key with
    | none => (held,.error (.new .recordMismatch))
    | some pin => match applyStatus scheme (held.get? key) r.recordText r.signature chain pin with
      | .error e => (held,.error e)
      | .ok applied => (held.insert key applied.held,.ok applied.result)

/-- The records of a feed in their order. -/
def feedRecords (scheme : Scheme) (chain : List StatusKey) (pins : Table String Pin) :
    Table String (HeldStatus F) → List FeedRecord →
      Table String (HeldStatus F) × List (String × Except Refusal Apply)
  | held,[] => (held,[])
  | held,r :: rest =>
    let (held,result) := feedRecord scheme chain pins held r
    let (held,results) := feedRecords scheme chain pins held rest
    (held,(r.id,result) :: results)

def isRollback : Except Refusal Apply → Bool
  | .error e => e.code == .feedRollback
  | .ok _ => false

def isAccepted : Except Refusal Apply → Bool
  | .error _ => false
  | .ok _ => true

def applyFeed (scheme : Scheme) (state : FeedState F) (mode : FeedMode) (reply : FeedReply)
    (chain : List StatusKey) (pins : Table String Pin) : FeedOutcome F :=
  match reply with
  | .unavailable => ⟨some (.new .feedAfterUnavailable),[],state,fallback mode⟩
  | .records seq records =>
    if state.feedSeq.any fun n => decide (seq < n) then
      ⟨some (.at .feedRollback "feed_seq"),[],state,fallback mode⟩
    else
      let (held,results) := feedRecords scheme chain pins state.held records
      let rollback := results.any fun r => isRollback r.2
      let feedSeq := if results.all fun r => isAccepted r.2 then some seq else state.feedSeq
      ⟨if rollback then some (.at .feedRollback "record") else none,results,⟨feedSeq,held⟩,
        if rollback then fallback mode else .done⟩

end Feed

end Entorhinal.Package
