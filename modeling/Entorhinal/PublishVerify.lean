import Entorhinal.ArchiveLaw
import Entorhinal.PublishLaw

/-! A package the publisher's checks accept, under its signed record: the client verifies it
exactly where its manifest is an object, and a flow is named by its word and numbered by an
integer literal. -/
namespace Entorhinal.Package

open Json (Floats Value)
open Utf8 (Bytes)

section
variable {F : Type} [Floats F]

/-- The first of the keys is the signer's; it was never revoked and covers the publication. -/
def Trust.Trusts (trust : Trust) (publicKey : String) : Prop :=
  ∃ key, (trust.keys.find? fun k => k.publicKey == publicKey) = some key ∧ key.revocation = none ∧
    (∀ moment, trust.publishedAt = some moment → key.covers moment = true) ∧
    (trust.publishedAt = none → key.validUntil = none)

/-- The member of a package that is its manifest. -/
def manifestMember (archive : Bytes) : Option Bytes :=
  (Archive.read archive).toOption.bind fun members => members.get? "ck.json"

/-- The manifest is an object; a flow has its kind as a word and its version as an integer
literal. -/
def PlainlySpelled (F : Type) [Floats F] (archive : Bytes) : Prop :=
  ∀ members manifestBytes, ∀ value : Json F, Archive.read archive = .ok members →
    members.get? "ck.json" = some manifestBytes → parseMember manifestBytes = some value →
    value.isObject = true ∧
      ((value.field "kind").variant Kind.ofText = some .flow → (value.field "kind").asStr = some "flow" ∧
        ∀ flow : Json F,
          (members.get? (((value.field "body").field "manifest").asStr.getD "")).bind parseMember = some flow →
          (flow.field "version").asU64.isSome = true)

variable {scheme : Scheme} {archive : Bytes} {checked : CheckedArchive F} {members : Table String Bytes}
  {manifestBytes : Bytes} {value : Json F} {id publicKey sig : String} {trust : Trust}

omit [Floats F] in
theorem checkKey_trusted (trusted : trust.Trusts publicKey) : checkKey trust publicKey = .ok () := by
  obtain ⟨key,first,never,covers,open_⟩ := trusted
  have window : ((trust.publishedAt.any fun moment => !key.covers moment) ||
      (trust.publishedAt.isNone && key.validUntil.isSome)) = false := by
    cases published : trust.publishedAt with
    | none => rw [open_ published]; rfl
    | some moment =>
      have inside := covers moment published
      simp [inside]
  rw [checkKey,first]
  dsimp only
  rw [never,if_neg (by simp),if_neg (by rw [window]; exact Bool.false_ne_true)]

omit [Floats F] in
theorem Record.fields (r : Record F) :
    r.value.field "name" = .string r.name ∧ r.value.field "version" = .string r.version ∧
      r.value.field "manifest_sha256" = .string r.manifestSha256 ∧
      r.value.field "archive_sha256" = .string r.archiveSha256 ∧
      r.value.field "archive_bytes" = jsonNat r.archiveBytes ∧
      r.value.field "public_key" = .string r.publicKey ∧
      r.value.get? "flow_version" = r.flowVersion.map jsonNat := by
  rw [r.value_rows]
  unfold Record.rows
  cases r.flowVersion <;> exact ⟨rfl,rfl,rfl,rfl,rfl,rfl,rfl⟩

theorem archive_filled (read : Archive.read archive = .ok members) : 1 ≤ archive.length := by
  cases archive with
  | nil =>
    obtain ⟨_,opened,_⟩ := bind_ok read
    have short : Archive.turn [] 0 ∅ ∅ = .error (.new .terminatorMissing (some 0)) := rfl
    rw [Archive.readMembers,if_neg (by decide),Archive.readFrom] at opened
    split at opened
    next => cases opened
    next same => rw [short] at same; cases same
    next same => rw [short] at same; cases same
  | cons b rest => exact Nat.succ_pos _

/-- The form of the record is right. -/
theorem Accepted.checkRecord (a : Accepted scheme archive checked members manifestBytes value id)
    (key : isHex publicKey 64 = true) :
    checkRecord scheme (checked.record publicKey).value = .ok (archive.length,id) := by
  obtain ⟨name,version,manifest_sha,archive_sha,bytes,public_key,flow⟩ := (checked.record publicKey).fields
  obtain ⟨_,canonical,parses,_⟩ := validateManifest_ok a.valid
  obtain ⟨mapped,named,rfl⟩ := a.named
  have written : (checked.record publicKey).Written := a.written
  have text : (Json.string (F := F) (checked.record publicKey).name).asStr.filter canonicalName =
      some checked.manifest.name := Option.filter_some_pos canonical
  have digests : (["manifest_sha256","archive_sha256","public_key"].find? fun f =>
      !someStr ((checked.record publicKey).value.field f) (isHex · 64)) = none := by
    rw [List.find?_eq_none]
    intro f member
    have hexed : someStr ((checked.record publicKey).value.field f) (isHex · 64) = true := by
      simp only [List.mem_cons,List.not_mem_nil,or_false] at member
      rcases member with rfl | rfl | rfl
      · rw [manifest_sha]
        show isHex checked.manifestSha256 64 = true
        rw [a.manifestSha256]
        exact isHex_sha256 scheme _
      · rw [archive_sha]
        show isHex checked.archiveSha256 64 = true
        rw [a.archiveSha256]
        exact isHex_sha256 scheme _
      · rw [public_key]
        exact key
    rw [hexed]
    exact Bool.false_ne_true
  have length : (positive ((checked.record publicKey).value.field "archive_bytes")).filter
      (fun n => decide (n ≤ Archive.archiveMax)) = some archive.length := by
    have same : (checked.record publicKey).archiveBytes = archive.length := a.archiveBytes
    rw [bytes,positive_jsonNat (same ▸ archive_filled a.read) written.bytes,same]
    exact Option.filter_some_pos (decide_eq_true a.small)
  have numbered : ((checked.record publicKey).value.get? "flow_version").any (fun v => (positive v).isNone) = false := by
    rw [flow]
    by_cases kind : checked.manifest.kind = .flow
    · obtain ⟨n,version,same⟩ := a.flow kind
      obtain ⟨_,_,_,read⟩ := checkFlowVersion_ok version
      obtain ⟨some_,small⟩ := positive_bounds read
      rw [show (checked.record publicKey).flowVersion = some n from same]
      simp [positive_jsonNat some_ small]
    · rw [show (checked.record publicKey).flowVersion = none from a.other kind]
      rfl
  have versioned : someStr ((checked.record publicKey).value.field "version")
      (fun text => (Semver.Version.parse text).isSome) = true := by
    rw [version]
    exact parses
  unfold Package.checkRecord
  rw [name,text]
  dsimp only
  rw [named]
  dsimp only
  rw [if_neg (not_not.mpr versioned),digests]
  dsimp only
  rw [length]
  dsimp only
  rw [numbered,if_neg Bool.false_ne_true]

theorem Accepted.trustedRecord (a : Accepted scheme archive checked members manifestBytes value id)
    (signed : scheme.verifySignature publicKey "ck-record/v1" (checked.record publicKey).text sig = true)
    (trusted : trust.Trusts publicKey) :
    trustedRecord scheme (checked.record publicKey).text sig trust =
      .ok ((checked.record publicKey).value,(checked.record publicKey).text,archive.length,id) := by
  have public_key := (checked.record publicKey).fields.2.2.2.2.2.1
  unfold Package.trustedRecord
  rw [a.written.shaped]
  show (Package.checkRecord scheme (checked.record publicKey).value >>= _) = _
  rw [a.checkRecord (isHex_signer signed)]
  simp only [bind,Except.bind]
  rw [public_key]
  show (require (scheme.verifySignature publicKey "ck-record/v1" (checked.record publicKey).text sig) _ >>= _) = _
  rw [require_ok.mpr signed]
  show (checkKey trust publicKey >>= _) = _
  rw [checkKey_trusted trusted]
  rfl

theorem Accepted.flow_positive (a : Accepted scheme archive checked members manifestBytes value id) :
    ∀ n ∈ (checked.record publicKey).flowVersion, 1 ≤ n := by
  intro n present
  by_cases kind : checked.manifest.kind = .flow
  · obtain ⟨m,version,same⟩ := a.flow kind
    obtain ⟨_,_,_,read⟩ := checkFlowVersion_ok version
    rw [CheckedArchive.record,same] at present
    obtain rfl := Option.some.inj present
    exact (positive_bounds read).1
  · rw [CheckedArchive.record,a.other kind] at present
    cases present

omit [Floats F] in
theorem asU64_jsonNat {n : Nat} (small : n ≤ Json.maxSafe) :
    (jsonNat (F := F) n).asU64.map Fin.val = some n := by
  simp only [Json.maxSafe] at small
  rw [jsonNat,Json.asU64,Option.map_some,Fin.val_ofNat,Nat.mod_eq_of_lt (by omega)]

/-- The numbers of a written record are the integers they are. -/
theorem Record.Written.settled {r : Record F} (written : r.Written) (above : ∀ n ∈ r.flowVersion, 1 ≤ n) :
    settled r.value r.archiveBytes = r.value := by
  have sorted : r.value.Sorted := by
    rw [r.value_rows]
    refine ⟨List.pairwise_map.mp r.rows_sorted,Json.sortedFields_iff.mpr fun f member => ?_⟩
    rcases written.rows_cases member with ⟨n,_,same⟩ | ⟨text,same⟩ | same <;> rw [same] <;> exact trivial
  have bytes : r.value.get? "archive_bytes" = some (jsonNat r.archiveBytes) := by
    rw [r.value_rows]
    rfl
  have flow := r.fields.2.2.2.2.2.2
  unfold Package.settled
  dsimp only
  rw [Json.set_present sorted bytes,flow]
  cases version : r.flowVersion with
  | none => rfl
  | some n =>
    rw [version] at flow
    rw [Option.map_some,Option.bind_some,positive_jsonNat (above n version) (written.flow n version)]
    exact Json.set_present sorted flow

omit [Floats F] in
theorem Record.Written.read_value {r : Record F} (written : r.Written) : readRecord r.value = some r := by
  have bytes := asU64_jsonNat (F := F) written.bytes
  have null : Value.of (.null : Json F) = r.logHead := Value.ext written.head.symm
  have known : (r.rows.map Prod.fst).all ((recordFields ++ ["flow_version"]).contains ·) = true ∧
      (r.rows.map Prod.fst).Nodup :=
    ⟨by rw [r.rows_keys]; cases r.flowVersion <;> rfl,r.rows_sorted.imp fun less same => less.ne same⟩
  have version : optionalU64 (Table.lookup r.rows "flow_version") = some r.flowVersion := by
    have flow := r.fields.2.2.2.2.2.2
    rw [r.value_rows] at flow
    rw [show Table.lookup r.rows "flow_version" = r.flowVersion.map jsonNat from flow]
    cases same : r.flowVersion with
    | none => rfl
    | some n =>
      have small := asU64_jsonNat (F := F) (written.flow n same)
      rw [Option.map_some]
      show (jsonNat (F := F) n).asU64.map (fun n => some n.val) = _
      rw [show (jsonNat (F := F) n).asU64.map (fun n => some n.val) =
        ((jsonNat (F := F) n).asU64.map Fin.val).map some from (Option.map_map ..).symm,small]
      rfl
  have rest : Table.lookup r.rows "schema" = some (.string r.schema) ∧
      Table.lookup r.rows "name" = some (.string r.name) ∧
      Table.lookup r.rows "version" = some (.string r.version) ∧
      Table.lookup r.rows "manifest_sha256" = some (.string r.manifestSha256) ∧
      Table.lookup r.rows "archive_sha256" = some (.string r.archiveSha256) ∧
      Table.lookup r.rows "archive_bytes" = some (jsonNat r.archiveBytes) ∧
      Table.lookup r.rows "public_key" = some (.string r.publicKey) ∧
      Table.lookup r.rows "log_head" = some r.logHead.json := by
    unfold Record.rows
    cases r.flowVersion <;> exact ⟨rfl,rfl,rfl,rfl,rfl,rfl,rfl,rfl⟩
  obtain ⟨schema,name,version_,manifest_sha,archive_sha,archive_bytes,public_key,log_head⟩ := rest
  rw [r.value_rows,readRecord,Json.structGet,if_pos known,Option.bind_some,recordOf,version,archive_bytes,log_head]
  simp only [schema,name,version_,manifest_sha,archive_sha,public_key,Option.bind_some,Json.asStr,bytes,written.head,
    null,bind,pure]

variable [DecidableEq F]

/-- The client's checks of an accepted package come down to what the two documents say of
one another. -/
theorem Accepted.verify_iff (a : Accepted scheme archive checked members manifestBytes value id)
    (signed : scheme.verifySignature publicKey "ck-record/v1" (checked.record publicKey).text sig = true)
    (trusted : trust.Trusts publicKey) :
    (∃ verified : VerifiedPackage F,
      verifyRecord scheme (checked.record publicKey).text sig manifestBytes archive trust = .ok verified ∧
        verified.manifest = checked.manifest) ↔
      checkManifest members id (checked.record publicKey).value value = .ok () := by
  obtain ⟨_,_,manifest_sha,archive_sha,_,_,_⟩ := (checked.record publicKey).fields
  have digest : (((checked.record publicKey).value.field "manifest_sha256").asStr ==
      some (scheme.sha256Hex manifestBytes)) = true := by
    rw [manifest_sha,← a.manifestSha256]
    exact beq_self_eq_true _
  have whole : (((checked.record publicKey).value.field "archive_sha256").asStr ==
      some (scheme.sha256Hex archive)) = true := by
    rw [archive_sha,← a.archiveSha256]
    exact beq_self_eq_true _
  have member : (members.get? "ck.json" == some manifestBytes) = true := by
    rw [a.member]
    exact beq_self_eq_true _
  have opened : manifestValue manifestBytes = .ok value := by rw [manifestValue,a.parsed]
  have settles : readRecord (settled (checked.record publicKey).value archive.length) =
      some (checked.record publicKey) := by
    have same : (checked.record publicKey).archiveBytes = archive.length := a.archiveBytes
    rw [← same,a.written.settled a.flow_positive,a.written.read_value]
  have steps : (verifyRecord scheme (checked.record publicKey).text sig manifestBytes archive trust :
      Except Refusal (VerifiedPackage F)) =
      (checkManifest members id (checked.record publicKey).value value).bind fun _ =>
        .ok ⟨checked.record publicKey,checked.manifest,(checked.record publicKey).text⟩ := by
    unfold verifyRecord
    rw [a.trustedRecord signed trusted]
    simp only [bind,Except.bind,require_ok.mpr digest,require_ok.mpr whole,
      require_ok.mpr (beq_self_eq_true archive.length),a.read,Except.mapError,require_ok.mpr member,opened,a.valid,
      a.files,settles]
    rfl
  rw [steps]
  constructor
  · rintro ⟨verified,done,_⟩
    obtain ⟨⟨⟩,checked,_⟩ := bind_ok done
    exact checked
  · intro agreed
    rw [agreed]
    exact ⟨_,rfl,rfl⟩

theorem checkManifest_iff {r m : Json F} : checkManifest members id r m = .ok () ↔
    m.field "name" = r.field "name" ∧ m.field "version" = r.field "version" ∧
      ((m.field "kind").asStr == some "flow") = (r.get? "flow_version").isSome ∧
      ((m.field "kind").asStr = some "flow" → checkFlowFile members id r m = .ok ()) := by
  constructor
  · intro agreed
    obtain ⟨_,name,agreed⟩ := bind_ok agreed
    obtain ⟨_,version,agreed⟩ := bind_ok agreed
    obtain ⟨_,kind,agreed⟩ := bind_ok agreed
    refine ⟨eq_of_beq (require_ok.mp name),eq_of_beq (require_ok.mp version),eq_of_beq (require_ok.mp kind),?_⟩
    intro flow
    rw [flow] at agreed
    exact agreed
  · rintro ⟨name,version,kind,file⟩
    unfold checkManifest
    rw [require_ok.mpr (beq_iff_eq.mpr name),require_ok.mpr (beq_iff_eq.mpr version)]
    show (require (((m.field "kind").asStr == some "flow") == (r.get? "flow_version").isSome) _ >>= _) = _
    rw [require_ok.mpr (beq_iff_eq.mpr kind)]
    show (if ((m.field "kind").asStr == some "flow") = true then _ else _) = _
    split
    next flow => exact file (eq_of_beq flow)
    next => rfl

theorem checkFlowFile_iff {r m : Json F} : checkFlowFile members id r m = .ok () ↔
    ∃ flow : Json F,
      (members.get? (((m.field "body").field "manifest").asStr.getD "flow.json")).bind parseMember = some flow ∧
        (flow.field "id").asStr = some id ∧ flow.field "version" = r.field "flow_version" := by
  unfold checkFlowFile
  dsimp only
  split
  next none_ =>
    rw [none_]
    exact iff_of_false (fun same => by cases same) (fun ⟨_,same,_⟩ => by cases same)
  next flow found =>
    rw [found]
    split
    next other =>
      exact iff_of_false (fun same => by cases same)
        (fun ⟨_,same,own,_⟩ => other (Option.some.inj same ▸ own))
    next own =>
      split
      next other =>
        exact iff_of_false (fun same => by cases same)
          (fun ⟨_,same,_,version⟩ => other (Option.some.inj same ▸ version))
      next version => exact iff_of_true rfl ⟨flow,rfl,not_not.mp own,not_not.mp version⟩

omit [Floats F] [DecidableEq F] in
theorem variant_word {value : Json F} (word : value.asStr = some "flow") :
    value.variant Kind.ofText = some .flow := by
  cases value <;> cases word
  rfl

/-- The documents of an accepted package agree where it is plainly spelled. -/
theorem Accepted.agrees_iff (a : Accepted scheme archive checked members manifestBytes value id) :
    checkManifest members id (checked.record publicKey).value value = .ok () ↔ PlainlySpelled F archive := by
  obtain ⟨name,version,_,_,_,_,flow⟩ := (checked.record publicKey).fields
  have sorted := parseMember_sorted a.parsed
  obtain ⟨read,_,_,body⟩ := validateManifest_ok a.valid
  have flow_field : ∀ n, checked.flowVersion = some n →
      (checked.record publicKey).value.field "flow_version" = jsonNat n := by
    intro n same
    rw [Json.field,flow,show (checked.record publicKey).flowVersion = some n from same]
    rfl
  rw [checkManifest_iff,name,version,flow,Option.isSome_map]
  constructor
  · rintro ⟨named,_,kinded,file⟩ members' bytes' value' read' member' parsed'
    obtain rfl := Except.ok.inj (a.read.symm.trans read')
    obtain rfl := Option.some.inj (a.member.symm.trans member')
    obtain rfl := Option.some.inj (a.parsed.symm.trans parsed')
    have object : value.isObject = true := by
      cases value with
      | object fields => rfl
      | _ => cases named
    refine ⟨object,fun kind => ?_⟩
    obtain ⟨_,_,kind',_⟩ := readManifest_object read sorted object
    have is_flow : checked.manifest.kind = .flow := Option.some.inj (kind'.symm.trans kind)
    obtain ⟨n,version,same⟩ := a.flow is_flow
    rw [show (checked.record publicKey).flowVersion = some n from same] at kinded
    have word : (value.field "kind").asStr = some "flow" := eq_of_beq kinded
    refine ⟨word,fun other found => ?_⟩
    obtain ⟨path,path_text⟩ := flow_names_file is_flow body
    obtain ⟨_,_,_,own_body⟩ := readManifest_object read sorted object
    obtain ⟨document,opened,_,equal⟩ := checkFlowFile_iff.mp (file word)
    rw [own_body,path_text] at opened found
    obtain rfl := Option.some.inj (opened.symm.trans found)
    rw [equal,flow_field n same]
    rfl
  · intro plain
    obtain ⟨object,spelled⟩ := plain members manifestBytes value a.read a.member a.parsed
    obtain ⟨named,versioned,kind,own_body⟩ := readManifest_object read sorted object
    refine ⟨named,versioned,?_,?_⟩
    · by_cases is_flow : checked.manifest.kind = .flow
      · obtain ⟨word,_⟩ := spelled (is_flow ▸ kind)
        obtain ⟨n,_,same⟩ := a.flow is_flow
        rw [word,show (checked.record publicKey).flowVersion = some n from same]
        rfl
      · rw [show (checked.record publicKey).flowVersion = none from a.other is_flow]
        apply beq_eq_false_iff_ne.mpr
        intro word
        exact is_flow (Option.some.inj (kind.symm.trans (variant_word word)))
    · intro word
      have is_flow : checked.manifest.kind = .flow := Option.some.inj (kind.symm.trans (variant_word word))
      obtain ⟨_,literal⟩ := spelled (variant_word word)
      obtain ⟨n,version,same⟩ := a.flow is_flow
      obtain ⟨document,found,own,read_version⟩ := checkFlowVersion_ok version
      obtain ⟨path,path_text⟩ := flow_names_file is_flow body
      rw [own_body] at literal
      refine checkFlowFile_iff.mpr ⟨document,?_,own,?_⟩
      · rw [own_body]
        rw [path_text] at found ⊢
        exact found
      · rw [flow_field n same]
        exact (positive_literal read_version).mpr (literal document found)

/-- A package the publisher's checks accept is verified under its signed record, with the
same manifest, exactly where it is plainly spelled. -/
theorem checked_verifies_iff {scope : String} (accepted : check scheme archive scope = .ok checked)
    (signed : scheme.verifySignature publicKey "ck-record/v1" (checked.record publicKey).text sig = true)
    (trusted : trust.Trusts publicKey) :
    (∃ manifestBytes, manifestMember archive = some manifestBytes ∧ ∃ verified : VerifiedPackage F,
      verifyRecord scheme (checked.record publicKey).text sig manifestBytes archive trust = .ok verified ∧
        verified.manifest = checked.manifest) ↔ PlainlySpelled F archive := by
  obtain ⟨members,manifestBytes,value,id,a⟩ := check_ok accepted
  have member : manifestMember archive = some manifestBytes := by
    rw [manifestMember,a.read]
    exact a.member
  rw [← @Accepted.agrees_iff _ _ _ _ _ _ _ _ _ publicKey _ a,← a.verify_iff signed trusted,member]
  constructor
  · rintro ⟨bytes,same,verified⟩
    exact Option.some.inj same ▸ verified
  · exact fun verified => ⟨manifestBytes,rfl,verified⟩

end

theorem read_small {archive : Bytes} {table : Table String Bytes} (read : Archive.read archive = .ok table) :
    archive.length ≤ Archive.archiveMax := by
  obtain ⟨_,opened,_⟩ := bind_ok read
  unfold Archive.readMembers at opened
  split at opened
  next => cases opened
  next small => exact not_lt.mp small

/-! A flow package whose flow file writes its version in one way or another. -/
namespace Flows

def scheme : Scheme := ⟨fun _ => List.replicate 32 0,fun _ => rfl,fun _ _ _ => true⟩

def digest : String := String.ofList (List.replicate 64 '0')

/-- The flow file, its version written as the number is. -/
def flow (version : Json.Number Int) : Json Int := .object [("id",.string "a--b"),("version",.number version)]

def flowBytes (version : Json.Number Int) : Bytes := Utf8.encode (flow version).emit

def manifest (version : Json.Number Int) : Json Int := .object [
  ("body",.object [("manifest",.string "flow.json"),("script",.string "run.ts")]),
  ("files",.array [
    .object [("bytes",jsonNat (flowBytes version).length),("path",.string "flow.json"),("sha256",.string digest)],
    .object [("bytes",jsonNat 0),("path",.string "run.ts"),("sha256",.string digest)]]),
  ("kind",.string "flow"),("license",.string "MIT"),("name",.string "@a/b"),
  ("requires",.object [("capabilities",.array []),("packages",.object [])]),
  ("schema",.string "ck-package/v1"),("source",.string "https://a"),("summary",.string "a"),
  ("version",.string "1.0.0")]

def manifestBytes (version : Json.Number Int) : Bytes := Utf8.encode (manifest version).emit

def files (version : Json.Number Int) : List Archive.Member :=
  [.regular "ck.json" (manifestBytes version),.regular "flow.json" (flowBytes version),.regular "run.ts" []]

def members (version : Json.Number Int) : Table String Bytes :=
  ((∅ : Table String Bytes).insert "ck.json" (manifestBytes version)).insert "flow.json" (flowBytes version)
    |>.insert "run.ts" []

def publicKey : String := digest

def sig : String := String.ofList (List.replicate 128 '0')

def trust : Trust := ⟨[⟨publicKey,"2026-01-01T00:00:00Z",none,none⟩],none⟩

theorem parseMember_emit {tree : Json Int} (shallow : tree.nesting < Json.depthLimit) (distinct : tree.distinct = true) :
    parseMember (Utf8.encode tree.emit) = some tree.ordered := by
  rw [parseMember,Utf8.decode_encode,Option.bind_some,Json.parseStrict,String.toList_ofList,Json.parseDistinct,
    Json.parse_emit shallow,Option.filter_some_pos distinct]
  rfl

theorem members_read {version : Json.Number Int} {out : Bytes} (written : Archive.write (files version) = .ok out) :
    Archive.read out = .ok (members version) := by
  obtain ⟨table,read,_,holds⟩ := Archive.read_written written
  have same : table = members version := by
    apply Table.ext
    intro key
    have listed (bytes : Bytes) : table.get? key = some bytes ↔ (members version).get? key = some bytes := by
      rw [holds]
      simp only [files,members,Table.get?_insert,Table.get?_empty,Archive.Member.regular,List.mem_cons,
        Archive.Member.mk.injEq,List.not_mem_nil,or_false,and_true]
      by_cases script : key = "run.ts"
      · subst script; simp [eq_comm]
      · by_cases flow : key = "flow.json"
        · subst flow; simp [eq_comm]
        · by_cases ck : key = "ck.json"
          · subst ck; simp [eq_comm]
          · simp [script,flow,ck]
    exact Option.ext listed
  rw [read,same]


/-- The checks of the files and the flow, after the manifest was read. -/
def checkRest (version : Json.Number Int) : Except Refusal (Manifest Int × Option Nat) := do
  let manifest ← validateManifest (Flows.manifest version).ordered
  let mapped ← (mapName scheme manifest.name).mapError fun e => Refusal.new e.code
  require ("@" ++ mapped.scope == "@a") (mismatch "scope")
  checkFiles scheme (members version) manifest.files
  let flowVersion ← flowVersionOf (members version) mapped.id manifest
  return (manifest,flowVersion)

theorem shallow (version : Json.Number Int) : (manifest version).nesting < Json.depthLimit := by
  show max _ _ + 1 < 128
  simp [Json.nesting,Json.nestingItems,Json.nestingFields,jsonNat]

theorem opened {version : Json.Number Int} (distinct : (manifest version).distinct = true) :
    parseMember (manifestBytes version) = some (manifest version).ordered :=
  parseMember_emit (shallow version) distinct

theorem parseManifest_of {bytes : Utf8.Bytes} {value : Json Int} (opened : manifestValue bytes = .ok value) :
    parseManifest bytes = validateManifest value := by
  rw [parseManifest,opened]
  rfl

theorem accepted {version : Json.Number Int} (written : (Archive.write (files version)).toOption.isSome = true)
    (distinct : (manifest version).distinct = true) (rest : (checkRest version).toOption.isSome = true) :
    ∃ out, ∃ checked : CheckedArchive Int, check scheme out "@a" = .ok checked ∧
      Archive.read out = .ok (members version) := by
  cases made : Archive.write (files version) with
  | error e => rw [made] at written; cases written
  | ok out =>
    have read := members_read made
    have small := decide_eq_true (read_small read)
    have ck : (members version).get? "ck.json" = some (manifestBytes version) := by simp [members]
    cases run : checkRest version with
    | error e => rw [run] at rest; cases rest
    | ok result =>
      obtain ⟨manifest,valid,run⟩ := bind_ok run
      obtain ⟨mapped,named,run⟩ := bind_ok run
      obtain ⟨⟨⟩,own,run⟩ := bind_ok run
      obtain ⟨⟨⟩,listed,run⟩ := bind_ok run
      obtain ⟨flowVersion,flow,run⟩ := bind_ok run
      have parsed : parseManifest (manifestBytes version) = .ok manifest := by
        have value : manifestValue (manifestBytes version) = .ok (Flows.manifest version).ordered := by
          rw [manifestValue,opened distinct]
        exact (parseManifest_of value).trans valid
      refine ⟨out,⟨manifest,scheme.sha256Hex (manifestBytes version),scheme.sha256Hex out,out.length,flowVersion⟩,
        ?_,read⟩
      unfold check
      rw [require_ok.mpr small,read]
      simp only [bind,Except.bind,Except.mapError,ck]
      simp only [parsed,mapError_ok named,own,listed,flow]
      rfl

/-- The key and the signature are hex digits, and the publisher's checks take both flows. -/
theorem computed : (decodeHex 32 publicKey = some (List.replicate 32 0) ∧ decodeHex 64 sig = some (List.replicate 64 0)) ∧
    ∀ version ∈ [Json.Number.posInt 1,Json.Number.float 1], (flow version).distinct = true ∧
      (manifest version).distinct = true ∧ (Archive.write (files version)).toOption.isSome = true ∧
      (checkRest version).toOption.isSome = true ∧ ((manifest version).ordered.field "kind").asStr = some "flow" ∧
      ((((manifest version).ordered.field "body").field "manifest").asStr.getD "") = "flow.json" := by
  decide +kernel

theorem signs (canonical : String) : scheme.verifySignature publicKey "ck-record/v1" canonical sig = true := by
  rw [Scheme.verifySignature,computed.1.1,computed.1.2]
  rfl

theorem trusts : trust.Trusts publicKey :=
  ⟨⟨publicKey,"2026-01-01T00:00:00Z",none,none⟩,List.find?_cons_of_pos (beq_self_eq_true publicKey),rfl,
    fun _ none => (by cases none),fun _ => rfl⟩

theorem plain : ∀ out, Archive.read out = .ok (members (.posInt 1)) → PlainlySpelled Int out := by
  intro out read members' bytes value read' member parsed
  obtain rfl := Except.ok.inj (read.symm.trans read')
  have ck : (members (.posInt 1)).get? "ck.json" = some (manifestBytes (.posInt 1)) := by simp [members]
  obtain rfl := Option.some.inj (ck.symm.trans member)
  obtain ⟨distinct,distinct',_,_,kind,path⟩ := computed.2 (.posInt 1) List.mem_cons_self
  obtain rfl := Option.some.inj ((opened distinct').symm.trans parsed)
  refine ⟨rfl,fun _ => ⟨kind,fun file found => ?_⟩⟩
  have there : (members (.posInt 1)).get? "flow.json" = some (flowBytes (.posInt 1)) := by simp [members]
  rw [path,there,Option.bind_some,flowBytes,parseMember_emit (by decide) distinct] at found
  obtain rfl := Option.some.inj found
  decide +kernel

/-- The flow whose version is `1` is verified. -/
theorem one_verified : ∃ (archive : Bytes) (checked : CheckedArchive Int), check scheme archive "@a" = .ok checked ∧
    ∃ manifestBytes, manifestMember archive = some manifestBytes ∧ ∃ verified : VerifiedPackage Int,
      verifyRecord scheme (checked.record publicKey).text sig manifestBytes archive trust = .ok verified ∧
        verified.manifest = checked.manifest := by
  obtain ⟨_,distinct,written,rest,_⟩ := computed.2 (.posInt 1) List.mem_cons_self
  obtain ⟨out,checked,accepted,read⟩ := accepted written distinct rest
  exact ⟨out,checked,accepted,(checked_verifies_iff accepted (signs _) trusts).mpr (plain out read)⟩

/-- The flow whose version is `1.0` is accepted by the publisher and refused by the client. -/
theorem one_point_refused : ¬ ∀ (archive : Bytes) (scope : String) (checked : CheckedArchive Int)
    (publicKey sig : String) (trust : Trust), check scheme archive scope = .ok checked →
    scheme.verifySignature publicKey "ck-record/v1" (checked.record publicKey).text sig = true →
    trust.Trusts publicKey → ∃ manifestBytes, manifestMember archive = some manifestBytes ∧
      ∃ verified : VerifiedPackage Int,
        verifyRecord scheme (checked.record publicKey).text sig manifestBytes archive trust = .ok verified ∧
          verified.manifest = checked.manifest := by
  intro agree
  obtain ⟨distinct,distinct',written,rest,_,path⟩ := computed.2 (.float 1) (by simp)
  obtain ⟨out,checked,accepted,read⟩ := accepted written distinct' rest
  obtain ⟨bytes,member,verified⟩ := agree out "@a" checked publicKey sig trust accepted (signs _) trusts
  obtain ⟨members',manifestBytes',value,id,a⟩ := check_ok accepted
  have same : bytes = manifestBytes' := by
    rw [manifestMember,a.read] at member
    exact Option.some.inj (member.symm.trans a.member)
  subst same
  obtain rfl := Except.ok.inj (a.read.symm.trans read)
  have ck : (members (.float 1)).get? "ck.json" = some (manifestBytes (.float 1)) := by simp [members]
  have bytes_eq := Option.some.inj (a.member.symm.trans ck)
  have value_eq := Option.some.inj ((bytes_eq ▸ a.parsed).symm.trans (opened distinct'))
  subst value_eq
  have spelled := a.agrees_iff.mp ((a.verify_iff (signs _) trusts).mp verified)
  obtain ⟨_,literal⟩ := spelled _ _ _ a.read a.member a.parsed
  have found : ((members (.float 1)).get? ((((manifest (.float 1)).ordered.field "body").field "manifest").asStr.getD
      "")).bind parseMember = some (flow (.float 1)).ordered := by
    have there : (members (.float 1)).get? "flow.json" = some (flowBytes (.float 1)) := by simp [members]
    rw [path,there,Option.bind_some,flowBytes]
    exact parseMember_emit (by decide) distinct
  have refused := (literal (by decide +kernel)).2 _ found
  exact absurd refused (by decide +kernel)

end Flows

end Entorhinal.Package
