import Entorhinal.JcsSigned
import Entorhinal.Publish
import Entorhinal.StatusLaw

/-! What the publisher's checks promise of the client's: a package they accept is verified
under its signed record exactly where its manifest is spelled plainly. -/
namespace Entorhinal.Package

open Json (Floats Value)
open Utf8 (Bytes)

theorem digit_hex : ∀ d < 16, isHexDigit (Nat.digitChar d) = true := by decide

theorem isHex_hex (bytes : Bytes) : isHex (hex bytes) (bytes.length * 2) = true := by
  have pairs : ∀ bytes : Bytes,
      (bytes.flatMap fun b => [Nat.digitChar (b.toNat / 16),Nat.digitChar (b.toNat % 16)]).length =
        bytes.length * 2 := by
    intro bytes
    induction bytes with
    | nil => rfl
    | cons b bytes ih => rw [List.flatMap_cons,List.length_append,ih,List.length_cons]; simp; omega
  rw [isHex,hex,String.toList_ofList,Bool.and_eq_true,pairs]
  refine ⟨beq_self_eq_true _,List.all_eq_true.mpr fun c member => ?_⟩
  obtain ⟨b,_,inside⟩ := List.mem_flatMap.mp member
  have small := b.toNat_lt
  rcases List.mem_cons.mp inside with rfl | inside
  · exact digit_hex _ (by omega)
  · obtain rfl := List.mem_singleton.mp inside
    exact digit_hex _ (by omega)

theorem isHex_sha256 (scheme : Scheme) (bytes : Bytes) : isHex (scheme.sha256Hex bytes) 64 = true := by
  have written := isHex_hex (scheme.sha256 bytes)
  rwa [scheme.sha256_length] at written

/-- Only a key of 32 bytes signs. -/
theorem isHex_signer {scheme : Scheme} {publicKey domain canonical sig : String}
    (signed : scheme.verifySignature publicKey domain canonical sig = true) : isHex publicKey 64 = true := by
  unfold Scheme.verifySignature decodeHex at signed
  by_cases key : isHex publicKey 64 = true
  · exact key
  · rw [if_neg key] at signed
    cases signed

theorem require_ok {holds : Bool} {refusal : Refusal} : require holds refusal = .ok () ↔ holds = true := by
  cases holds
  · exact iff_of_false (fun same => by cases same) Bool.false_ne_true
  · exact iff_of_true rfl rfl

section Numbers
variable {F : Type} [Floats F]

theorem safe_posInt {n : Nat} (small : n ≤ Json.maxSafe) :
    (Json.Number.posInt (F := F) (Fin.ofNat _ n)).safe = some (n : Int) := by
  have bound : (n : Int).natAbs ≤ Json.maxSafe := small
  simp only [Json.maxSafe] at small
  have value : (Fin.ofNat (2 ^ 64) n).val = n := by
    rw [Fin.val_ofNat,Nat.mod_eq_of_lt (by omega)]
  rw [Json.Number.safe,Json.Number.asF64,value,Floats.whole_ofInt _ bound]
  exact Option.filter_some_pos (decide_eq_true bound)

theorem positive_jsonNat {n : Nat} (some_ : 1 ≤ n) (small : n ≤ Json.maxSafe) :
    positive (jsonNat (F := F) n) = some n := by
  have kept : (some (n : Int)).filter (fun k => decide (1 ≤ k)) = some (n : Int) :=
    Option.filter_some_pos (decide_eq_true (by omega))
  rw [jsonNat,positive,safe_posInt small,kept]
  rfl

theorem positive_bounds {value : Json F} {n : Nat} (read : positive value = some n) :
    1 ≤ n ∧ n ≤ Json.maxSafe := by
  cases value with
  | number number =>
    obtain ⟨k,kept,rfl⟩ := Option.map_eq_some_iff.mp read
    obtain ⟨safe,above⟩ := Option.filter_eq_some_iff.mp kept
    have above := of_decide_eq_true above
    have small := (Json.safe_whole safe).2
    omega
  | _ => cases read

/-- The integer literal of a positive number is the number. -/
theorem positive_posInt {k : Fin (2 ^ 64)} {n : Nat} (read : positive (.number (.posInt (F := F) k)) = some n) :
    k.val = n := by
  obtain ⟨j,kept,rfl⟩ := Option.map_eq_some_iff.mp read
  obtain ⟨safe,_⟩ := Option.filter_eq_some_iff.mp kept
  obtain ⟨whole,small⟩ := Json.safe_whole safe
  have exact_ : (k.val : Int).natAbs ≤ Json.maxSafe := by
    by_contra large
    have := Floats.whole_large (F := F) (k.val : Int) j (by omega) whole
    omega
  have same := Floats.whole_ofInt (F := F) (k.val : Int) exact_
  rw [Json.Number.asF64] at whole
  rw [whole] at same
  obtain rfl := Option.some.inj same
  rfl

/-- A positive number is an integer literal where it equals the one that is written for it. -/
theorem positive_literal {value : Json F} {n : Nat} (read : positive value = some n) :
    value = jsonNat n ↔ value.asU64.isSome = true := by
  constructor
  · rintro rfl
    rfl
  · intro literal
    cases value with
    | number number =>
      cases number with
      | posInt k =>
        have value := positive_posInt read
        have small := k.isLt
        rw [jsonNat,← value]
        congr 2
        exact Fin.ext (by rw [Fin.val_ofNat,Nat.mod_eq_of_lt small])
      | _ => cases literal
    | _ => cases literal

end Numbers

section Text
variable {F : Type} [Floats F]

/-- A record as it is signed: its numbers are exact, and nothing is said of a log. -/
structure Record.Written (r : Record F) : Prop where
  schema : r.schema = "ck-record/v1"
  bytes : r.archiveBytes ≤ Json.maxSafe
  flow : ∀ n ∈ r.flowVersion, n ≤ Json.maxSafe
  head : r.logHead.json = .null

def Record.rows (r : Record F) : List (String × Json F) :=
  [("archive_bytes",jsonNat r.archiveBytes),("archive_sha256",.string r.archiveSha256)] ++
    (r.flowVersion.map fun n => ("flow_version",jsonNat n)).toList ++
    [("log_head",r.logHead.json),("manifest_sha256",.string r.manifestSha256),("name",.string r.name),
      ("public_key",.string r.publicKey),("schema",.string r.schema),("version",.string r.version)]

omit [Floats F] in
theorem Record.value_rows (r : Record F) : r.value = .object r.rows := by
  unfold Record.value Record.rows
  cases r.flowVersion <;>
    simp +decide only [Json.objectOf,Json.set,Table.insertRow,Option.map_none,Option.map_some,Option.toList_none,
      Option.toList_some,List.append_nil,List.cons_append,List.nil_append,List.foldl_cons,List.foldl_nil,if_true,if_false]

omit [Floats F] in
theorem Record.rows_keys (r : Record F) : r.rows.map Prod.fst =
    ["archive_bytes","archive_sha256"] ++ (r.flowVersion.map fun _ => "flow_version").toList ++
      ["log_head","manifest_sha256","name","public_key","schema","version"] := by
  unfold Record.rows
  cases r.flowVersion <;> rfl

theorem canonical_jsonNat {n : Nat} (small : n ≤ Json.maxSafe) : (jsonNat (F := F) n).canonical = jsonNat n := by
  rw [jsonNat,Json.canonical,Json.canonicalNumber,safe_posInt small]
  dsimp only
  rw [if_neg (by omega)]
  rfl

theorem sortKeys_sorted {α : Type} {fields : List (String × α)}
    (sorted : (fields.map Prod.fst).Pairwise fun a b => Json.units a ≤ Json.units b) :
    Json.sortKeys fields = fields := by
  rw [List.pairwise_map] at sorted
  exact sorted.insertionSort_eq

omit [Floats F] in
/-- The fields of a written record. -/
theorem Record.Written.rows_cases {r : Record F} (written : r.Written) {f : String × Json F} (member : f ∈ r.rows) :
    (∃ n, n ≤ Json.maxSafe ∧ f.2 = jsonNat n) ∨ (∃ text, f.2 = .string text) ∨ f.2 = .null := by
  unfold Record.rows at member
  rw [List.mem_append,List.mem_append] at member
  rcases member with (first | flow) | last
  · simp only [List.mem_cons,List.not_mem_nil,or_false] at first
    rcases first with rfl | rfl
    · exact .inl ⟨_,written.bytes,rfl⟩
    · exact .inr (.inl ⟨_,rfl⟩)
  · obtain ⟨n,present,rfl⟩ := Option.map_eq_some_iff.mp (Option.mem_toList.mp flow)
    exact .inl ⟨n,written.flow n present,rfl⟩
  · simp only [List.mem_cons,List.not_mem_nil,or_false] at last
    rcases last with rfl | rfl | rfl | rfl | rfl | rfl
    · exact .inr (.inr written.head)
    all_goals exact .inr (.inl ⟨_,rfl⟩)

omit [Floats F] in
theorem Record.rows_sorted (r : Record F) : (r.rows.map Prod.fst).Pairwise (· < ·) := by
  rw [r.rows_keys]
  cases r.flowVersion
  · decide
  · exact (by decide : (["archive_bytes","archive_sha256"] ++ ["flow_version"] ++
      ["log_head","manifest_sha256","name","public_key","schema","version"]).Pairwise (· < ·))

omit [Floats F] in
theorem Record.rows_units (r : Record F) :
    (r.rows.map Prod.fst).Pairwise fun a b => Json.units a ≤ Json.units b := by
  rw [r.rows_keys]
  cases r.flowVersion
  · decide +kernel
  · exact (by decide +kernel : (["archive_bytes","archive_sha256"] ++ ["flow_version"] ++
      ["log_head","manifest_sha256","name","public_key","schema","version"]).Pairwise
        fun a b => Json.units a ≤ Json.units b)

theorem Record.Written.canonical {r : Record F} (written : r.Written) : r.value.canonical = r.value := by
  have same : Json.canonicalFields r.rows = r.rows := by
    rw [Json.canonicalFields_map]
    refine (List.map_congr_left fun f member => ?_).trans (List.map_id _)
    obtain ⟨key,value⟩ := f
    rcases written.rows_cases member with ⟨n,small,rfl⟩ | ⟨text,rfl⟩ | rfl
    · exact congrArg (Prod.mk key) (canonical_jsonNat small)
    · rfl
    · rfl
  rw [r.value_rows,Json.canonical,same,sortKeys_sorted r.rows_units]

theorem Record.Written.signed {r : Record F} (written : r.Written) {f : String × Json F} (member : f ∈ r.rows) :
    f.2.signedNumbers = true := by
  rcases written.rows_cases member with ⟨n,small,same⟩ | ⟨text,same⟩ | same
  · rw [same,jsonNat,Json.signedNumbers,safe_posInt small]
    rfl
  · rw [same]
    rfl
  · rw [same]
    rfl

/-- The text of a record is read back as its document. -/
theorem Record.Written.parsed {r : Record F} (written : r.Written) :
    Json.parseSigned r.text = some (.object r.rows,r.rows.map Prod.fst) := by
  have flat : ∀ f ∈ r.rows, f.2.Sorted ∧ f.2.nesting ≤ 0 ∧ f.2.distinct = true := by
    intro f member
    rcases written.rows_cases member with ⟨n,_,same⟩ | ⟨text,same⟩ | same <;> rw [same] <;>
      exact ⟨trivial,Nat.le_refl 0,rfl⟩
  have nodup : (r.rows.map Prod.fst).Nodup := r.rows_sorted.imp fun less same => less.ne same
  have distinct : ∀ rows : List (String × Json F), (∀ f ∈ rows, f.2.distinct = true) →
      Json.distinctFields rows = true := by
    intro rows own
    induction rows with
    | nil => rfl
    | cons f rows ih =>
      rw [Json.distinctFields,own f List.mem_cons_self,ih fun g member => own g (List.mem_cons_of_mem f member)]
      rfl
  rw [Record.text,r.value_rows]
  apply Json.parseSigned_jcs
  · exact signedFields_iff.mpr fun f member => written.signed member
  · rw [← r.value_rows,written.canonical]
  · exact ⟨List.pairwise_map.mp r.rows_sorted,Json.sortedFields_iff.mpr fun f member => (flat f member).1⟩
  · rw [Json.distinct,distinct r.rows fun f member => (flat f member).2.2,decide_eq_true nodup]
    rfl
  · have shallow : Json.nestingFields r.rows ≤ 0 := Json.nestingFields_le.mpr fun f member => (flat f member).2.1
    rw [Json.nesting]
    exact Nat.lt_of_le_of_lt (Nat.succ_le_succ shallow) (by decide)

theorem Record.Written.shaped {r : Record F} (written : r.Written) :
    shape r.text "ck-record/v1" recordFields ["flow_version"] .recordInvalid = .ok r.value := by
  have known : ((r.rows.map Prod.fst).find? fun k => !(recordFields.contains k || ["flow_version"].contains k)) =
      none := by
    rw [r.rows_keys]
    cases r.flowVersion <;> rfl
  have complete : (recordFields.find? fun k => (Table.lookup r.rows k).isNone) = none := by
    unfold Record.rows
    cases r.flowVersion <;> rfl
  have domain : ((Json.object r.rows).field "schema").asStr = some "ck-record/v1" := by
    rw [← written.schema]
    unfold Record.rows
    cases r.flowVersion <;> rfl
  have numbers : (r.rows.find? fun f => !f.2.signedNumbers) = none :=
    List.find?_eq_none.mpr fun f member => by rw [written.signed member]; exact Bool.false_ne_true
  rw [shape,written.parsed]
  dsimp only
  rw [known]
  dsimp only
  rw [complete]
  dsimp only
  rw [if_neg (not_not.mpr domain),numbers,r.value_rows]

end Text

section Manifest
variable {F : Type} [Floats F]

omit [Floats F] in
/-- What the checks of a manifest leave to know of it. -/
theorem validateManifest_ok {value : Json F} {m : Manifest F} (valid : validateManifest value = .ok m) :
    readManifest value = some m ∧ canonicalName m.name = true ∧ (Semver.Version.parse m.version).isSome = true ∧
      checkBody m = .ok () := by
  unfold validateManifest at valid
  split at valid
  next => cases valid
  next found read =>
    obtain ⟨_,_,valid⟩ := bind_ok valid
    obtain ⟨_,_,valid⟩ := bind_ok valid
    obtain ⟨_,_,valid⟩ := bind_ok valid
    obtain ⟨_,_,valid⟩ := bind_ok valid
    obtain ⟨_,named,valid⟩ := bind_ok valid
    obtain ⟨_,versioned,valid⟩ := bind_ok valid
    obtain ⟨_,_,valid⟩ := bind_ok valid
    obtain ⟨_,_,valid⟩ := bind_ok valid
    obtain ⟨_,_,valid⟩ := bind_ok valid
    obtain ⟨_,body,valid⟩ := bind_ok valid
    obtain rfl := Except.ok.inj valid
    exact ⟨read,require_ok.mp named,require_ok.mp versioned,body⟩

omit [Floats F] in
/-- The body of a flow names its file. -/
theorem flow_names_file {m : Manifest F} (flow : m.kind = .flow) (valid : checkBody m = .ok ()) :
    ∃ path, (m.body.json.field "manifest").asStr = some path := by
  unfold checkBody at valid
  split at valid
  next => cases valid
  next =>
    rw [flow,if_neg (by decide)] at valid
    split at valid
    next => cases valid
    next =>
      obtain ⟨_,file,_⟩ := bind_ok (valid : checkFlow m m.body.json = .ok ())
      have named := require_ok.mp file
      cases text : (m.body.json.field "manifest").asStr with
      | none => rw [text] at named; cases named
      | some path => exact ⟨path,rfl⟩

omit [Floats F] in
theorem manifestOf_some {str : String → Option String} {kind : Option Kind} {requires : Option Requires}
    {files : Option (List File)} {body : Option (Json F)} {m : Manifest F}
    (made : manifestOf str kind requires files body = some m) :
    str "name" = some m.name ∧ str "version" = some m.version ∧ kind = some m.kind ∧
      ∃ tree, body = some tree ∧ m.body = .of tree := by
  simp only [manifestOf,bind,Option.bind_eq_some_iff,pure] at made
  obtain ⟨schema,_,name,named,version,versioned,kind',kinded,summary,_,license,_,source,_,requires',_,files',_,
    tree,bodied,last⟩ := made
  obtain rfl := Option.some.inj last
  exact ⟨named,versioned,kinded,tree,bodied,rfl⟩

omit [Floats F] in
/-- The fields of a manifest that is written as an object. -/
theorem readManifest_object {value : Json F} {m : Manifest F} (read : readManifest value = some m)
    (sorted : value.Sorted) (object : value.isObject = true) :
    value.field "name" = .string m.name ∧ value.field "version" = .string m.version ∧
      (value.field "kind").variant Kind.ofText = some m.kind ∧ value.field "body" = m.body.json := by
  cases value with
  | object fields =>
    obtain ⟨get,got,made⟩ := Option.bind_eq_some_iff.mp read
    obtain ⟨named,versioned,kinded,tree,bodied,body⟩ := manifestOf_some made
    obtain rfl := Json.structGet_object got
    have string (key text : String) (there : (Table.lookup fields key).bind Json.asStr = some text) :
        (Json.object fields).field key = .string text := by
      obtain ⟨held,found,shown⟩ := Option.bind_eq_some_iff.mp there
      rw [Json.field,Json.get?,found,Option.getD_some]
      cases held <;> cases shown
      rfl
    refine ⟨string _ _ named,string _ _ versioned,?_,?_⟩
    · obtain ⟨held,found,shown⟩ := Option.bind_eq_some_iff.mp kinded
      rw [Json.field,Json.get?,found]
      exact shown
    · have own := Json.field_sorted sorted "body"
      rw [Json.field,Json.get?,bodied,Option.getD_some] at own ⊢
      rw [body]
      exact own.ordered_eq.symm
  | _ => cases object

theorem parseMember_sorted {bytes : Bytes} {value : Json F} (parsed : parseMember bytes = some value) :
    value.Sorted := by
  obtain ⟨chars,_,read⟩ := Option.bind_eq_some_iff.mp parsed
  obtain ⟨tree,_,rfl⟩ := Option.map_eq_some_iff.mp read
  exact Json.ordered_sorted tree

end Manifest

section Checked
variable {F : Type} [Floats F]

/-- What the publisher's checks leave to know of an archive they accept. -/
structure Accepted (scheme : Scheme) (archive : Bytes) (checked : CheckedArchive F) (members : Table String Bytes)
    (manifestBytes : Bytes) (value : Json F) (id : String) : Prop where
  small : archive.length ≤ Archive.archiveMax
  read : Archive.read archive = .ok members
  member : members.get? "ck.json" = some manifestBytes
  parsed : parseMember manifestBytes = some value
  valid : validateManifest value = .ok checked.manifest
  named : ∃ mapped, mapName scheme checked.manifest.name = .ok mapped ∧ mapped.id = id
  files : checkFiles scheme members checked.manifest.files = .ok ()
  manifestSha256 : checked.manifestSha256 = scheme.sha256Hex manifestBytes
  archiveSha256 : checked.archiveSha256 = scheme.sha256Hex archive
  archiveBytes : checked.archiveBytes = archive.length
  flow : checked.manifest.kind = .flow → ∃ n, checkFlowVersion members id checked.manifest = .ok n ∧
    checked.flowVersion = some n
  other : checked.manifest.kind ≠ .flow → checked.flowVersion = none

theorem check_ok {scheme : Scheme} {archive : Bytes} {scope : String} {checked : CheckedArchive F}
    (accepted : check scheme archive scope = .ok checked) :
    ∃ members manifestBytes value id, Accepted scheme archive checked members manifestBytes value id := by
  obtain ⟨_,small,accepted⟩ := bind_ok accepted
  obtain ⟨members,read,accepted⟩ := bind_ok accepted
  split at accepted
  next => cases accepted
  next manifestBytes member =>
    obtain ⟨manifest,parsed,accepted⟩ := bind_ok accepted
    obtain ⟨value,opened,valid⟩ := bind_ok parsed
    obtain ⟨mapped,named,accepted⟩ := bind_ok accepted
    obtain ⟨_,_,accepted⟩ := bind_ok accepted
    obtain ⟨_,files,accepted⟩ := bind_ok accepted
    obtain ⟨flowVersion,flow,accepted⟩ := bind_ok accepted
    obtain rfl := Except.ok.inj accepted
    have text : parseMember manifestBytes = some value := by
      unfold manifestValue at opened
      split at opened
      next => cases opened
      next found same => exact (Except.ok.inj opened) ▸ same
    refine ⟨members,manifestBytes,value,mapped.id,?_⟩
    exact {
      small := of_decide_eq_true (require_ok.mp small)
      read := mapError_ok read
      member := member
      parsed := text
      valid := valid
      named := ⟨mapped,mapError_ok named,rfl⟩
      files := files
      manifestSha256 := rfl
      archiveSha256 := rfl
      archiveBytes := rfl
      flow := fun kind => by
        rw [flowVersionOf,if_pos kind] at flow
        obtain ⟨n,version,same⟩ := map_ok flow
        exact ⟨n,version,same.symm⟩
      other := fun kind => by
        rw [flowVersionOf,if_neg kind] at flow
        exact (Except.ok.inj flow).symm }

variable {scheme : Scheme} {archive : Bytes} {checked : CheckedArchive F} {members : Table String Bytes}
  {manifestBytes : Bytes} {value : Json F} {id publicKey : String}

/-- The version of a flow as the publisher read it. -/
theorem checkFlowVersion_ok {manifest : Manifest F} {n : Nat}
    (version : checkFlowVersion members id manifest = .ok n) :
    ∃ flow : Json F, (members.get? ((manifest.body.json.field "manifest").asStr.getD "")).bind parseMember =
        some flow ∧ (flow.field "id").asStr = some id ∧ positive (flow.field "version") = some n := by
  unfold checkFlowVersion at version
  dsimp only at version
  split at version
  next => cases version
  next flow found =>
    split at version
    next => cases version
    next same =>
      split at version
      next => cases version
      next n' read =>
        obtain rfl := Except.ok.inj version
        exact ⟨flow,found,not_not.mp same,read⟩

theorem Accepted.written (a : Accepted scheme archive checked members manifestBytes value id) :
    (checked.record publicKey).Written where
  schema := rfl
  bytes := by
    show checked.archiveBytes ≤ Json.maxSafe
    rw [a.archiveBytes]
    exact le_trans a.small (by decide)
  flow n present := by
    by_cases kind : checked.manifest.kind = .flow
    · obtain ⟨m,version,same⟩ := a.flow kind
      obtain ⟨_,_,_,read⟩ := checkFlowVersion_ok version
      rw [CheckedArchive.record,same] at present
      obtain rfl := Option.some.inj present
      exact (positive_bounds read).2
    · rw [CheckedArchive.record,a.other kind] at present
      cases present
  head := rfl

end Checked

end Entorhinal.Package
