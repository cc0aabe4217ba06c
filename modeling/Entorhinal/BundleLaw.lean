import Entorhinal.Bundle
import Entorhinal.PublishLaw

/-! The proofs that a verified bundle leaves behind authenticate the same statuses after a
restart, and no proof speaks for a version that the signed document does not list. -/
namespace Entorhinal.Package

open Json (Floats)
open Utf8 (Bytes)

theorem encode_decode {bytes : Bytes} {chars : List Char} (read : Utf8.decode bytes = some chars) :
    Utf8.encode chars = bytes := by
  obtain ⟨array,decoded,rfl⟩ := Option.map_eq_some_iff.mp read
  have whole := ByteArray.utf8Encode_get_utf8Decode? (b := bytes.toByteArray) (h := by rw [decoded]; rfl)
  have same : (array.toList.flatMap String.utf8EncodeChar).toByteArray = bytes.toByteArray := by
    rw [← whole]
    simp only [decoded,Option.get_some]
    rfl
  have data := congrArg ByteArray.data same
  simpa [Utf8.encode] using data

/-- A text has the bytes it was read from. -/
theorem textOf_ok {bytes : Bytes} {text : String} (read : textOf bytes = .ok text) : Utf8.asBytes text = bytes := by
  unfold textOf at read
  split at read
  next => cases read
  next chars decoded =>
    obtain rfl := Except.ok.inj read
    rw [Utf8.asBytes,String.toList_ofList]
    exact encode_decode decoded

/-- The scope and the name of a name that was mapped. -/
theorem mapName_ok {scheme : Scheme} {input : String} {mapped : MappedName} (made : mapName scheme input = .ok mapped) :
    mapped.canonical.toList = '@' :: (mapped.scope.toList ++ '/' :: mapped.name.toList) ∧
      '/' ∉ mapped.name.toList := by
  obtain ⟨⟨scope,name⟩,split,rfl⟩ := map_ok made
  unfold splitName at split
  split at split
  next rest lowered =>
    split at split
    next => cases split
    next scope' name' cut =>
      split at split
      next => cases split
      next plain =>
        split at split
        next => cases split
        next =>
          split at split
          next => cases split
          next =>
            obtain ⟨rfl,rfl⟩ := Prod.mk.inj (Except.ok.inj split)
            refine ⟨?_,?_⟩
            · show (Utf8.asciiLower input).toList =
                '@' :: ((String.ofList scope').toList ++ '/' :: (String.ofList name').toList)
              rw [String.toList_ofList,String.toList_ofList,lowered,Semver.splitOnce_eq cut]
            · show '/' ∉ (String.ofList name').toList
              rw [String.toList_ofList]
              exact fun member => plain (List.contains_iff_mem.mpr member)
  next => cases split

/-- An entry of the starter scope whose members stand under its own paths. -/
structure Entry.Listed (scheme : Scheme) (entry : Entry) : Prop where
  mapped : ∃ mapped, mapName scheme entry.name = .ok mapped ∧ mapped.canonical = entry.name ∧
    mapped.scope = "cortexkit" ∧ entry.record = recordPath mapped entry.version

theorem checkEntry_ok {scheme : Scheme} {identities : List (String × String)} {entry : Entry}
    (ok : checkEntry scheme identities entry = .ok ()) :
    entry.Listed scheme ∧ (entry.name,entry.version) ∉ identities := by
  unfold checkEntry at ok
  split at ok
  next => cases ok
  next mapped named =>
    split at ok
    next => cases ok
    next valid =>
      split at ok
      next => cases ok
      next path =>
        simp only [not_or,not_not] at valid
        exact ⟨⟨mapped,named,valid.1,valid.2.1,not_not.mp path⟩,valid.2.2.2.2.2⟩

theorem checkEntries_ok {scheme : Scheme} {identities : List (String × String)} {entries : List Entry}
    (ok : checkEntries scheme identities entries = .ok ()) :
    (∀ e ∈ entries, e.Listed scheme ∧ (e.name,e.version) ∉ identities) ∧
      (entries.map fun e => (e.name,e.version)).Nodup := by
  induction entries generalizing identities with
  | nil => exact ⟨fun _ member => absurd member List.not_mem_nil,.nil⟩
  | cons entry entries ih =>
    obtain ⟨⟨⟩,first,rest⟩ := bind_ok ok
    obtain ⟨listed,distinct⟩ := ih rest
    obtain ⟨own,fresh⟩ := checkEntry_ok first
    refine ⟨fun e member => ?_,?_⟩
    · rcases List.mem_cons.mp member with rfl | inside
      · exact ⟨own,fresh⟩
      · exact ⟨(listed e inside).1,fun seen => (listed e inside).2 (List.mem_cons_of_mem _ seen)⟩
    · rw [List.map_cons,List.nodup_cons]
      refine ⟨fun again => ?_,distinct⟩
      obtain ⟨e,inside,same⟩ := List.mem_map.mp again
      exact (listed e inside).2 (same ▸ List.mem_cons_self)

/-- The path of a record gives the name and the version back. -/
theorem Entry.Listed.path_inj {scheme : Scheme} {a b : Entry} (left : a.Listed scheme) (right : b.Listed scheme)
    (same : a.record = b.record) : (a.name,a.version) = (b.name,b.version) := by
  obtain ⟨mapped,named,canonical,scope,path⟩ := left.mapped
  obtain ⟨mapped',named',canonical',scope',path'⟩ := right.mapped
  obtain ⟨whole,plain⟩ := mapName_ok named
  obtain ⟨whole',plain'⟩ := mapName_ok named'
  have texts : mapped.name.toList ++ '/' :: (a.version.toList ++ ".json".toList) =
      mapped'.name.toList ++ '/' :: (b.version.toList ++ ".json".toList) := by
    have chars := congrArg String.toList (path.symm.trans (same.trans path'))
    rw [recordPath,recordPath,scope,scope'] at chars
    simp only [String.toList_append,List.append_assoc] at chars
    exact List.append_cancel_left (List.append_cancel_left (List.append_cancel_left chars))
  obtain ⟨names,versions⟩ := Semver.cut_inj plain plain' texts
  have version : a.version = b.version := String.toList_injective (List.append_cancel_right versions)
  have name : a.name = b.name := by
    rw [← canonical,← canonical']
    apply String.toList_injective
    rw [whole,whole',scope,scope',names]
  rw [name,version]

theorem find_entry {scheme : Scheme} {entries : List Entry} (ok : checkEntries scheme [] entries = .ok ())
    {entry : Entry} (member : entry ∈ entries) :
    entries.find? (fun e => e.record == entry.record) = some entry := by
  obtain ⟨listed,distinct⟩ := checkEntries_ok ok
  cases found : entries.find? fun e => e.record == entry.record with
  | none =>
    have absent := List.find?_eq_none.mp found entry member
    exact absurd (beq_self_eq_true _) absent
  | some other =>
    have inside := List.mem_of_find?_eq_some found
    have path : other.record = entry.record := by simpa using List.find?_some found
    have identity := (listed other inside).1.path_inj (listed entry member).1 path
    rw [List.inj_on_of_nodup_map distinct inside member identity]

section
variable {F : Type} [Floats F] {scheme : Scheme}

theorem authenticate_entries {documentBytes certificate : Bytes} {signature root : String} {doc : Document}
    {key : ScopeKey} (ok : authenticate F scheme documentBytes certificate signature root = .ok (doc,key)) :
    checkEntries scheme [] doc.records = .ok () := by
  have ok := mapError_ok ok
  obtain ⟨value,_,ok⟩ := bind_ok ok
  split at ok
  next => cases ok
  next found _ =>
    obtain ⟨_,_,ok⟩ := bind_ok ok
    obtain ⟨_,_,ok⟩ := bind_ok ok
    obtain ⟨_,_,ok⟩ := bind_ok ok
    obtain ⟨_,_,ok⟩ := bind_ok ok
    obtain ⟨_,_,ok⟩ := bind_ok ok
    obtain ⟨⟨⟩,entries,ok⟩ := bind_ok ok
    obtain ⟨rfl,_⟩ := Prod.mk.inj (Except.ok.inj ok)
    exact entries

/-- What the metadata of an entry was found to be. -/
structure Metadata.Found (scheme : Scheme) (entry : Entry) (key : ScopeKey) (found : Metadata F) (record : Record F) : Prop where
  verified : verifyRecordTrust scheme found.record found.recordSignature
    ⟨[key],some found.status.record.publishedAt⟩ = .ok record
  names : checkNames scheme entry record found.status.record = .ok ()

theorem metadata_ok {entry : Entry} {bytes : Bytes} {key : ScopeKey} {found : Metadata F}
    (ok : metadata scheme entry bytes key = .ok found) :
    ∃ record, Metadata.Found scheme entry key found record := by
  obtain ⟨_,_,ok⟩ := bind_ok ok
  obtain ⟨envelopes,_,ok⟩ := bind_ok (mapError_ok ok)
  split at ok
  next => cases ok
  next => cases ok
  next =>
    obtain ⟨held,_,ok⟩ := bind_ok ok
    obtain ⟨record,verified,ok⟩ := bind_ok ok
    obtain ⟨⟨⟩,names,ok⟩ := bind_ok ok
    obtain rfl := Except.ok.inj ok
    exact ⟨record,verified,names⟩

omit [Floats F] in
theorem checkNames_ok {entry : Entry} {record : Record F} {status : StatusRecord}
    (ok : checkNames scheme entry record status = .ok ()) :
    (record.name = entry.name ∧ status.name = entry.name) ∧
      (record.version = entry.version ∧ status.version = entry.version) ∧
      (record.archiveSha256 = entry.archiveSha256 ∧ status.archiveSha256 = entry.archiveSha256) ∧
      some status.publisherKey = scheme.keyFingerprint record.publicKey := by
  unfold checkNames at ok
  split at ok
  next => cases ok
  next name =>
    split at ok
    next => cases ok
    next version =>
      split at ok
      next => cases ok
      next archive =>
        split at ok
        next => cases ok
        next publisher =>
          simp only [not_or,not_not] at name version archive publisher
          exact ⟨name,version,archive,publisher⟩

omit [Floats F] in
/-- The fields of a record are those of its document. -/
theorem readRecord_fields {fields : List (String × Json F)} {record : Record F}
    (read : readRecord (.object fields) = some record) :
    (Table.lookup fields "name").bind Json.asStr = some record.name ∧
      (Table.lookup fields "version").bind Json.asStr = some record.version ∧
      (Table.lookup fields "archive_sha256").bind Json.asStr = some record.archiveSha256 ∧
      (Table.lookup fields "public_key").bind Json.asStr = some record.publicKey := by
  obtain ⟨get,got,made⟩ := Option.bind_eq_some_iff.mp read
  obtain rfl := Json.structGet_object got
  simp only [recordOf,bind,Option.bind_eq_some_iff,pure] at made
  obtain ⟨_,_,name,named,version,versioned,_,_,archive,archived,_,_,key,keyed,_,_,_,_,last⟩ := made
  obtain rfl := Option.some.inj last
  exact ⟨Option.bind_eq_some_iff.mpr named,Option.bind_eq_some_iff.mpr versioned,
    Option.bind_eq_some_iff.mpr archived,Option.bind_eq_some_iff.mpr keyed⟩

/-- The document of a trusted record, in order. -/
theorem trustedRecord_ok {text sig canonical id : String} {trust : Trust} {r : Json F} {len : Nat}
    (ok : trustedRecord scheme text sig trust = .ok (r,canonical,len,id)) :
    ∃ fields, r = .object fields ∧ r.Sorted := by
  obtain ⟨s,shaped,ok⟩ := bind_ok ok
  obtain ⟨⟨_,_⟩,_,ok⟩ := bind_ok ok
  dsimp only at ok
  split at ok
  next => cases ok
  next =>
    obtain ⟨_,_,ok⟩ := bind_ok ok
    obtain ⟨_,_,ok⟩ := bind_ok ok
    obtain ⟨rfl,_⟩ := Prod.mk.inj (Except.ok.inj ok)
    have sorted := (shape_ok shaped).1
    obtain ⟨members,_,rfl,_⟩ := shape_object shaped
    exact ⟨members,rfl,sorted⟩

omit [Floats F] in
theorem lookup_set {fields : List (String × Json F)} (sorted : (Json.object fields).Sorted) {key other : String}
    (apart : other ≠ key) (value : Json F) :
    Table.lookup (Table.insertRow key value fields) other = Table.lookup fields other := by
  rw [Table.lookup_insertRow key other value fields sorted.1,if_neg apart]

omit [Floats F] in
/-- Two records read from one document, its numbers put in, name the same package. -/
theorem readRecord_set {fields : List (String × Json F)} (sorted : (Json.object fields).Sorted) {len : Nat}
    {record : Record F} (read : readRecord ((Json.object fields).set "archive_bytes" (jsonNat len)) = some record) :
    (Table.lookup fields "name").bind Json.asStr = some record.name ∧
      (Table.lookup fields "version").bind Json.asStr = some record.version ∧
      (Table.lookup fields "archive_sha256").bind Json.asStr = some record.archiveSha256 ∧
      (Table.lookup fields "public_key").bind Json.asStr = some record.publicKey := by
  have own := readRecord_fields read
  rwa [lookup_set sorted (by decide),lookup_set sorted (by decide),lookup_set sorted (by decide),
    lookup_set sorted (by decide)] at own

theorem readRecord_settled {fields : List (String × Json F)} (sorted : (Json.object fields).Sorted) {len : Nat}
    {record : Record F} (read : readRecord (settled (.object fields) len) = some record) :
    (Table.lookup fields "name").bind Json.asStr = some record.name ∧
      (Table.lookup fields "version").bind Json.asStr = some record.version ∧
      (Table.lookup fields "archive_sha256").bind Json.asStr = some record.archiveSha256 ∧
      (Table.lookup fields "public_key").bind Json.asStr = some record.publicKey := by
  unfold settled at read
  dsimp only at read
  split at read
  next n _ =>
    have numbers : (Json.object (Table.insertRow "archive_bytes" (jsonNat len) fields)).Sorted :=
      Json.set_sorted (show (jsonNat len : Json F).Sorted from trivial) sorted
    have own := readRecord_fields read
    rwa [lookup_set numbers (by decide),lookup_set numbers (by decide),lookup_set numbers (by decide),
      lookup_set numbers (by decide),lookup_set sorted (by decide),lookup_set sorted (by decide),
      lookup_set sorted (by decide),lookup_set sorted (by decide)] at own
  next => exact readRecord_set sorted read

variable [DecidableEq F]

/-- The record that is verified with the bytes names the package of the record that is
trusted without them. -/
theorem verifyRecord_names {text sig : String} {trust : Trust} {manifest archive : Bytes} {record : Record F}
    {package : VerifiedPackage F} (trusted : verifyRecordTrust scheme text sig trust = .ok record)
    (verified : verifyRecord scheme text sig manifest archive trust = .ok package) :
    package.record.name = record.name ∧ package.record.version = record.version ∧
      package.record.archiveSha256 = record.archiveSha256 ∧ package.record.publicKey = record.publicKey := by
  obtain ⟨⟨r,canonical,len,id⟩,read,trusted⟩ := bind_ok trusted
  obtain ⟨⟨r',canonical',len',id'⟩,read',verified⟩ := bind_ok verified
  obtain ⟨rfl,_⟩ := Prod.mk.inj (Except.ok.inj (read.symm.trans read'))
  obtain ⟨fields,rfl,sorted⟩ := trustedRecord_ok read
  dsimp only at trusted verified
  split at trusted
  next => cases trusted
  next found first =>
    obtain rfl := Except.ok.inj trusted
    obtain ⟨name,version,archive_sha,key⟩ := readRecord_set sorted first
    obtain ⟨_,_,verified⟩ := bind_ok verified
    obtain ⟨_,_,verified⟩ := bind_ok verified
    obtain ⟨_,_,verified⟩ := bind_ok verified
    obtain ⟨_,_,verified⟩ := bind_ok verified
    obtain ⟨_,_,verified⟩ := bind_ok verified
    obtain ⟨_,_,verified⟩ := bind_ok verified
    obtain ⟨_,_,verified⟩ := bind_ok verified
    obtain ⟨_,_,verified⟩ := bind_ok verified
    obtain ⟨_,_,verified⟩ := bind_ok verified
    split at verified
    next => cases verified
    next whole second =>
      obtain rfl := Except.ok.inj verified
      obtain ⟨name',version',archive_sha',key'⟩ := readRecord_settled sorted second
      exact ⟨Option.some.inj (name'.symm.trans name),Option.some.inj (version'.symm.trans version),
        Option.some.inj (archive_sha'.symm.trans archive_sha),Option.some.inj (key'.symm.trans key)⟩

/-- What one package of a verified container leaves behind. -/
theorem verifyEntry_ok {members : Table String Archive.ReadMember} {documentBytes certificate : Bytes}
    {key : ScopeKey} {entry : Entry} {bundled : Bundled F}
    (ok : verifyEntry scheme members documentBytes certificate key entry = .ok bundled) :
    ∃ (recordBytes : Bytes) (found : Metadata F), metadata scheme entry recordBytes key = .ok found ∧
      bundled.status = found.status ∧
      verifyRecord scheme found.record found.recordSignature bundled.manifest bundled.archive
        ⟨[key],some found.status.record.publishedAt⟩ = .ok bundled.package ∧
      Utf8.asBytes bundled.proof.document = documentBytes ∧
      Utf8.asBytes bundled.proof.certificate = certificate ∧
      bundled.proof.signature = bundleSignature members ∧ bundled.proof.member = entry.record ∧
      Utf8.asBytes bundled.proof.memberBytes = recordBytes := by
  obtain ⟨recordBytes,_,ok⟩ := bind_ok ok
  obtain ⟨_,_,ok⟩ := bind_ok ok
  obtain ⟨archive,_,ok⟩ := bind_ok ok
  dsimp only at ok
  split at ok
  next => cases ok
  next =>
    obtain ⟨found,read,ok⟩ := bind_ok ok
    obtain ⟨contents,_,ok⟩ := bind_ok ok
    split at ok
    next => cases ok
    next manifest _ =>
      obtain ⟨package,verified,ok⟩ := bind_ok ok
      obtain ⟨documentText,first,ok⟩ := bind_ok ok
      obtain ⟨certificateText,second,ok⟩ := bind_ok ok
      obtain ⟨memberText,third,ok⟩ := bind_ok ok
      obtain rfl := Except.ok.inj ok
      exact ⟨recordBytes,found,read,rfl,mapError_ok verified,textOf_ok first,textOf_ok second,rfl,rfl,
        textOf_ok third⟩

omit [Floats F] [DecidableEq F] in
/-- A fold that keeps something of every item keeps nothing of no item only. -/
theorem foldl_none {α β : Type} {step : Option β → α → Option β} (keeps : ∀ first a, step first a ≠ none) {items : List α}
    {first : Option β} (same : items.foldl step first = none) : items = [] := by
  cases items using List.reverseRecOn with
  | nil => rfl
  | append_singleton items a =>
    rw [List.foldl_append] at same
    exact absurd same (keeps _ a)

theorem unlisted_none {members : Table String Archive.ReadMember} {doc : Document} (none_ : unlisted members doc = none) :
    ∀ path, members.has path = true → path ∈ expectedMembers doc := by
  have empty := foldl_none (fun first row kept => by
    split at kept
    next => cases kept
    next => split at kept <;> cases kept) none_
  intro path has
  obtain ⟨member,found⟩ := Table.has_iff.mp has
  by_contra other
  have listed : (path,member) ∈ members.rows.filter fun row => !(expectedMembers doc).contains row.1 := by
    rw [List.mem_filter]
    exact ⟨Table.mem_rows.mpr found,by simpa using other⟩
  rw [empty] at listed
  cases listed

/-- Every package of a verified bundle leaves a proof that gives the same status back, which
names what its record names; nothing else lies in the container; and a proof gives statuses
only of versions that the signed document lists. -/
theorem bundle_proofs_survive (F : Type) [Floats F] [DecidableEq F] (scheme : Scheme) (root : String) :
    (∀ (bytes : Bytes) (bundle : VerifiedBundle F), verifyBundle F scheme bytes root = .ok bundle →
      (∀ p ∈ bundle.packages, p.proof.verify F scheme root = .ok p.status ∧
        p.status.record.name = p.package.record.name ∧ p.status.record.version = p.package.record.version ∧
        p.status.record.archiveSha256 = p.package.record.archiveSha256 ∧
        some p.status.record.publisherKey = scheme.keyFingerprint p.package.record.publicKey) ∧
      ∃ members, Archive.readMembers bytes = .ok members ∧ ∀ path, members.has path = true →
        path ∈ ["bundle.json","bundle.cert.json","bundle.sig"] ∨
          ∃ entry ∈ bundle.document.records, path = entry.record ∨ path = entry.archive) ∧
    ∀ (proof : Proof) (held : HeldStatus F), proof.verify F scheme root = .ok held →
      ∃ doc key, authenticate F scheme (Utf8.asBytes proof.document) (Utf8.asBytes proof.certificate)
          proof.signature root = .ok (doc,key) ∧
        ∃ entry ∈ doc.records, entry.name = held.record.name ∧ entry.version = held.record.version := by
  constructor
  · intro bytes bundle ok
    obtain ⟨members,read,ok⟩ := bind_ok ok
    obtain ⟨documentBytes,_,ok⟩ := bind_ok ok
    obtain ⟨certificate,_,ok⟩ := bind_ok ok
    obtain ⟨⟨doc,key⟩,authentic,ok⟩ := bind_ok ok
    obtain ⟨packages,each,ok⟩ := bind_ok ok
    split at ok
    next => cases ok
    next clean =>
      obtain rfl := Except.ok.inj ok
      refine ⟨fun p member => ?_,members,mapError_ok read,fun path has => ?_⟩
      · obtain ⟨entry,listed,own⟩ := mapM_ok each p member
        obtain ⟨recordBytes,found,read,status,verified,first,second,third,fourth,fifth⟩ := verifyEntry_ok own
        obtain ⟨record,trusted⟩ := metadata_ok read
        obtain ⟨name,version,archive,publisher⟩ := checkNames_ok trusted.names
        obtain ⟨name',version',archive',key'⟩ := verifyRecord_names trusted.verified verified
        refine ⟨?_,?_,?_,?_,?_⟩
        · unfold Proof.verify
          rw [first,second,third,authentic]
          simp only [bind,Except.bind]
          rw [fourth,find_entry (authenticate_entries authentic) listed,fifth]
          show (metadata scheme entry recordBytes key).map Metadata.status = _
          rw [read,status]
          rfl
        · rw [status,name',name.1,name.2]
        · rw [status,version',version.1,version.2]
        · rw [status,archive',archive.1,archive.2]
        · rw [status,key',publisher]
      · have known := unlisted_none clean path has
        rw [expectedMembers,List.mem_append,List.mem_flatMap] at known
        rcases known with fixed | ⟨entry,listed,own⟩
        · exact .inl fixed
        · refine .inr ⟨entry,listed,?_⟩
          simpa using own
  · intro proof held ok
    obtain ⟨⟨doc,key⟩,authentic,ok⟩ := bind_ok ok
    refine ⟨doc,key,authentic,?_⟩
    dsimp only at ok
    split at ok
    next => cases ok
    next entry found =>
      obtain ⟨data,read,rfl⟩ := map_ok ok
      obtain ⟨record,trusted⟩ := metadata_ok read
      obtain ⟨name,version,_,_⟩ := checkNames_ok trusted.names
      exact ⟨entry,List.mem_of_find?_eq_some found,name.2.symm,version.2.symm⟩

end

end Entorhinal.Package
