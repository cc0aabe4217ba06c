import Entorhinal.ClosureLaw

/-! How an agent's pins are chosen: the candidates of every package reached from its pins and the one
asked for, and the pins of the versions the resolver picks. -/
namespace Entorhinal.Closure

open Catalog (CatalogPin Kind sortPins)
open Package (Scheme hex)
open Utf8 (Bytes)

/-- What a verified record and manifest say of a version. -/
structure VerifiedPackage where
  name : String
  version : String
  kind : Kind
  manifestSha256 : String
  archiveSha256 : String
  publisherFingerprint : String
  requires : List String

/-- The registry as the client sees it; it checks that a version's record has the name asked for. -/
structure CatalogTrust where
  refresh : String → Except HandlerError Unit
  versions : String → Except HandlerError (List String)
  verify : String → String → Except HandlerError VerifiedPackage
  named : ∀ name version package, verify name version = .ok package → package.name = name

/-- The versions picked by name and the ranges of the roots. -/
structure Resolved where
  picks : Table String String
  roots : Table String String

section Prepare
variable (trust : CatalogTrust)

/-- The versions of a package that verify, after those found before. -/
def verifyVersions (name : String) : Nat → List String → Except HandlerError (List VerifiedPackage)
  | _,[] => .ok []
  | found,version :: rest =>
    if 1024 ≤ found then .error ⟨"resolution_limit","too many candidate versions"⟩
    else match trust.verify name version with
      | .error _ => verifyVersions name found rest
      | .ok package => do
        let others ← verifyVersions name (found + 1) rest
        .ok (package :: others)

def candidatesOf (queue seen : List String) (candidates : List VerifiedPackage) :
    Except HandlerError (List String × List VerifiedPackage) :=
  match queue with
  | [] => .ok (seen,candidates)
  | name :: queue =>
    if name ∈ seen then candidatesOf queue seen candidates
    else if _many : 256 < seen.length + 1 then .error ⟨"resolution_limit","too many packages"⟩
    else match trust.refresh name with
      | .error e => .error e
      | .ok _ => match trust.versions name with
        | .error e => .error e
        | .ok versions => match verifyVersions trust name candidates.length versions with
          | .error e => .error e
          | .ok found =>
            candidatesOf (queue ++ found.flatMap VerifiedPackage.requires) (name :: seen) (candidates ++ found)
termination_by (257 - seen.length,queue.length)
decreasing_by
  · exact Prod.Lex.right _ (Nat.lt_succ_self _)
  · exact Prod.Lex.left _ _ (by rw [List.length_cons]; omega)

/-- The pins of the picked versions; none where a pick is no candidate. -/
def closureOf (candidates : List VerifiedPackage) (resolved : Resolved) : Option (List CatalogPin) :=
  resolved.picks.rows.mapM fun pick =>
    (candidates.find? fun p => p.name == pick.1 && p.version == pick.2).map fun p =>
      ⟨pick.1,pick.2,p.kind,p.manifestSha256,p.archiveSha256,p.publisherFingerprint,
        resolved.roots.has pick.1,resolved.roots.get? pick.1⟩

/-- The packages held and asked for are refreshed first. `resolve` is the resolver over the
candidates, the statuses and the capabilities. -/
def prepare (resolve : List VerifiedPackage → Except HandlerError Resolved) (pins : List CatalogPin)
    (package : String) : Except HandlerError (Option (List CatalogPin)) := do
  let queue := pins.map CatalogPin.name ++ [package]
  let _ ← queue.mapM trust.refresh
  let (_,candidates) ← candidatesOf trust queue [] []
  let resolved ← resolve candidates
  .ok (closureOf candidates resolved)

end Prepare

/-- The pins an agent can come to have: none, and whatever is prepared from those it has. -/
inductive Admitted : List CatalogPin → Prop
  | none : Admitted []
  | stored {pins closure : List CatalogPin} (trust : CatalogTrust)
      (resolve : List VerifiedPackage → Except HandlerError Resolved) (package : String) (held : Admitted pins)
      (prepared : prepare trust resolve pins package = .ok (some closure)) : Admitted (sortPins closure)

section Bound
variable {trust : CatalogTrust}

theorem verifyVersions_named {name : String} {versions : List String} {count : Nat} {found : List VerifiedPackage}
    (ok : verifyVersions trust name count versions = .ok found) : ∀ package ∈ found, package.name = name := by
  induction versions generalizing count found with
  | nil => cases ok; exact nofun
  | cons version rest ih =>
    rw [verifyVersions] at ok
    split_ifs at ok
    split at ok
    next => exact ih ok
    next package verified =>
      obtain ⟨others,after,ok⟩ := bind_ok ok
      cases ok
      exact List.forall_mem_cons.mpr ⟨trust.named _ _ _ verified,ih after⟩

/-- The packages seen are few, and every candidate is a version of one of them. -/
structure Seen (seen : List String) (candidates : List VerifiedPackage) : Prop where
  once : seen.Nodup
  few : seen.length ≤ 256
  known : ∀ package ∈ candidates, package.name ∈ seen

theorem candidatesOf_seen {queue seen seen' : List String} {candidates candidates' : List VerifiedPackage}
    (before : Seen seen candidates) (ok : candidatesOf trust queue seen candidates = .ok (seen',candidates')) :
    Seen seen' candidates' := by
  induction queue, seen, candidates using candidatesOf.induct trust with
  | case1 seen candidates =>
    rw [candidatesOf] at ok
    cases ok
    exact before
  | case2 seen candidates name queue again ih =>
    rw [candidatesOf,if_pos again] at ok
    exact ih before ok
  | case3 seen candidates name queue fresh many =>
    rw [candidatesOf,if_neg fresh,dif_pos many] at ok
    cases ok
  | case4 seen candidates name queue fresh few e failed =>
    rw [candidatesOf,if_neg fresh,dif_neg few,failed] at ok
    cases ok
  | case5 seen candidates name queue fresh few fetched refreshed e failed =>
    rw [candidatesOf,if_neg fresh,dif_neg few,refreshed] at ok
    dsimp only at ok
    rw [failed] at ok
    cases ok
  | case6 seen candidates name queue fresh few fetched refreshed versions listed e failed =>
    rw [candidatesOf,if_neg fresh,dif_neg few,refreshed] at ok
    dsimp only at ok
    rw [listed] at ok
    dsimp only at ok
    rw [failed] at ok
    cases ok
  | case7 seen candidates name queue fresh few fetched refreshed versions listed found verified ih =>
    rw [candidatesOf,if_neg fresh,dif_neg few,refreshed] at ok
    dsimp only at ok
    rw [listed] at ok
    dsimp only at ok
    rw [verified] at ok
    refine ih ⟨List.nodup_cons.mpr ⟨fresh,before.once⟩,by rw [List.length_cons]; omega,fun package member => ?_⟩ ok
    rcases List.mem_append.mp member with old | new
    · exact List.mem_cons_of_mem _ (before.known package old)
    · rw [verifyVersions_named verified package new]
      exact List.mem_cons_self

/-- No more packages are pinned than were seen. -/
theorem closureOf_few {seen : List String} {candidates : List VerifiedPackage} {resolved : Resolved}
    {closure : List CatalogPin} (known : Seen seen candidates) (ok : closureOf candidates resolved = some closure) :
    closure.length ≤ 256 := by
  have inside : resolved.picks.keys ⊆ seen := by
    intro name member
    obtain ⟨pick,there,rfl⟩ := List.mem_map.mp member
    obtain ⟨_,made⟩ := mapM_some ok pick there
    have found := Option.isSome_of_eq_some made
    rw [Option.isSome_map,List.find?_isSome] at found
    obtain ⟨package,among,same⟩ := found
    rw [Bool.and_eq_true] at same
    exact beq_iff_eq.mp same.1 ▸ known.known package among
  have least := (List.subperm_of_subset resolved.picks.keys_nodup inside).length_le
  rw [← (mapM_pairs ok).length_eq]
  rw [Table.keys,List.length_map] at least
  exact least.trans known.few

theorem Admitted.few {pins : List CatalogPin} (admitted : Admitted pins) : pins.length ≤ 256 := by
  cases admitted with
  | none => exact Nat.zero_le _
  | stored trust resolve package held prepared =>
    obtain ⟨_,_,prepared⟩ := bind_ok prepared
    obtain ⟨⟨seen,candidates⟩,walked,prepared⟩ := bind_ok prepared
    obtain ⟨resolved,_,prepared⟩ := bind_ok prepared
    have known := candidatesOf_seen ⟨List.nodup_nil,Nat.zero_le _,fun _ member => absurd member List.not_mem_nil⟩ walked
    have few := closureOf_few known (Except.ok.inj prepared)
    rw [sortPins,List.length_insertionSort]
    exact few

/-- The digests of admitted pins are within the count that is accepted. -/
theorem Admitted.fits {pins : List CatalogPin} (admitted : Admitted pins) : (digests pins).length ≤ 512 := by
  have length := digests_length pins
  have few := admitted.few
  omega

end Bound

section Trip
variable (scheme : Scheme) (describe : Archive.ArchiveError → String)

/-- What is written of the pins is accepted, and staged as one file for each pinned digest. -/
def Sent (store : BlobStore) (pins : List CatalogPin) : Prop :=
  ∃ stream staged, encode scheme store pins describe = .ok (stream,stream.length,scheme.sha256Hex stream) ∧
    decode scheme stream pins = .ok staged ∧ staged.map Prod.fst = digests pins ∧
    ∀ file ∈ staged, scheme.sha256Hex file.2 = file.1

theorem sent_available {store : BlobStore} {pins : List CatalogPin} (available : Available scheme store pins)
    (few : (digests pins).length ≤ 512) : Sent scheme describe store pins := by
  obtain ⟨blobs,same,small,encoded⟩ := @encode_available scheme _ _ describe available
  have count : blobs.length ≤ 512 := by rwa [← same,List.length_map] at few
  refine ⟨_,_,encoded,decode_iff.mpr ⟨blobs,rfl,rfl,same,small,count⟩,?_,fun file member => ?_⟩
  · rw [List.map_map,← same]
    rfl
  · obtain ⟨bytes,_,rfl⟩ := List.mem_map.mp member
    rfl

/-- Where every pinned archive is held and every manifest is held, or absent and in its archive,
what is written is staged again; nothing is accepted but the pinned digests, ascending and once
each, with the blobs they are the hashes of and nothing after them; and the pins an agent can come
to have are within the caps. -/
theorem closure_round_trip :
    (∀ store pins, Available scheme store pins → (digests pins).length ≤ 512 → Sent scheme describe store pins) ∧
    (∀ stream pins staged, decode scheme stream pins = .ok staged ↔
      ∃ blobs : List Bytes, stream = streamOf scheme blobs ∧ Ascending none (blobs.map scheme.sha256) ∧
        staged = blobs.map (fun bytes => (scheme.sha256Hex bytes,bytes)) ∧
        blobs.map scheme.sha256Hex = digests pins ∧ (∀ bytes ∈ blobs, bytes.length ≤ BLOB_CAP) ∧
        blobs.length ≤ 512) ∧
    ∀ store pins, Admitted pins → Available scheme store pins → Sent scheme describe store pins := by
  refine ⟨fun store pins available few => sent_available scheme describe available few,fun stream pins staged => ?_,
    fun store pins admitted available => sent_available scheme describe available admitted.fits⟩
  rw [decode_iff]
  constructor
  · rintro ⟨blobs,shape,files,same,bounds⟩
    exact ⟨blobs,shape,ascending_iff.mpr (same ▸ digests_strict pins),files,same,bounds⟩
  · rintro ⟨blobs,shape,-,files,same,bounds⟩
    exact ⟨blobs,shape,files,same,bounds⟩

end Trip

namespace Packed

/-- A manifest, and an archive of nothing else. -/
def manifest : Bytes := [123,125]

def members : List Archive.Member := [.regular "ck.json" manifest]

/-- A hash that tells the manifest, the empty file and the archive apart. -/
def scheme : Scheme where
  sha256 bytes :=
    if bytes = [] then List.replicate 32 0 else if bytes = manifest then List.replicate 32 1 else List.replicate 32 2
  sha256_length bytes := by split_ifs <;> rfl
  verifyStrict _ _ _ := false

def pin : CatalogPin where
  name := "@a/b"
  version := "1.0.0"
  kind := .skill
  manifestSha256 := hex (List.replicate 32 1)
  archiveSha256 := hex (List.replicate 32 2)
  publisherFingerprint := "f"
  root := true
  range := some "*"

/-- The archive, with or without a file under the manifest's digest. -/
def store (archive : Bytes) (file : Option Bytes) : BlobStore := fun digest =>
  if digest = pin.archiveSha256 then some archive else if digest = pin.manifestSha256 then file else none

theorem apart : pin.manifestSha256 ≠ pin.archiveSha256 := fun same => by cases hex_inj same

theorem written : ∃ out, Archive.write members = .ok out ∧ out.length = 2048 := by
  have length : (Archive.write members).toOption.map List.length = some 2048 := by decide +kernel
  cases made : Archive.write members with
  | error e => rw [made] at length; cases length
  | ok out =>
    rw [made] at length
    exact ⟨out,rfl,Option.some.inj length⟩

theorem archive_held {out : Bytes} (long : out.length = 2048) (file : Option Bytes) :
    Held scheme (store out file) pin.archiveSha256 out := by
  refine ⟨if_pos rfl,by rw [long]; decide,?_⟩
  have filled : out ≠ [] := fun none_ => by rw [none_] at long; cases long
  have other : out ≠ manifest := fun same => by rw [same] at long; cases long
  rw [Scheme.sha256Hex,scheme]
  dsimp only
  rw [if_neg filled,if_neg other]
  rfl

theorem in_archive {out : Bytes} (made : Archive.write members = .ok out) (long : out.length = 2048)
    (file : Option Bytes) : InArchive scheme (store out file) pin := by
  obtain ⟨table,read,_,holds⟩ := Archive.read_written made
  exact ⟨out,table,manifest,archive_held long file,read,(holds _ _).mpr List.mem_cons_self,rfl⟩

/-- A registry of one package with one version. -/
def trust : CatalogTrust where
  refresh _ := .ok ()
  versions _ := .ok ["1.0.0"]
  verify name version := .ok ⟨name,version,.skill,pin.manifestSha256,pin.archiveSha256,"f",[]⟩
  named := by
    intro name version package ok
    cases ok
    rfl

def resolve (_ : List VerifiedPackage) : Except HandlerError Resolved :=
  .ok ⟨(∅ : Table String String).insert "@a/b" "1.0.0",(∅ : Table String String).insert "@a/b" "*"⟩

theorem admitted : Admitted [pin] := by
  have walked : candidatesOf trust ["@a/b"] [] [] =
      .ok (["@a/b"],[⟨"@a/b","1.0.0",.skill,pin.manifestSha256,pin.archiveSha256,"f",[]⟩]) := by
    rw [candidatesOf,if_neg List.not_mem_nil,dif_neg (by decide)]
    show candidatesOf trust [] ["@a/b"] _ = _
    rw [candidatesOf]
    rfl
  have prepared : prepare trust resolve [] "@a/b" = .ok (some [pin]) := by
    rw [prepare]
    simp only [List.map_nil,List.nil_append,walked]
    rfl
  exact .stored trust resolve "@a/b" .none prepared

theorem recovered_sent : ∃ out, Archive.write members = .ok out ∧
    Sent scheme (fun _ => "") (store out none) [pin] := by
  obtain ⟨out,made,long⟩ := written
  have available : Available scheme (store out none) [pin] := by
    intro other member
    obtain rfl := List.mem_singleton.mp member
    exact ⟨⟨out,archive_held long none⟩,.inr ⟨by rw [store,if_neg apart,if_pos rfl],in_archive made long none⟩⟩
  exact ⟨out,made,(closure_round_trip scheme fun _ => "").2.2 _ _ admitted available⟩

/-- A corrupt file under the manifest's digest is refused, though the archive has the manifest. -/
theorem corrupt_refused : ¬∀ (scheme : Scheme) (store : BlobStore) (pins : List CatalogPin),
    (∀ pin ∈ pins, (∃ bytes, Held scheme store pin.archiveSha256 bytes) ∧
      ((∃ bytes, Held scheme store pin.manifestSha256 bytes) ∨ InArchive scheme store pin)) →
    (digests pins).length ≤ 512 → Sent scheme (fun _ => "") store pins := by
  intro claim
  obtain ⟨out,made,long⟩ := written
  obtain ⟨stream,staged,sent,-⟩ := claim scheme (store out (some [])) [pin]
    (fun other member => by
      obtain rfl := List.mem_singleton.mp member
      exact ⟨⟨out,archive_held long _⟩,.inr (in_archive made long _)⟩)
    ((digests_length _).trans (by decide))
  obtain ⟨frames,framed,-⟩ := bind_ok sent
  obtain ⟨_,_,one⟩ := mapM_item framed pin.manifestSha256 (mem_digests.mpr ⟨pin,List.mem_cons_self,.inl rfl⟩)
  obtain ⟨bytes,read,-⟩ := bind_ok one
  have corrupt : readVerified scheme (store out (some [])) pin.manifestSha256 =
      .error ⟨"blob_corrupt","corrupted blob " ++ pin.manifestSha256⟩ := by
    have file : store out (some []) pin.manifestSha256 = some [] := by rw [store,if_neg apart,if_pos rfl]
    unfold readVerified
    rw [file]
    rfl
  rw [blob,corrupt] at read
  cases read

end Packed

end Entorhinal.Closure
