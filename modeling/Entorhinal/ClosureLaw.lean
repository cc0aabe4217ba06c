import Entorhinal.ArchiveLaw
import Entorhinal.Closure
import Entorhinal.PublishLaw
import Mathlib.Data.List.Dedup
import Mathlib.Data.List.Sort

/-! The stream of package bytes: what is accepted of it, and that what is written is accepted. -/
namespace Entorhinal.Closure

open Catalog (CatalogPin)
open Package (Scheme hex isHex decodeHex hexBytes)
open Utf8 (Bytes)

section Hex

theorem hexValue_digit : ∀ d < 16, Package.hexValue (Nat.digitChar d) = d := by decide

theorem digitChar_lt : ∀ i < 16, ∀ j < 16, i < j → Nat.digitChar i < Nat.digitChar j := by decide

theorem hex_toList (bytes : Bytes) : (hex bytes).toList =
    bytes.flatMap fun b => [Nat.digitChar (b.toNat / 16),Nat.digitChar (b.toNat % 16)] := String.toList_ofList

theorem hexBytes_hex (bytes : Bytes) : hexBytes (hex bytes).toList = bytes := by
  rw [hex_toList]
  induction bytes with
  | nil => rfl
  | cons b rest ih =>
    have small := b.toNat_lt
    rw [List.flatMap_cons]
    show UInt8.ofNat (Package.hexValue _ * 16 + Package.hexValue _) :: hexBytes (rest.flatMap _) = _
    rw [hexValue_digit _ (by omega),hexValue_digit _ (by omega),ih,Nat.div_add_mod',UInt8.ofNat_toNat]

theorem hex_inj {a b : Bytes} (same : hex a = hex b) : a = b := by
  rw [← hexBytes_hex a,same,hexBytes_hex]

theorem unhex_hex (bytes : Bytes) : unhex (hex bytes) = .ok bytes := by
  have written := Package.isHex_hex bytes
  have length : (hex bytes).toList.length = bytes.length * 2 := by
    rw [isHex,Bool.and_eq_true] at written
    exact beq_iff_eq.mp written.1
  rw [unhex,length,Nat.mul_div_cancel _ (by decide),if_pos written,hexBytes_hex]

/-- Texts of digests are ordered as the digests are. -/
theorem hex_lt {a b : Bytes} (less : BigEndian.rank a < BigEndian.rank b) : hex a < hex b := by
  rw [String.lt_iff_toList_lt,hex_toList,hex_toList]
  induction a generalizing b with
  | nil =>
    cases b with
    | nil => exact absurd less (lt_irrefl _)
    | cons y b => exact List.nil_lt_cons _ _
  | cons x a ih =>
    cases b with
    | nil => exact absurd less (List.not_lt_nil _)
    | cons y b =>
      have smallX := x.toNat_lt
      have smallY := y.toNat_lt
      rw [List.flatMap_cons,List.flatMap_cons]
      show _ :: _ :: _ < _ :: _ :: _
      rw [List.cons_lt_cons_iff,List.cons_lt_cons_iff]
      rcases List.cons_lt_cons_iff.mp less with first | ⟨same,rest⟩
      · by_cases high : x.toNat / 16 = y.toNat / 16
        · exact .inr ⟨congrArg _ high,.inl (digitChar_lt _ (by omega) _ (by omega) (by omega))⟩
        · exact .inl (digitChar_lt _ (by omega) _ (by omega) (by omega))
      · rw [same]
        exact .inr ⟨rfl,.inr ⟨rfl,ih rest⟩⟩

theorem hex_lt_iff {a b : Bytes} : hex a < hex b ↔ BigEndian.rank a < BigEndian.rank b := by
  refine ⟨fun less => ?_,hex_lt⟩
  rcases lt_trichotomy (BigEndian.rank a) (BigEndian.rank b) with there | same | back
  · exact there
  · exact absurd (BigEndian.rank_inj same ▸ less) (lt_irrefl _)
  · exact absurd (less.trans (hex_lt back)) (lt_irrefl _)

end Hex

section Read

theorem if_invalid {α : Type} {c : Prop} [Decidable c] {message : String} {next : Except HandlerError α} {result : α} :
    (if c then invalid message else next) = .ok result ↔ ¬c ∧ next = .ok result := by
  by_cases holds : c
  · rw [if_pos holds]
    exact iff_of_false nofun fun both => both.1 holds
  · rw [if_neg holds]
    exact ⟨fun ok => ⟨holds,ok⟩,fun both => both.2⟩

theorem take_drop_iff {n : Nat} {stream front rest : Bytes} :
    n ≤ stream.length ∧ stream.take n = front ∧ stream.drop n = rest ↔ stream = front ++ rest ∧ front.length = n := by
  constructor
  · rintro ⟨long,rfl,rfl⟩
    exact ⟨(List.take_append_drop n stream).symm,List.length_take_of_le long⟩
  · rintro ⟨rfl,rfl⟩
    exact ⟨by rw [List.length_append]; omega,List.take_left,List.drop_left⟩

theorem readExact_iff {n : Nat} {stream front rest : Bytes} :
    readExact n stream = .ok (front,rest) ↔ stream = front ++ rest ∧ front.length = n := by
  rw [← take_drop_iff,readExact]
  split_ifs with short
  · exact iff_of_false nofun fun holds => Nat.not_lt.mpr holds.1 short
  · simp [Nat.le_of_not_lt short]

theorem readBlob_iff {n : Nat} {stream front rest : Bytes} :
    readBlob n stream = .ok (front,rest) ↔ stream = front ++ rest ∧ front.length = n := by
  rw [← take_drop_iff,readBlob]
  split_ifs with short
  · exact iff_of_false nofun fun holds => Nat.not_lt.mpr holds.1 short
  · simp [Nat.le_of_not_lt short]

end Read

section Frames
variable {scheme : Scheme} {wanted : List String}

def frame (scheme : Scheme) (bytes : Bytes) : Bytes :=
  scheme.sha256 bytes ++ BigEndian.write 8 bytes.length ++ bytes

/-- A blob of the stream: it fits, and it is pinned. -/
def Fits (scheme : Scheme) (wanted : List String) (bytes : Bytes) : Prop :=
  bytes.length ≤ BLOB_CAP ∧ scheme.sha256Hex bytes ∈ wanted

def Ascending (previous : Option Bytes) (raws : List Bytes) : Prop :=
  List.IsChain (fun a b => BigEndian.rank a < BigEndian.rank b) (previous.toList ++ raws)

theorem ascending_cons {previous : Option Bytes} {raw : Bytes} {raws : List Bytes} :
    Ascending previous (raw :: raws) ↔ (∀ p ∈ previous, BigEndian.rank p < BigEndian.rank raw) ∧
      Ascending (some raw) raws := by
  cases previous with
  | none => simp [Ascending]
  | some p => simp [Ascending,List.isChain_cons_cons]

theorem decodeFrames_iff {count : Nat} {previous : Option Bytes} {stream rest : Bytes} {staged : List (String × Bytes)} :
    decodeFrames scheme wanted count previous stream = .ok (staged,rest) ↔
      ∃ blobs : List Bytes, blobs.length = count ∧ stream = (blobs.map (frame scheme)).flatten ++ rest ∧
        staged = blobs.map (fun bytes => (scheme.sha256Hex bytes,bytes)) ∧
        (∀ bytes ∈ blobs, Fits scheme wanted bytes) ∧ Ascending previous (blobs.map scheme.sha256) := by
  induction count generalizing previous stream staged with
  | zero =>
    constructor
    · intro ok
      cases ok
      refine ⟨[],rfl,rfl,rfl,nofun,?_⟩
      cases previous <;> simp [Ascending]
    · rintro ⟨blobs,length,rfl,rfl,-⟩
      obtain rfl := List.length_eq_zero_iff.mp length
      rfl
  | succ count ih =>
    rw [decodeFrames]
    constructor
    · intro ok
      obtain ⟨⟨raw,tail⟩,first,ok⟩ := bind_ok ok
      obtain ⟨descends,ok⟩ := if_invalid.mp ok
      obtain ⟨⟨size,tail'⟩,second,ok⟩ := bind_ok ok
      obtain ⟨large,ok⟩ := if_invalid.mp ok
      obtain ⟨⟨bytes,tail''⟩,third,ok⟩ := bind_ok ok
      obtain ⟨differs,ok⟩ := if_invalid.mp ok
      obtain ⟨stray,ok⟩ := if_invalid.mp ok
      dsimp only at first second third large differs stray ok
      obtain ⟨⟨others,left⟩,after,ok⟩ := bind_ok ok
      cases ok
      obtain ⟨rfl,rawLength⟩ := readExact_iff.mp first
      obtain ⟨rfl,sizeLength⟩ := readExact_iff.mp second
      obtain ⟨rfl,length⟩ := readBlob_iff.mp third
      obtain ⟨blobs,count_,rfl,rfl,fits,chain⟩ := ih.mp after
      have hashed : scheme.sha256 bytes = raw := hex_inj (not_not.mp differs)
      have sized : BigEndian.write 8 bytes.length = size := by
        rw [length,← sizeLength]
        exact BigEndian.write_read size
      refine ⟨bytes :: blobs,by rw [List.length_cons,count_],?_,?_,List.forall_mem_cons.mpr ⟨⟨by omega,?_⟩,fits⟩,?_⟩
      · rw [List.map_cons,List.flatten_cons,frame,hashed,sized]
        simp only [List.append_assoc]
      · rw [List.map_cons,Scheme.sha256Hex,hashed]
      · rw [Scheme.sha256Hex,hashed]
        exact not_not.mp stray
      · rw [List.map_cons,hashed,ascending_cons]
        refine ⟨fun p is => lt_of_not_ge fun back => descends ?_,chain⟩
        rw [Option.mem_def.mp is]
        exact decide_eq_true back
    · rintro ⟨blobs,length,rfl,rfl,fits,chain⟩
      obtain ⟨bytes,blobs,rfl⟩ := List.exists_cons_of_length_eq_add_one length
      obtain ⟨⟨small,pinned⟩,fits⟩ := List.forall_mem_cons.mp fits
      rw [List.map_cons,ascending_cons] at chain
      have after := ih.mpr ⟨blobs,Nat.succ_injective length,rfl,rfl,fits,chain.2⟩
      have first : readExact 32 (((bytes :: blobs).map (frame scheme)).flatten ++ rest) = .ok (scheme.sha256 bytes,
          BigEndian.write 8 bytes.length ++ (bytes ++ ((blobs.map (frame scheme)).flatten ++ rest))) := by
        refine readExact_iff.mpr ⟨?_,scheme.sha256_length bytes⟩
        rw [List.map_cons,List.flatten_cons,frame]
        simp only [List.append_assoc]
      have second : readExact 8 (BigEndian.write 8 bytes.length ++
          (bytes ++ ((blobs.map (frame scheme)).flatten ++ rest))) = .ok (BigEndian.write 8 bytes.length,
          bytes ++ ((blobs.map (frame scheme)).flatten ++ rest)) :=
        readExact_iff.mpr ⟨rfl,BigEndian.write_length _ _⟩
      have third : readBlob bytes.length (bytes ++ ((blobs.map (frame scheme)).flatten ++ rest)) =
          .ok (bytes,(blobs.map (frame scheme)).flatten ++ rest) := readBlob_iff.mpr ⟨rfl,rfl⟩
      have ordered : ¬(previous.any fun p =>
          decide (BigEndian.rank (scheme.sha256 bytes) ≤ BigEndian.rank p)) = true := by
        intro descends
        cases previous with
        | none => cases descends
        | some p => exact absurd (of_decide_eq_true descends) (not_le_of_gt (chain.1 p rfl))
      have value : BigEndian.read (BigEndian.write 8 bytes.length) = bytes.length :=
        BigEndian.read_written (by simp only [BLOB_CAP] at small; omega)
      rw [first]
      simp only [bind,Except.bind]
      rw [if_neg ordered,second]
      dsimp only
      rw [value,if_neg (Nat.not_lt.mpr small),third]
      exact if_invalid.mpr ⟨not_not.mpr rfl,if_invalid.mpr ⟨not_not.mpr pinned,by rw [after]; rfl⟩⟩

end Frames

section Digests

theorem digests_strict (pins : List CatalogPin) : (digests pins).Pairwise (· < ·) := by
  have sorted : (digests pins).Pairwise (· ≤ ·) := List.pairwise_insertionSort _ _
  have apart : (digests pins).Nodup := (List.perm_insertionSort _ _).nodup_iff.mpr (List.nodup_dedup _)
  exact (sorted.and apart).imp fun {a b} both => lt_of_le_of_ne both.1 both.2

theorem mem_digests {pins : List CatalogPin} {digest : String} :
    digest ∈ digests pins ↔ ∃ pin ∈ pins, digest = pin.manifestSha256 ∨ digest = pin.archiveSha256 := by
  rw [digests,List.mem_insertionSort,List.mem_dedup,List.mem_flatMap]
  simp only [List.mem_cons,List.not_mem_nil,or_false]

theorem digests_length (pins : List CatalogPin) : (digests pins).length ≤ 2 * pins.length := by
  rw [digests,List.length_insertionSort]
  refine (List.dedup_sublist _).length_le.trans (le_of_eq ?_)
  induction pins with
  | nil => rfl
  | cons pin rest ih =>
    rw [List.flatMap_cons,List.length_append,ih,List.length_cons]
    simp only [List.length_cons,List.length_nil]
    omega

end Digests

section Stream
variable {scheme : Scheme} {pins : List CatalogPin} {stream : Bytes} {staged : List (String × Bytes)}

/-- The stream of these blobs. -/
def streamOf (scheme : Scheme) (blobs : List Bytes) : Bytes :=
  MAGIC ++ BigEndian.write 4 blobs.length ++ (blobs.map (frame scheme)).flatten

theorem ascending_iff {blobs : List Bytes} :
    Ascending none (blobs.map scheme.sha256) ↔ (blobs.map scheme.sha256Hex).Pairwise (· < ·) := by
  rw [Ascending,Option.toList_none,List.nil_append,List.isChain_iff_pairwise,List.pairwise_map,List.pairwise_map]
  exact ⟨fun rising => rising.imp hex_lt_iff.mpr,fun rising => rising.imp hex_lt_iff.mp⟩

/-- What is accepted: the pinned digests and no others, ascending and once each, with blobs they
are the hashes of, and nothing after. -/
theorem decode_iff : decode scheme stream pins = .ok staged ↔
    ∃ blobs : List Bytes, stream = streamOf scheme blobs ∧
      staged = blobs.map (fun bytes => (scheme.sha256Hex bytes,bytes)) ∧
      blobs.map scheme.sha256Hex = digests pins ∧ (∀ bytes ∈ blobs, bytes.length ≤ BLOB_CAP) ∧
      blobs.length ≤ 512 := by
  rw [decode]
  constructor
  · intro ok
    obtain ⟨⟨magic,tail⟩,first,ok⟩ := bind_ok ok
    obtain ⟨other,ok⟩ := if_invalid.mp ok
    obtain ⟨⟨size,tail'⟩,second,ok⟩ := bind_ok ok
    obtain ⟨miscounted,ok⟩ := if_invalid.mp ok
    obtain ⟨⟨files,rest⟩,framed,ok⟩ := bind_ok ok
    obtain ⟨trailing,ok⟩ := if_invalid.mp ok
    cases ok
    obtain ⟨rfl,-⟩ := readExact_iff.mp first
    obtain ⟨rfl,width⟩ := readExact_iff.mp second
    obtain ⟨blobs,count,rfl,rfl,fits,chain⟩ := decodeFrames_iff.mp framed
    obtain ⟨counted,few⟩ := not_or.mp miscounted
    obtain rfl := not_not.mp other
    obtain rfl := not_not.mp trailing
    have rising := ascending_iff.mp chain
    have apart : (blobs.map scheme.sha256Hex).Nodup := rising.imp fun less => ne_of_lt less
    have inside : blobs.map scheme.sha256Hex ⊆ digests pins := by
      intro digest member
      obtain ⟨bytes,there,rfl⟩ := List.mem_map.mp member
      exact (fits bytes there).2
    have same : (blobs.map scheme.sha256Hex).Perm (digests pins) :=
      (List.subperm_of_subset apart inside).perm_of_length_le (by rw [List.length_map,count,not_not.mp counted])
    refine ⟨blobs,?_,rfl,?_,fun bytes there => (fits bytes there).1,by omega⟩
    · have width : BigEndian.write 4 blobs.length = size := by
        rw [count,← width]
        exact BigEndian.write_read size
      rw [streamOf,width,List.append_nil,List.append_assoc]
    · exact List.Perm.eq_of_pairwise (fun a b _ _ ab ba => absurd (ab.trans ba) (lt_irrefl _)) rising
        (digests_strict pins) same
  · rintro ⟨blobs,rfl,rfl,all,small,few⟩
    have count : (digests pins).length = blobs.length := by rw [← all,List.length_map]
    have value : BigEndian.read (BigEndian.write 4 blobs.length) = blobs.length := BigEndian.read_written (by omega)
    have first : readExact 22 (streamOf scheme blobs) =
        .ok (MAGIC,BigEndian.write 4 blobs.length ++ (blobs.map (frame scheme)).flatten) :=
      readExact_iff.mpr ⟨by rw [streamOf,List.append_assoc],rfl⟩
    have second : readExact 4 (BigEndian.write 4 blobs.length ++ (blobs.map (frame scheme)).flatten) =
        .ok (BigEndian.write 4 blobs.length,(blobs.map (frame scheme)).flatten) :=
      readExact_iff.mpr ⟨rfl,BigEndian.write_length _ _⟩
    have framed : decodeFrames scheme (digests pins) blobs.length none (blobs.map (frame scheme)).flatten =
        .ok (blobs.map (fun bytes => (scheme.sha256Hex bytes,bytes)),[]) := by
      refine decodeFrames_iff.mpr ⟨blobs,rfl,(List.append_nil _).symm,rfl,fun bytes there => ⟨small bytes there,?_⟩,
        ascending_iff.mpr (all ▸ digests_strict pins)⟩
      exact all ▸ List.mem_map_of_mem there
    rw [first]
    simp only [bind,Except.bind]
    rw [if_neg (not_not.mpr rfl),second]
    dsimp only
    rw [value,if_neg (not_or.mpr ⟨not_not.mpr count.symm,Nat.not_lt.mpr few⟩),framed]
    dsimp only
    rw [if_neg (not_not.mpr rfl)]

end Stream

section Members
variable {archive : Bytes}

theorem slice_le (bytes : Bytes) (start stop : Nat) : (Archive.slice bytes start stop).length ≤ bytes.length := by
  rw [Archive.slice,List.length_take,List.length_drop]
  omega

theorem turn_member {offset next : Nat} {members : Table String Archive.ReadMember} {lower : Table String String}
    {path : String} {member : Archive.ReadMember}
    (read : Archive.turn archive offset members lower = .ok (some (path,member,next))) :
    member.bytes.length ≤ archive.length := by
  unfold Archive.turn at read
  split at read
  next => cases read
  next =>
    dsimp only at read
    split at read
    next =>
      obtain ⟨_,_,read⟩ := bind_ok read
      cases read
    next =>
      obtain ⟨⟨found,size⟩,_,read⟩ := bind_ok read
      obtain ⟨⟨kept,after⟩,admitted,read⟩ := bind_ok read
      cases read
      unfold Archive.readMember at admitted
      dsimp only at admitted
      split at admitted
      next => cases admitted
      next =>
        split at admitted
        next => cases admitted
        next =>
          split at admitted
          next => cases admitted
          next =>
            split at admitted
            next => cases admitted
            next =>
              simp only [Except.ok.injEq,Prod.mk.injEq] at admitted
              have taken := congrArg Archive.ReadMember.bytes admitted.1
              rw [← taken]
              generalize offset + 512 = start
              exact slice_le archive start (start + size)

theorem readFrom_members {offset : Nat} {members table : Table String Archive.ReadMember} {lower : Table String String}
    (initial : ∀ path member, members.get? path = some member → member.bytes.length ≤ archive.length)
    (read : Archive.readFrom archive offset members lower = .ok table) :
    ∀ path member, table.get? path = some member → member.bytes.length ≤ archive.length := by
  induction offset, members, lower using Archive.readFrom.induct archive with
  | case1 offset members lower e failed =>
    rw [Archive.readFrom] at read
    split at read
    next => cases read
    next ended => rw [failed] at ended; cases ended
    next found => rw [failed] at found; cases found
  | case2 offset members lower ended =>
    rw [Archive.readFrom_done ended] at read
    cases read
    exact initial
  | case3 offset members lower path member next found ih =>
    rw [Archive.readFrom_next found] at read
    refine ih (fun path' member' there => ?_) read
    rw [Table.get?_insert] at there
    split_ifs at there
    · cases there
      exact turn_member found
    · exact initial path' member' there

/-- A member is no longer than its archive. -/
theorem read_length {table : Table String Bytes} {path : String} {bytes : Bytes} (read : Archive.read archive = .ok table)
    (there : table.get? path = some bytes) : bytes.length ≤ archive.length := by
  obtain ⟨members,parsed,read⟩ := bind_ok read
  rw [Archive.readMembers] at parsed
  split_ifs at parsed
  split_ifs at read
  cases read
  rw [Table.get?_update] at there
  obtain ⟨member,inside,rfl⟩ := Option.map_eq_some_iff.mp there
  have initial : ∀ path member, (∅ : Table String Archive.ReadMember).get? path = some member →
      member.bytes.length ≤ archive.length := by
    intro _ _ there
    rw [Table.get?_empty] at there
    cases there
  exact readFrom_members initial parsed path member inside

end Members

section Encode
variable {scheme : Scheme} {store : BlobStore} {pins : List CatalogPin} {describe : Archive.ArchiveError → String}

/-- The file under a digest, where it fits and the digest is its hash. -/
def Held (scheme : Scheme) (store : BlobStore) (digest : String) (bytes : Bytes) : Prop :=
  store digest = some bytes ∧ bytes.length ≤ BLOB_CAP ∧ scheme.sha256Hex bytes = digest

/-- The manifest in the archive pinned with it. -/
def InArchive (scheme : Scheme) (store : BlobStore) (pin : CatalogPin) : Prop :=
  ∃ bytes members manifest, Held scheme store pin.archiveSha256 bytes ∧ Archive.read bytes = .ok members ∧
    members.get? "ck.json" = some manifest ∧ scheme.sha256Hex manifest = pin.manifestSha256

/-- A pin's archive is held, and its manifest is, or no file is under its digest and the archive has it. -/
def Available (scheme : Scheme) (store : BlobStore) (pins : List CatalogPin) : Prop :=
  ∀ pin ∈ pins, (∃ bytes, Held scheme store pin.archiveSha256 bytes) ∧
    ((∃ bytes, Held scheme store pin.manifestSha256 bytes) ∨
      store pin.manifestSha256 = none ∧ InArchive scheme store pin)

theorem readVerified_iff {digest : String} {bytes : Bytes} :
    readVerified scheme store digest = .ok bytes ↔ Held scheme store digest bytes := by
  unfold readVerified Held
  constructor
  · intro ok
    split_ifs at ok
    split at ok
    next => cases ok
    next found is =>
      split_ifs at ok with large differs
      cases ok
      exact ⟨is,Nat.le_of_not_lt large,not_not.mp differs⟩
  · rintro ⟨is,small,rfl⟩
    rw [Package.isHex_sha256,is]
    dsimp only
    rw [Bool.not_true,if_neg Bool.false_ne_true,if_neg (Nat.not_lt.mpr small),if_neg (not_not.mpr rfl)]

theorem readVerified_absent {digest : String} (hexed : isHex digest 64 = true) (absent : store digest = none) :
    readVerified scheme store digest = .error ⟨"blob_unknown","unknown digest"⟩ := by
  unfold readVerified
  rw [hexed,absent]
  rfl

/-- Whatever is sent under a digest has it as its hash, and fits. -/
theorem blob_ok {digest : String} {bytes : Bytes} (ok : blob scheme store pins describe digest = .ok bytes) :
    scheme.sha256Hex bytes = digest ∧ bytes.length ≤ BLOB_CAP := by
  unfold blob at ok
  split at ok
  next held =>
    cases ok
    obtain ⟨-,small,hashed⟩ := readVerified_iff.mp held
    exact ⟨hashed,small⟩
  next =>
    split_ifs at ok
    unfold recovered at ok
    split at ok
    next => cases ok
    next pin first =>
      obtain ⟨archive,held,ok⟩ := bind_ok ok
      split at ok
      next => cases ok
      next members read =>
        split at ok
        next => cases ok
        next manifest there =>
          obtain ⟨same,ok⟩ := if_invalid.mp ok
          cases ok
          obtain ⟨-,small,-⟩ := readVerified_iff.mp held
          exact ⟨not_not.mp same,(read_length read there).trans small⟩

theorem blob_available (available : Available scheme store pins) {digest : String} (member : digest ∈ digests pins) :
    ∃ bytes, blob scheme store pins describe digest = .ok bytes := by
  obtain ⟨pin,inside,own⟩ := mem_digests.mp member
  by_cases held : ∃ bytes, Held scheme store digest bytes
  · obtain ⟨bytes,held⟩ := held
    exact ⟨bytes,by rw [blob,readVerified_iff.mpr held]⟩
  · rcases own with rfl | rfl
    · -- the first pin with this manifest need not be this one
      have some_ : (pins.find? fun p => p.manifestSha256 = pin.manifestSha256).isSome :=
        List.find?_isSome.mpr ⟨pin,inside,decide_eq_true rfl⟩
      obtain ⟨first,found⟩ := Option.isSome_iff_exists.mp some_
      have same : first.manifestSha256 = pin.manifestSha256 := by simpa using List.find?_some found
      obtain ⟨-,here | ⟨absent,archive,members,manifest,stored,read,there,hashed⟩⟩ :=
        available first (List.mem_of_find?_eq_some found)
      · exact absurd (same ▸ here) held
      · rw [same] at absent hashed
        have hexed : isHex pin.manifestSha256 64 = true := hashed ▸ Package.isHex_sha256 scheme manifest
        refine ⟨manifest,?_⟩
        rw [blob,readVerified_absent hexed absent]
        dsimp only
        rw [if_pos rfl,recovered,found]
        dsimp only
        rw [readVerified_iff.mpr stored]
        dsimp only [bind,Except.bind]
        rw [read]
        dsimp only
        rw [there]
        exact if_invalid.mpr ⟨not_not.mpr hashed,rfl⟩
    · exact absurd (available pin inside).1 held

theorem frames_available (wanted : List String) (all : ∀ digest ∈ wanted, ∃ bytes,
    blob scheme store pins describe digest = .ok bytes) :
    ∃ blobs : List Bytes, blobs.map scheme.sha256Hex = wanted ∧ (∀ bytes ∈ blobs, bytes.length ≤ BLOB_CAP) ∧
      wanted.mapM (frameOf scheme store pins describe) = .ok (blobs.map (frame scheme)) := by
  induction wanted with
  | nil => exact ⟨[],rfl,nofun,rfl⟩
  | cons digest rest ih =>
    obtain ⟨⟨bytes,one⟩,others⟩ := List.forall_mem_cons.mp all
    obtain ⟨blobs,rfl,small,frames⟩ := ih others
    obtain ⟨rfl,fits⟩ := blob_ok one
    refine ⟨bytes :: blobs,rfl,List.forall_mem_cons.mpr ⟨fits,small⟩,?_⟩
    have framed : frameOf scheme store pins describe (scheme.sha256Hex bytes) = .ok (frame scheme bytes) := by
      rw [frameOf,one]
      dsimp only [bind,Except.bind]
      rw [Scheme.sha256Hex,unhex_hex]
      rfl
    rw [List.mapM_cons,framed,frames]
    rfl

/-- What is available is sent, and what is sent is staged, a file for each pinned digest. -/
theorem encode_available (available : Available scheme store pins) :
    ∃ blobs : List Bytes, blobs.map scheme.sha256Hex = digests pins ∧ (∀ bytes ∈ blobs, bytes.length ≤ BLOB_CAP) ∧
      encode scheme store pins describe = .ok (streamOf scheme blobs,(streamOf scheme blobs).length,
        scheme.sha256Hex (streamOf scheme blobs)) := by
  have all : ∀ digest ∈ digests pins, ∃ bytes, blob scheme store pins describe digest = .ok bytes :=
    fun digest member => blob_available available member
  obtain ⟨blobs,same,small,frames⟩ := frames_available (digests pins) all
  refine ⟨blobs,same,small,?_⟩
  rw [encode,frames]
  dsimp only [bind,Except.bind]
  rw [show (digests pins).length = blobs.length by rw [← same,List.length_map]]
  rfl

end Encode

end Entorhinal.Closure
