import Entorhinal.Archive
import Entorhinal.BigEndian
import Entorhinal.CatalogPins
import Entorhinal.Names

/-! The stream of the package bytes a move takes along: a frame for each pinned digest. -/
namespace Entorhinal.Closure

open Archive (read)
open Catalog (CatalogPin)
open Package (Scheme hex isHex decodeHex hexBytes)
open Utf8 (Bytes)

structure HandlerError where
  code : String
  message : String
deriving DecidableEq, Repr

def invalid {α : Type} (message : String) : Except HandlerError α := .error ⟨"digest_mismatch",message⟩

def MAGIC : Bytes := Utf8.asBytes "ck-package-closure/v1\n"

def BLOB_CAP : Nat := 10485760

/-- The distinct digests of the pins, in the order of their texts. -/
def digests (pins : List CatalogPin) : List String :=
  (pins.flatMap fun p => [p.manifestSha256,p.archiveSha256]).dedup.insertionSort (· ≤ ·)

/-- The files under the store's root, by their names; nothing says that a name is its file's hash. -/
abbrev BlobStore := String → Option Bytes

def readVerified (scheme : Scheme) (store : BlobStore) (digest : String) : Except HandlerError Bytes :=
  if !isHex digest 64 then .error ⟨"blob_request_invalid","sha256 must be 64 lower-case hex digits"⟩
  else match store digest with
    | none => .error ⟨"blob_unknown","unknown digest"⟩
    | some bytes =>
      if BLOB_CAP < bytes.length then .error ⟨"blob_corrupt","blob exceeds the archive cap"⟩
      else if scheme.sha256Hex bytes ≠ digest then .error ⟨"blob_corrupt","corrupted blob " ++ digest⟩
      else .ok bytes

def unhex (text : String) : Except HandlerError Bytes :=
  if isHex text (text.toList.length / 2 * 2) then .ok (hexBytes text.toList)
  else invalid "invalid hexadecimal bytes"

section Encode
variable (scheme : Scheme) (store : BlobStore) (pins : List CatalogPin)

/-- The manifest out of the archive pinned with it; `describe` is the text of an archive's error. -/
def recovered (describe : Archive.ArchiveError → String) (digest : String) : Except HandlerError Bytes :=
  match pins.find? fun p => p.manifestSha256 = digest with
  | none => .error ⟨"unavailable","pinned blob missing"⟩
  | some pin => do
    let bytes ← readVerified scheme store pin.archiveSha256
    match read bytes with
    | .error e => invalid (describe e)
    | .ok members =>
      match members.get? "ck.json" with
      | none => invalid "archive has no manifest"
      | some manifest =>
        if scheme.sha256Hex manifest ≠ digest then invalid "manifest hash differs from pin" else .ok manifest

def blob (describe : Archive.ArchiveError → String) (digest : String) : Except HandlerError Bytes :=
  match readVerified scheme store digest with
  | .ok bytes => .ok bytes
  | .error e => if e.code = "blob_unknown" then recovered scheme store pins describe digest else .error e

def frameOf (describe : Archive.ArchiveError → String) (digest : String) : Except HandlerError Bytes := do
  let bytes ← blob scheme store pins describe digest
  let raw ← unhex digest
  .ok (raw ++ BigEndian.write 8 bytes.length ++ bytes)

/-- The stream's bytes, with their length and their hash. -/
def encode (describe : Archive.ArchiveError → String) : Except HandlerError (Bytes × Nat × String) := do
  let wanted := digests pins
  let frames ← wanted.mapM (frameOf scheme store pins describe)
  let stream := MAGIC ++ BigEndian.write 4 wanted.length ++ frames.flatten
  .ok (stream,stream.length,scheme.sha256Hex stream)

end Encode

section Decode
variable (scheme : Scheme) (wanted : List String)

/-- The next bytes, and what is left of the stream. -/
def readExact (n : Nat) (stream : Bytes) : Except HandlerError (Bytes × Bytes) :=
  if stream.length < n then invalid "truncated package closure" else .ok (stream.take n,stream.drop n)

def readBlob (n : Nat) (stream : Bytes) : Except HandlerError (Bytes × Bytes) :=
  if stream.length < n then invalid "truncated package blob" else .ok (stream.take n,stream.drop n)

/-- What is staged of the next frames, under the names of their digests, and what is left. -/
def decodeFrames : Nat → Option Bytes → Bytes → Except HandlerError (List (String × Bytes) × Bytes)
  | 0,_,stream => .ok ([],stream)
  | count + 1,previous,stream => do
    let (raw,stream) ← readExact 32 stream
    if previous.any fun p => decide (BigEndian.rank raw ≤ BigEndian.rank p) then
      invalid "package digests are not strictly ascending"
    else
      let digest := hex raw
      let (size,stream) ← readExact 8 stream
      let length := BigEndian.read size
      if BLOB_CAP < length then invalid "package blob exceeds archive cap"
      else
        let (bytes,stream) ← readBlob length stream
        if scheme.sha256Hex bytes ≠ digest then invalid "package blob hash differs from pin"
        else if digest ∉ wanted then invalid "package blob is not pinned"
        else
          let (staged,rest) ← decodeFrames count (some raw) stream
          .ok ((digest,bytes) :: staged,rest)

/-- The files staged, where every frame is verified. -/
def decode (stream : Bytes) (pins : List CatalogPin) : Except HandlerError (List (String × Bytes)) := do
  let (magic,stream) ← readExact 22 stream
  if magic ≠ MAGIC then invalid "bad package closure magic"
  else
    let wanted := digests pins
    let (size,stream) ← readExact 4 stream
    let count := BigEndian.read size
    if count ≠ wanted.length ∨ 512 < count then invalid "package closure count differs from pins"
    else
      let (staged,rest) ← decodeFrames scheme wanted count none stream
      if rest ≠ [] then invalid "trailing package closure bytes" else .ok staged

end Decode

end Entorhinal.Closure
