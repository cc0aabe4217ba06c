import Entorhinal.Octal
import Entorhinal.PackageTypes
import Entorhinal.Traverse
import Entorhinal.Table

/-! The strict ustar reader and the deterministic writer of regular files. -/
namespace Entorhinal.Archive

open Utf8
open Package (RefusalCode)

def archiveMax : Nat := 10485760
def manifestMax : Nat := 65536
def maxMembers : Nat := 1000
def pathMax : Nat := 255

/-- Sizes are counted in 64 bits. -/
def usize : Nat := 2 ^ 64

inductive ArchiveRule
  | headerChecksum
  | magic
  | memberType
  | sizeEncoding
  | pathInvalid
  | pathTooLong
  | pathNotUstar
  | tooManyMembers
  | pathDuplicate
  | pathCollision
  | truncated
  | terminatorMissing
  | trailingData
  | ckJsonMissing
  | ckJsonNotFirst
  | memberUnlisted
deriving DecidableEq, Repr

structure ArchiveError where
  code : RefusalCode
  rule : Option ArchiveRule
  offset : Option Nat
  member : Option String
  typeflag : Option String
deriving DecidableEq, Repr

def ArchiveError.cap (code : RefusalCode) : ArchiveError := ⟨code,none,none,none,none⟩

def ArchiveError.new (rule : ArchiveRule) (offset : Option Nat) : ArchiveError :=
  ⟨.archiveInvalid,some rule,offset,none,none⟩

def ArchiveError.inMember (rule : ArchiveRule) (offset : Option Nat) (path : String) : ArchiveError :=
  { ArchiveError.new rule offset with member := some path }

/-- The prefix and the name of a path's header, cut at the first separator that fits. -/
def ustarSplit (path : Bytes) : Option (Bytes × Bytes) :=
  if path.length ≤ 100 then some ([],path)
  else
    let start := max (path.length - 101) 1
    let last := min 155 (path.length - 2)
    ((List.range' start (last + 1 - start)).find? fun i => path[i]? == some 47).map fun i =>
      (path.take i,path.drop (i + 1))

def isPathByte (b : UInt8) : Bool := isAlphanumeric b || b == 46 || b == 95 || b == 45

def partInvalid (part : Bytes) : Bool :=
  part.isEmpty || part == [46] || part == [46,46] || !part.all isPathByte

def checkPath (path : String) : Except ArchiveRule Unit :=
  let bytes := asBytes path
  if (bytes.splitOn 47).any partInvalid then .error .pathInvalid
  else if pathMax < bytes.length then .error .pathTooLong
  else if (ustarSplit bytes).isNone then .error .pathNotUstar
  else .ok ()

def octal (field : Bytes) : Option Nat := Octal.read usize field

def text (field : Bytes) : String := ofLatin (field.takeWhile (· != 0))

def slice (bytes : Bytes) (start stop : Nat) : Bytes := (bytes.drop start).take (stop - start)

def ustar : Bytes := [117,115,116,97,114,0]
def ustarVersion : Bytes := [48,48]

/-- A regular member and where its header stands. -/
structure ReadMember where
  bytes : Bytes
  offset : Nat
deriving DecidableEq, Repr

/-- The sum of the header's bytes, its own field counted as blanks. -/
def headerSum (h : Bytes) : Nat :=
  (h.mapIdx fun i b => if 148 ≤ i ∧ i < 156 then 32 else b.toNat).sum

def headerPath (h : Bytes) : String :=
  let name := text (slice h 0 100)
  let pre := text (slice h 345 500)
  if pre = "" then name else pre ++ "/" ++ name

/-- The path and the size that a header gives. -/
def readHeader (offset : Nat) (h : Bytes) : Except ArchiveError (String × Nat) :=
  let fail := fun rule => ArchiveError.new rule (some offset)
  let typeflag := h.getD 156 0
  if octal (slice h 148 156) ≠ some (headerSum h) then .error (fail .headerChecksum)
  else if slice h 257 263 ≠ ustar ∨ slice h 263 265 ≠ ustarVersion then .error (fail .magic)
  else if typeflag ≠ 48 ∧ typeflag ≠ 0 then
    .error { fail .memberType with typeflag := some (ofLatin [typeflag]) }
  else match octal (slice h 124 136) with
    | none => .error (fail .sizeEncoding)
    | some size => match checkPath (headerPath h) with
      | .error rule => .error (.inMember rule (some offset) (headerPath h))
      | .ok () => .ok (headerPath h,size)

/-- Two blocks of zeros end the archive, and nothing but zeros follows them. -/
def readTerminator (archive : Bytes) (offset : Nat) : Except ArchiveError Unit :=
  if archive.length - offset < 1024 ∨ (slice archive (offset + 512) (offset + 1024)).any (· != 0) = true then
    .error (.new .terminatorMissing (some offset))
  else match (archive.drop (offset + 1024)).findIdx? (· != 0) with
    | some i => .error (.new .trailingData (some (offset + 1024 + i)))
    | none => .ok ()

/-- The member of a header, unless its path was seen or its bytes are cut off, and
where the next header stands. `lower` gives the seen paths by their lower case. -/
def readMember (archive : Bytes) (offset : Nat) (members : Table String ReadMember)
    (lower : Table String String) (path : String) (size : Nat) : Except ArchiveError (ReadMember × Nat) :=
  let memberFail := fun rule => ArchiveError.inMember rule (some offset) path
  if maxMembers < members.size + 1 then .error (memberFail .tooManyMembers)
  else match lower.get? (asciiLower path) with
    | some seen => .error (memberFail (if seen = path then .pathDuplicate else .pathCollision))
    | none =>
      let stop := offset + 512 + size
      if archive.length < stop then .error (memberFail .truncated)
      else if path = "ck.json" ∧ manifestMax < size then .error (.cap .manifestTooLarge)
      else .ok (⟨slice archive (offset + 512) stop,offset⟩,(size + 511) / 512 * 512 + (offset + 512))

/-- One turn of the loop; none at the terminator. -/
def turn (archive : Bytes) (offset : Nat) (members : Table String ReadMember)
    (lower : Table String String) : Except ArchiveError (Option (String × ReadMember × Nat)) :=
  if archive.length - offset < 512 then .error (.new .terminatorMissing (some offset))
  else
    let h := slice archive offset (offset + 512)
    if h.all (· == 0) then do
      readTerminator archive offset
      return none
    else do
      let (path,size) ← readHeader offset h
      let (member,next) ← readMember archive offset members lower path size
      return some (path,member,next)

theorem turn_advances {archive : Bytes} {offset next : Nat} {members : Table String ReadMember}
    {lower : Table String String} {path : String} {member : ReadMember}
    (read : turn archive offset members lower = .ok (some (path,member,next))) :
    offset + 512 ≤ archive.length ∧ offset < next := by
  unfold turn at read
  split at read
  next => cases read
  next long =>
    dsimp only at read
    split at read
    next =>
      obtain ⟨_,_,read⟩ := bind_ok read
      cases read
    next =>
      obtain ⟨⟨found,size⟩,_,read⟩ := bind_ok read
      obtain ⟨⟨kept,after⟩,admitted,read⟩ := bind_ok read
      cases read
      unfold readMember at admitted
      dsimp only at admitted
      split at admitted
      next => cases admitted
      next =>
        split at admitted
        next => cases admitted
        next =>
          split at admitted
          next => cases admitted
          next =>
            split at admitted
            next => cases admitted
            next =>
              simp only [Except.ok.injEq,Prod.mk.injEq] at admitted
              obtain ⟨_,rfl⟩ := admitted
              exact ⟨by omega,by omega⟩

def readFrom (archive : Bytes) (offset : Nat) (members : Table String ReadMember)
    (lower : Table String String) : Except ArchiveError (Table String ReadMember) :=
  match _read : turn archive offset members lower with
  | .error e => .error e
  | .ok none => .ok members
  | .ok (some (path,member,next)) =>
    readFrom archive next (members.insert path member) (lower.insert (asciiLower path) path)
termination_by archive.length - offset
decreasing_by
  have := turn_advances _read
  omega

def readMembers (archive : Bytes) : Except ArchiveError (Table String ReadMember) :=
  if archiveMax < archive.length then .error (.cap .archiveTooLarge)
  else readFrom archive 0 ∅ ∅

def read (archive : Bytes) : Except ArchiveError (Table String Bytes) := do
  let members ← readMembers archive
  if members.has "ck.json" then return members.update fun _ member => member.bytes
  else throw (.new .ckJsonMissing none)

inductive MemberKind
  | regular
  | directory
  | link
  | device
  | fifo
  | extension
deriving DecidableEq, Repr

structure Member where
  path : String
  bytes : Bytes
  kind : MemberKind
deriving DecidableEq, Repr

def Member.regular (path : String) (bytes : Bytes) : Member := ⟨path,bytes,.regular⟩

def pathRefusal : ArchiveRule → RefusalCode
  | .pathInvalid => .pathInvalid
  | .pathTooLong => .pathTooLong
  | _ => .pathNotUstar

/-- The writer's checks of one member; `exact` and `lower` are the paths before and
`total` counts the bytes of the archive so far. -/
def checkMember (exact lower : List String) (total : Nat) (m : Member) : Except ArchiveError Nat :=
  match checkPath m.path with
  | .error rule => .error ⟨pathRefusal rule,none,none,some m.path,none⟩
  | .ok () =>
    if m.kind ≠ .regular then .error (.inMember .memberType none m.path)
    else if m.path ∈ exact then .error (.inMember .pathDuplicate none m.path)
    else if asciiLower m.path ∈ lower then .error (.inMember .pathCollision none m.path)
    else if m.path = "ck.json" ∧ manifestMax < m.bytes.length then .error (.cap .manifestTooLarge)
    else
      let total := total + ((m.bytes.length + 511) / 512 * 512 + 512)
      if total ≤ archiveMax then .ok total else .error (.cap .archiveTooLarge)

def checkMembers : List String → List String → Nat → List Member → Except ArchiveError Unit
  | exact, _, _, [] => if "ck.json" ∈ exact then .ok () else .error (.new .ckJsonMissing none)
  | exact, lower, total, m :: rest => do
    let total ← checkMember exact lower total m
    checkMembers (m.path :: exact) (asciiLower m.path :: lower) total rest

/-- A field of the header; the rest of it stays zero. -/
def field (width : Nat) (bytes : Bytes) : Bytes := bytes ++ List.replicate (width - bytes.length) 0

/-- The fields of a header one after the other: mode, owner and time are fixed. -/
def header (pre name : Bytes) (size : Nat) (checksum : Bytes) : Bytes :=
  field 100 name ++ ([48,48,48,48,54,52,52,0] ++ [48,48,48,48,48,48,48,0] ++ [48,48,48,48,48,48,48,0]) ++
    (Octal.digits 11 size ++ [0]) ++ [48,48,48,48,48,48,48,48,48,48,48,0] ++ checksum ++
    [48] ++ List.replicate 100 0 ++ ustar ++ ustarVersion ++ List.replicate 80 0 ++
    field 155 pre ++ List.replicate 12 0

/-- The sum is taken with blanks in its own place. -/
def sealed (pre name : Bytes) (size : Nat) : Bytes :=
  let sum := ((header pre name size (List.replicate 8 32)).map UInt8.toNat).sum
  header pre name size (Octal.digits 6 sum ++ [0,32])

def fillBlock (out : Bytes) : Bytes :=
  out ++ List.replicate ((out.length + 511) / 512 * 512 - out.length) 0

def writeMembers : Bytes → List Member → Except ArchiveError Bytes
  | out, [] => .ok (out ++ List.replicate 1024 0)
  | out, m :: rest => match ustarSplit (asBytes m.path) with
    | none => .error (.inMember .pathNotUstar none m.path)
    | some (pre,name) => writeMembers (fillBlock (out ++ sealed pre name m.bytes.length ++ m.bytes)) rest

def write (members : List Member) : Except ArchiveError Bytes :=
  if maxMembers < members.length then .error (.new .tooManyMembers none)
  else match checkMembers [] [] 1024 members with
    | .error e => .error e
    | .ok () =>
      if members.head?.all fun m => m.path ≠ "ck.json" then .error (.new .ckJsonNotFirst none)
      else writeMembers [] members

end Entorhinal.Archive
