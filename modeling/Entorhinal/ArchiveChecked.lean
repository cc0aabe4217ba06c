import Mathlib.Algebra.Order.BigOperators.Group.List
import Entorhinal.ArchiveLaw

/-! The strict reader with each index and each sum checked: none is a panic. On every archive it is the reader,
after no more turns than the archive has blocks. -/
namespace Entorhinal.Archive.Checked

open Utf8

section Arithmetic

def add (a b : Nat) : Option Nat := if a + b < usize then some (a + b) else none

def sub (a b : Nat) : Option Nat := if b ≤ a then some (a - b) else none

def mul (a b : Nat) : Option Nat := if a * b < usize then some (a * b) else none

def cut (bytes : Bytes) (start stop : Nat) : Option Bytes :=
  if start ≤ stop ∧ stop ≤ bytes.length then some (slice bytes start stop) else none

def after (bytes : Bytes) (start : Nat) : Option Bytes := if start ≤ bytes.length then some (bytes.drop start) else none

variable {a b start stop : Nat} {bytes : Bytes}

theorem add_some (small : a + b < usize) : add a b = some (a + b) := if_pos small

theorem sub_some (ordered : b ≤ a) : sub a b = some (a - b) := if_pos ordered

theorem mul_some (small : a * b < usize) : mul a b = some (a * b) := if_pos small

theorem cut_some (ordered : start ≤ stop) (inside : stop ≤ bytes.length) : cut bytes start stop = some (slice bytes start stop) :=
  if_pos ⟨ordered,inside⟩

theorem after_some (inside : start ≤ bytes.length) : after bytes start = some (bytes.drop start) := if_pos inside

theorem foldlM_add {xs : List Nat} {total : Nat} (small : total + xs.sum < usize) : xs.foldlM add total = some (total + xs.sum) := by
  induction xs generalizing total with
  | nil => rfl
  | cons x xs ih =>
    rw [List.sum_cons] at small ⊢
    show (add total x).bind (fun next => xs.foldlM add next) = _
    rw [add_some (by omega),Option.bind_some,ih (by omega),Nat.add_assoc]

theorem mapM_sub {xs : Bytes} (least : ∀ b ∈ xs, 48 ≤ b.toNat) :
    (xs.mapM fun b => sub b.toNat 48) = some (xs.map fun b => b.toNat - 48) := by
  induction xs with
  | nil => rfl
  | cons x xs ih =>
    obtain ⟨first,others⟩ := List.forall_mem_cons.mp least
    rw [List.mapM_cons,sub_some first,ih others]
    rfl

end Arithmetic

section Reader

/-- A cut beside a separator is between two characters. -/
def splitAt (path : Bytes) : List Nat → Option (Option (Bytes × Bytes))
  | [] => some none
  | i :: rest => do
    let b ← path[i]?
    if b = 47 then do
      let pre ← cut path 0 i
      let name ← after path (← add i 1)
      return some (pre,name)
    else splitAt path rest

def ustarSplit (path : Bytes) : Option (Option (Bytes × Bytes)) :=
  if path.length ≤ 100 then some (some ([],path))
  else
    let start := max (path.length - 101) 1
    let last := min 155 (path.length - 2)
    splitAt path (List.range' start (last + 1 - start))

def checkPath (path : String) : Option (Except ArchiveRule Unit) :=
  let bytes := asBytes path
  if (bytes.splitOn 47).any partInvalid then some (.error .pathInvalid)
  else if pathMax < bytes.length then some (.error .pathTooLong)
  else do
    let split ← ustarSplit bytes
    return if split.isNone then .error .pathNotUstar else .ok ()

/-- A digit more; a number too large is no panic. -/
def push (value digit : Nat) : Option Nat := (mul value 8).bind (add · digit)

def octal (field : Bytes) : Option (Option Nat) :=
  let n := (field.takeWhile Octal.isDigit).length
  if n = 0 ∨ n = field.length then some none
  else do
    let rest ← after field n
    if rest.any fun b => b != 0 && b != 32 then return none
    else do
      let run ← cut field 0 n
      let digits ← run.mapM fun b => sub b.toNat 48
      return digits.foldlM push 0

def headerSum (h : Bytes) : Option Nat := (h.mapIdx fun i b => if 148 ≤ i ∧ i < 156 then 32 else b.toNat).foldlM add 0

def headerPath (h : Bytes) : Option String := do
  let name := text (← cut h 0 100)
  let pre := text (← cut h 345 500)
  return if pre = "" then name else pre ++ "/" ++ name

def readHeader (offset : Nat) (h : Bytes) : Option (Except ArchiveError (String × Nat)) := do
  let fail := fun rule => ArchiveError.new rule (some offset)
  let sum ← headerSum h
  let checksum ← octal (← cut h 148 156)
  if checksum ≠ some sum then return .error (fail .headerChecksum)
  else do
    let magic ← cut h 257 263
    let version ← cut h 263 265
    if magic ≠ ustar ∨ version ≠ ustarVersion then return .error (fail .magic)
    else do
      let typeflag ← h[156]?
      if typeflag ≠ 48 ∧ typeflag ≠ 0 then
        return .error { fail .memberType with typeflag := some (ofLatin [typeflag]) }
      else do
        let size ← octal (← cut h 124 136)
        match size with
        | none => return .error (fail .sizeEncoding)
        | some size => do
          let path ← headerPath h
          let checked ← checkPath path
          match checked with
          | .error rule => return .error (.inMember rule (some offset) path)
          | .ok () => return .ok (path,size)

def readTerminator (archive : Bytes) (offset : Nat) : Option (Except ArchiveError Unit) := do
  let left ← sub archive.length offset
  if left < 1024 then return .error (.new .terminatorMissing (some offset))
  else do
    let block ← cut archive (← add offset 512) (← add offset 1024)
    if block.any (· != 0) then return .error (.new .terminatorMissing (some offset))
    else do
      let rest ← after archive (← add offset 1024)
      match rest.findIdx? (· != 0) with
      | some i => return .error (.new .trailingData (some (← add (← add offset 1024) i)))
      | none => return .ok ()

def readMember (archive : Bytes) (offset : Nat) (members : Table String ReadMember)
    (lower : Table String String) (path : String) (size : Nat) : Option (Except ArchiveError (ReadMember × Nat)) := do
  let memberFail := fun rule => ArchiveError.inMember rule (some offset) path
  let count ← add members.size 1
  if maxMembers < count then return .error (memberFail .tooManyMembers)
  else match lower.get? (asciiLower path) with
    | some seen => return .error (memberFail (if seen = path then .pathDuplicate else .pathCollision))
    | none => do
      let start ← add offset 512
      -- the sums with the size of the header are checked by the source, and refused
      match (add start size).filter (· ≤ archive.length) with
      | none => return .error (memberFail .truncated)
      | some stop =>
        if path = "ck.json" ∧ manifestMax < size then return .error (.cap .manifestTooLarge)
        else do
          let bytes ← cut archive (← add offset 512) stop
          let rounded := (add size 511).bind fun n => mul (n / 512) 512
          let start ← add offset 512
          match rounded.bind (add · start) with
          | none => return .error (.new .truncated (some offset))
          | some next => return .ok (⟨bytes,offset⟩,next)

def turn (archive : Bytes) (offset : Nat) (members : Table String ReadMember)
    (lower : Table String String) : Option (Except ArchiveError (Option (String × ReadMember × Nat))) :=
  if archive.length - offset < 512 then some (.error (.new .terminatorMissing (some offset)))
  else do
    let h ← cut archive offset (← add offset 512)
    if h.all (· == 0) then do
      let ended ← readTerminator archive offset
      return ended.map fun _ => none
    else do
      let found ← readHeader offset h
      match found with
      | .error e => return .error e
      | .ok (path,size) => do
        let read ← readMember archive offset members lower path size
        match read with
        | .error e => return .error e
        | .ok (member,next) => return .ok (some (path,member,next))

/-- The loop, for so many turns at most. -/
def readFrom : Nat → Bytes → Nat → Table String ReadMember → Table String String →
    Option (Except ArchiveError (Table String ReadMember))
  | 0,_,_,_,_ => none
  | turns + 1,archive,offset,members,lower => do
    let read ← turn archive offset members lower
    match read with
    | .error e => return .error e
    | .ok none => return .ok members
    | .ok (some (path,member,next)) =>
      readFrom turns archive next (members.insert path member) (lower.insert (asciiLower path) path)

def readMembers (archive : Bytes) : Option (Except ArchiveError (Table String ReadMember)) :=
  if archiveMax < archive.length then some (.error (.cap .archiveTooLarge))
  else readFrom (archive.length / 512 + 1) archive 0 ∅ ∅

end Reader

section Header
variable {path : String} {bytes h : Bytes}

theorem splitAt_some {places : List Nat} (inside : ∀ i ∈ places, i < bytes.length) (small : bytes.length < usize) :
    splitAt bytes places = some ((places.find? fun i => bytes[i]? == some 47).map fun i => (bytes.take i,bytes.drop (i + 1))) := by
  induction places with
  | nil => rfl
  | cons i rest ih =>
    obtain ⟨first,others⟩ := List.forall_mem_cons.mp inside
    have found : bytes[i]? = some bytes[i] := List.getElem?_eq_getElem first
    rw [splitAt,found,List.find?_cons,found]
    show (if bytes[i] = 47 then _ else _) = _
    by_cases cutHere : bytes[i] = 47
    · rw [if_pos cutHere,cutHere,cut_some (Nat.zero_le _) (by omega),add_some (by omega)]
      show (after bytes (i + 1)).bind _ = _
      rw [after_some (by omega)]
      rfl
    · rw [if_neg cutHere,ih others,beq_eq_false_iff_ne.mpr fun same => cutHere (Option.some.inj same)]

theorem ustarSplit_some (small : bytes.length < usize) : ustarSplit bytes = some (Archive.ustarSplit bytes) := by
  unfold ustarSplit Archive.ustarSplit
  by_cases short : bytes.length ≤ 100
  · rw [if_pos short,if_pos short]
  · rw [if_neg short,if_neg short]
    refine splitAt_some (fun i member => ?_) small
    have upper := (List.mem_range'_1.mp member).2
    omega

theorem checkPath_some : checkPath path = some (Archive.checkPath path) := by
  unfold checkPath Archive.checkPath
  dsimp only
  by_cases invalid : ((asBytes path).splitOn 47).any partInvalid = true
  · rw [if_pos invalid,if_pos invalid]
  · rw [if_neg invalid,if_neg invalid]
    by_cases long : pathMax < (asBytes path).length
    · rw [if_pos long,if_pos long]
    · have limit : pathMax < usize := by decide
      rw [if_neg long,if_neg long,ustarSplit_some (by omega)]
      rfl

theorem push_eq (value : Nat) (b : UInt8) : push value (b.toNat - 48) = Octal.push usize value b := by
  unfold push mul Octal.push
  by_cases large : usize ≤ value * 8
  · rw [if_neg (by omega),if_pos large]
    rfl
  · rw [if_pos (by omega),if_neg large,Option.bind_some,add]
    split_ifs
    · omega
    · rfl
    · rfl
    · omega

theorem octal_some : octal bytes = some (Archive.octal bytes) := by
  have prefix_ := List.takeWhile_prefix (l := bytes) Octal.isDigit
  have short := prefix_.length_le
  have least : ∀ b ∈ bytes.takeWhile Octal.isDigit, 48 ≤ b.toNat := by
    intro b member
    have digit := List.mem_takeWhile_imp member
    simp only [Octal.isDigit,Bool.and_eq_true,decide_eq_true_eq,UInt8.le_iff_toNat_le] at digit
    exact digit.1
  have taken : slice bytes 0 (bytes.takeWhile Octal.isDigit).length = bytes.takeWhile Octal.isDigit := by
    rw [slice,List.drop_zero,Nat.sub_zero]
    exact (List.prefix_iff_eq_take.mp prefix_).symm
  unfold octal Archive.octal Octal.read
  dsimp only
  by_cases none_ : (bytes.takeWhile Octal.isDigit).length = 0 ∨ (bytes.takeWhile Octal.isDigit).length = bytes.length
  · rw [if_pos none_,if_pos (by tauto)]
  · rw [if_neg none_,after_some short]
    by_cases dirty : ((bytes.drop (bytes.takeWhile Octal.isDigit).length).any fun b => b != 0 && b != 32) = true
    · rw [if_pos (.inr (.inr dirty))]
      exact if_pos dirty
    · rw [if_neg (by tauto)]
      refine (if_neg dirty).trans ?_
      rw [cut_some (Nat.zero_le _) short,taken]
      show Option.bind (List.mapM (fun b : UInt8 => sub b.toNat 48) _) _ = _
      rw [mapM_sub least]
      show some (List.foldlM push 0 (List.map _ _)) = _
      rw [List.foldlM_map]
      simp only [push_eq]

theorem headerSum_some (whole : h.length = 512) : headerSum h = some (Archive.headerSum h) := by
  have bound : (h.mapIdx fun i b => if 148 ≤ i ∧ i < 156 then 32 else b.toNat).sum ≤ 512 * 255 := by
    have total := (h.mapIdx fun i b => if 148 ≤ i ∧ i < 156 then 32 else b.toNat).sum_le_card_nsmul 255 fun x member => by
      obtain ⟨i,short,rfl⟩ := List.mem_mapIdx.mp member
      split_ifs
      · decide
      · exact Nat.le_of_lt_succ (UInt8.toNat_lt _)
    rwa [List.length_mapIdx,whole] at total
  have limit : 512 * 255 < usize := by decide
  rw [headerSum,foldlM_add (by omega),Nat.zero_add]
  rfl

theorem headerPath_some (whole : h.length = 512) : headerPath h = some (Archive.headerPath h) := by
  unfold headerPath
  rw [cut_some (by decide) (by omega),cut_some (by decide) (by omega)]
  rfl

theorem readHeader_some {offset : Nat} (whole : h.length = 512) : readHeader offset h = some (Archive.readHeader offset h) := by
  have flag : h[156]? = some (h.getD 156 0) := by
    rw [List.getD_eq_getElem?_getD,List.getElem?_eq_getElem (by omega)]
    rfl
  unfold readHeader Archive.readHeader
  rw [headerSum_some whole,cut_some (by decide) (by omega)]
  simp only [Option.bind_eq_bind,Option.bind_some,octal_some]
  by_cases wrong : Archive.octal (slice h 148 156) ≠ some (Archive.headerSum h)
  · rw [if_pos wrong,if_pos wrong]
    rfl
  · rw [if_neg wrong,if_neg wrong,cut_some (by decide) (by omega),cut_some (by decide) (by omega)]
    simp only [Option.bind_some,flag]
    by_cases other : slice h 257 263 ≠ ustar ∨ slice h 263 265 ≠ ustarVersion
    · rw [if_pos other,if_pos other]
      rfl
    · rw [if_neg other,if_neg other]
      by_cases kind : h.getD 156 0 ≠ 48 ∧ h.getD 156 0 ≠ 0
      · rw [if_pos kind,if_pos kind]
        rfl
      · rw [if_neg kind,if_neg kind,cut_some (by decide) (by omega)]
        simp only [Option.bind_some]
        cases Archive.octal (slice h 124 136) with
        | none => rfl
        | some size =>
          simp only [headerPath_some whole,Option.bind_some,checkPath_some]
          cases Archive.checkPath (Archive.headerPath h) <;> rfl

end Header

section Loop
variable {archive : Bytes} {offset : Nat} {members : Table String ReadMember} {lower : Table String String}

theorem slice_block (inside : offset + 512 ≤ archive.length) : (slice archive offset (offset + 512)).length = 512 := by
  rw [slice,List.length_take,List.length_drop]
  omega

theorem readTerminator_some (small : archive.length ≤ archiveMax) (inside : offset + 512 ≤ archive.length) :
    readTerminator archive offset = some (Archive.readTerminator archive offset) := by
  have limit : archiveMax + archiveMax < usize := by decide
  unfold readTerminator Archive.readTerminator
  rw [sub_some (by omega)]
  simp only [Option.bind_eq_bind,Option.bind_some]
  by_cases short : archive.length - offset < 1024
  · rw [if_pos short,if_pos (.inl short)]
    rfl
  · rw [if_neg short,add_some (by omega),add_some (by omega)]
    simp only [Option.bind_some]
    rw [cut_some (by omega) (by omega)]
    simp only [Option.bind_some]
    by_cases dirty : (slice archive (offset + 512) (offset + 1024)).any (· != 0) = true
    · rw [if_pos dirty,if_pos (.inr dirty)]
      rfl
    · rw [if_neg dirty,if_neg (not_or.mpr ⟨short,dirty⟩),after_some (by omega)]
      simp only [Option.bind_some]
      cases found : (archive.drop (offset + 1024)).findIdx? (· != 0) with
      | none => rfl
      | some i =>
        obtain ⟨within,_⟩ := List.findIdx?_eq_some_iff_getElem.mp found
        rw [List.length_drop] at within
        dsimp only
        rw [add_some (by omega)]
        rfl

theorem readMember_some {path : String} {size : Nat} (small : archive.length ≤ archiveMax) (inside : offset + 512 ≤ archive.length)
    (few : members.size ≤ maxMembers) :
    readMember archive offset members lower path size = some (Archive.readMember archive offset members lower path size) := by
  have limit : archiveMax + archiveMax < usize := by decide
  have most : maxMembers + 1 < usize := by decide
  unfold readMember Archive.readMember
  rw [add_some (by omega)]
  simp only [Option.bind_eq_bind,Option.bind_some]
  by_cases many : maxMembers < members.size + 1
  · rw [if_pos many,if_pos many]
    rfl
  · rw [if_neg many,if_neg many]
    cases lower.get? (asciiLower path) with
    | some seen => rfl
    | none =>
      dsimp only
      rw [add_some (by omega)]
      simp only [Option.bind_some]
      by_cases cutOff : archive.length < offset + 512 + size
      · rw [if_pos cutOff]
        have refused : (add (offset + 512) size).filter (· ≤ archive.length) = none := by
          unfold add
          split_ifs
          · exact Option.filter_some_neg (by simpa using cutOff)
          · rfl
        rw [refused]
        rfl
      · rw [if_neg cutOff,add_some (by omega),Option.filter_some_pos (by simpa using Nat.not_lt.mp cutOff)]
        dsimp only
        by_cases manifest : path = "ck.json" ∧ manifestMax < size
        · rw [if_pos manifest,if_pos manifest]
          rfl
        · rw [if_neg manifest,if_neg manifest,cut_some (by omega) (by omega),add_some (by omega)]
          simp only [Option.bind_some]
          rw [mul_some (by omega),Option.bind_some,add_some (by omega)]
          rfl

theorem turn_some (small : archive.length ≤ archiveMax) (few : members.size ≤ maxMembers) :
    turn archive offset members lower = some (Archive.turn archive offset members lower) := by
  have limit : archiveMax + archiveMax < usize := by decide
  unfold turn Archive.turn
  by_cases short : archive.length - offset < 512
  · rw [if_pos short,if_pos short]
  · have inside : offset + 512 ≤ archive.length := by omega
    rw [if_neg short,if_neg short,add_some (by omega)]
    simp only [Option.bind_eq_bind,Option.bind_some]
    rw [cut_some (by omega) inside]
    simp only [Option.bind_some]
    by_cases ended : (slice archive offset (offset + 512)).all (· == 0) = true
    · rw [if_pos ended,if_pos ended,readTerminator_some small inside]
      cases Archive.readTerminator archive offset <;> rfl
    · rw [if_neg ended,if_neg ended,readHeader_some (slice_block inside)]
      simp only [Option.bind_some]
      cases Archive.readHeader offset (slice archive offset (offset + 512)) with
      | error e => rfl
      | ok found =>
        obtain ⟨path,size⟩ := found
        show (readMember archive offset members lower path size).bind _ = _
        rw [readMember_some small inside few]
        cases kept : Archive.readMember archive offset members lower path size with
        | error e =>
          show _ = some ((Archive.readMember archive offset members lower path size).bind _)
          rw [kept]
          rfl
        | ok read =>
          show _ = some ((Archive.readMember archive offset members lower path size).bind _)
          rw [kept]
          rfl

end Loop

end Entorhinal.Archive.Checked
