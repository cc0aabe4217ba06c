import Entorhinal.ArchiveFields

/-! What was written is read back: a member's entry is read by one turn of the reader's
loop, which leaves it at the next entry, and the terminator ends the loop. -/
namespace Entorhinal.Archive

open Utf8

variable {pre name archive before rest : Bytes} {path : String} {members : Table String ReadMember}
  {lower : Table String String} {m : Member}

/-- What the writer's checks leave of a member, `room` being what the archive may still
hold. -/
structure Writable (m : Member) (pre name : Bytes) : Prop where
  split : Split m.path pre name
  regular : m.kind = .regular
  small : m.bytes.length ≤ archiveMax
  manifest : m.path = "ck.json" → m.bytes.length ≤ manifestMax

/-- A member's header, its bytes and the rest of their last block. -/
def entry (pre name : Bytes) (m : Member) : Bytes :=
  sealed pre name m.bytes.length ++
    (m.bytes ++ List.replicate ((m.bytes.length + 511) / 512 * 512 - m.bytes.length) 0)

theorem sealed_fits (writable : Writable m pre name) (sum : Nat) :
    Fits pre name (Octal.digits 6 sum ++ [0,32]) :=
  ⟨writable.split.short.1,writable.split.short.2,by rw [List.length_append,Octal.digits_length]; rfl⟩

theorem sealed_length (writable : Writable m pre name) : (sealed pre name m.bytes.length).length = 512 :=
  header_length (sealed_fits writable _)

theorem entry_length (writable : Writable m pre name) :
    (entry pre name m).length = 512 + (m.bytes.length + 511) / 512 * 512 := by
  rw [entry,List.length_append,List.length_append,sealed_length writable,List.length_replicate]
  omega

/-- Filling up an archive of whole blocks adds one entry. -/
theorem fillBlock_entry (writable : Writable m pre name) (whole : 512 ∣ before.length) :
    fillBlock (before ++ sealed pre name m.bytes.length ++ m.bytes) = before ++ entry pre name m := by
  obtain ⟨blocks,whole⟩ := whole
  have rounded : (512 * blocks + (512 + m.bytes.length) + 511) / 512 * 512 -
      (512 * blocks + (512 + m.bytes.length)) = (m.bytes.length + 511) / 512 * 512 - m.bytes.length := by
    omega
  rw [fillBlock,entry,List.append_assoc before,List.append_assoc before,List.append_assoc (sealed ..)]
  rw [List.length_append,List.length_append,sealed_length writable,whole,rounded]

theorem entry_whole (writable : Writable m pre name) (whole : 512 ∣ before.length) :
    512 ∣ (before ++ entry pre name m).length := by
  rw [List.length_append,entry_length writable]
  exact Nat.dvd_add whole (Nat.dvd_add (Nat.dvd_refl 512) (Nat.dvd_mul_left ..))

theorem octal_size {n : Nat} (small : n ≤ archiveMax) : octal (Octal.digits 11 n ++ [0]) = some n := by
  apply Octal.read_digits
  · exact Nat.lt_of_le_of_lt small (by decide)
  · decide
  · decide
  · decide
  · decide +kernel

theorem octal_checksum {n : Nat} (small : n ≤ 255 * 512) : octal (Octal.digits 6 n ++ [0,32]) = some n := by
  apply Octal.read_digits
  · exact Nat.lt_of_le_of_lt small (by decide)
  · decide
  · decide
  · decide
  · decide +kernel

/-- A sealed header is read as the path and the size it was sealed for. -/
theorem readHeader_sealed (writable : Writable m pre name) (offset : Nat) :
    readHeader offset (sealed pre name m.bytes.length) = .ok (m.path,m.bytes.length) := by
  have blanks : Fits pre name (List.replicate 8 32) :=
    ⟨writable.split.short.1,writable.split.short.2,List.length_replicate⟩
  have bounded := sum_bytes (header pre name m.bytes.length (List.replicate 8 32))
  rw [header_length blanks] at bounded
  obtain ⟨sum,total⟩ : ∃ sum,
      ((header pre name m.bytes.length (List.replicate 8 32)).map UInt8.toNat).sum = sum := ⟨_,rfl⟩
  have shape : sealed pre name m.bytes.length =
      header pre name m.bytes.length (Octal.digits 6 sum ++ [0,32]) := by rw [sealed,total]
  have fits := sealed_fits writable sum
  rw [total] at bounded
  rw [shape]
  unfold readHeader
  rw [slice_checksum fits,headerSum_header fits,total,slice_magic fits,slice_version fits,
    getD_typeflag _ fits,slice_size fits,octal_checksum bounded,octal_size writable.small,
    headerPath_header writable.split fits.checksum,writable.split.admitted]
  dsimp only
  rw [if_neg fun other => other rfl,if_neg fun other => other.elim (· rfl) (· rfl),
    if_neg fun other => other.1 rfl]

theorem sealed_nonzero (writable : Writable m pre name) :
    (sealed pre name m.bytes.length).all (· == 0) = false := by
  have flag := getD_typeflag m.bytes.length (sealed_fits writable
    ((header pre name m.bytes.length (List.replicate 8 32)).map UInt8.toNat).sum)
  rw [List.getD_eq_getElem?_getD] at flag
  apply List.all_eq_false.mpr
  refine ⟨48,?_,by decide⟩
  cases found : (sealed pre name m.bytes.length)[156]? with
  | none => rw [← sealed,found] at flag; cases flag
  | some b =>
    rw [← sealed,found] at flag
    cases flag
    exact List.mem_of_getElem? found

theorem slice_at {stop : Nat} {taken : Bytes} (length : before.length + taken.length = stop) :
    slice (before ++ (taken ++ rest)) before.length stop = taken :=
  slice_middle rfl length

/-- One turn reads a sealed header and the bytes after it; of the rest of their last block it reads nothing. -/
theorem turn_sealed (writable : Writable m pre name)
    (shape : archive = before ++ (sealed pre name m.bytes.length ++ (m.bytes ++ rest)))
    (room : members.size < maxMembers) (unseen : lower.get? (asciiLower m.path) = none) :
    turn archive before.length members lower = .ok (some (m.path,⟨m.bytes,before.length⟩,
      before.length + (512 + (m.bytes.length + 511) / 512 * 512))) := by
  have head := sealed_length writable
  have total : archive.length = before.length + (512 + (m.bytes.length + rest.length)) := by
    rw [shape,List.length_append,List.length_append,List.length_append,head]
  have first : slice archive before.length (before.length + 512) = sealed pre name m.bytes.length := by
    rw [shape]
    exact slice_at (by rw [head])
  have body : slice archive (before.length + 512) (before.length + 512 + m.bytes.length) = m.bytes := by
    rw [shape,← List.append_assoc]
    exact slice_middle (by rw [List.length_append,head]) (by rw [List.length_append,head])
  have admitted : readMember archive before.length members lower m.path m.bytes.length =
      .ok (⟨m.bytes,before.length⟩,before.length + (512 + (m.bytes.length + 511) / 512 * 512)) := by
    unfold readMember
    dsimp only
    rw [if_neg (by omega),unseen]
    dsimp only
    have next : (m.bytes.length + 511) / 512 * 512 + (before.length + 512) =
        before.length + (512 + (m.bytes.length + 511) / 512 * 512) := by omega
    rw [if_neg (by omega),if_neg,body,next]
    · rintro ⟨manifest,large⟩
      have := writable.manifest manifest
      omega
  unfold turn
  dsimp only
  rw [if_neg (by omega),first,sealed_nonzero writable,if_neg Bool.false_ne_true,readHeader_sealed writable]
  show (readMember archive before.length members lower m.path m.bytes.length >>= _) = _
  rw [admitted]
  rfl

/-- One turn reads the entry that the writer put at the reader's place. -/
theorem turn_entry (writable : Writable m pre name) (shape : archive = before ++ (entry pre name m ++ rest))
    (room : members.size < maxMembers) (unseen : lower.get? (asciiLower m.path) = none) :
    turn archive before.length members lower =
      .ok (some (m.path,⟨m.bytes,before.length⟩,(before ++ entry pre name m).length)) := by
  rw [entry,List.append_assoc,List.append_assoc] at shape
  rw [turn_sealed writable shape room unseen,List.length_append,entry_length writable]

theorem turn_terminator (shape : archive = before ++ List.replicate 1024 0) :
    turn archive before.length members lower = .ok none := by
  have total : archive.length = before.length + 1024 := by
    rw [shape,List.length_append,List.length_replicate]
  have zeros (start stop : Nat) : ∀ b ∈ slice archive (before.length + start) stop, b = 0 := by
    intro b member
    have inside := List.mem_of_mem_take member
    rw [shape,← List.drop_drop,List.drop_left] at inside
    exact List.eq_of_mem_replicate (List.mem_of_mem_drop inside)
  have clean (start stop : Nat) : (slice archive (before.length + start) stop).any (· != 0) = false :=
    List.any_eq_false.mpr fun b member => by rw [zeros start stop b member]; decide
  have blank : (slice archive before.length (before.length + 512)).all (· == 0) = true :=
    List.all_eq_true.mpr fun b member => beq_iff_eq.mpr (zeros 0 _ b member)
  have nothing : archive.drop (before.length + 1024) = [] := List.drop_eq_nil_of_le (by omega)
  unfold turn
  dsimp only
  rw [if_neg (by omega),blank,if_pos rfl,readTerminator,if_neg,nothing]
  · rfl
  · rintro (short | dirty)
    · omega
    · rw [clean] at dirty; cases dirty

theorem readFrom_next {offset next : Nat} {member : ReadMember}
    (read : turn archive offset members lower = .ok (some (path,member,next))) :
    readFrom archive offset members lower =
      readFrom archive next (members.insert path member) (lower.insert (asciiLower path) path) := by
  conv => lhs; rw [readFrom]
  split
  next e failed => rw [read] at failed; cases failed
  next ended => rw [read] at ended; cases ended
  next path' member' next' found => rw [read] at found; cases found; rfl

theorem readFrom_done {offset : Nat} (read : turn archive offset members lower = .ok none) :
    readFrom archive offset members lower = .ok members := by
  rw [readFrom]
  split
  next e failed => rw [read] at failed; cases failed
  next => rfl
  next path' member' next' found => rw [read] at found; cases found

/-- A member with the two parts of its path. -/
structure Part where
  pre : Bytes
  name : Bytes
  member : Member

/-- Each is as the writer's checks leave it, and no two share a path in lower case. -/
structure Laid (parts : List Part) : Prop where
  writable : ∀ x ∈ parts, Writable x.member x.pre x.name
  apart : parts.Pairwise fun x y => asciiLower x.member.path ≠ asciiLower y.member.path

theorem Laid.tail {x : Part} {parts : List Part} (laid : Laid (x :: parts)) : Laid parts :=
  ⟨fun y member => laid.writable y (List.mem_cons_of_mem _ member),laid.apart.of_cons⟩

def entries (parts : List Part) : Bytes := parts.flatMap fun x => entry x.pre x.name x.member

theorem size_insert {key : String} {row : ReadMember} (absent : members.get? key = none) :
    (members.insert key row).size = members.size + 1 := by
  have counted := Table.countP_insert members (fun _ => true) key row
  rw [absent] at counted
  simpa [Table.size] using counted

theorem entries_cons {x : Part} {parts : List Part}
    (shape : archive = before ++ (entries (x :: parts) ++ rest)) :
    archive = before ++ (entry x.pre x.name x.member ++ (entries parts ++ rest)) := by
  rw [shape,entries,List.flatMap_cons,List.append_assoc]
  rfl

/-- The reader goes through the entries in order and keeps each. -/
theorem readFrom_entries {parts : List Part} (laid : Laid parts)
    (shape : archive = before ++ (entries parts ++ List.replicate 1024 0))
    (room : members.size + parts.length ≤ maxMembers)
    (unseen : ∀ x ∈ parts, lower.get? (asciiLower x.member.path) = none ∧ members.get? x.member.path = none) :
    ∃ table, readFrom archive before.length members lower = .ok table ∧
      table.size = members.size + parts.length ∧
      ∀ path bytes, (∃ offset, table.get? path = some ⟨bytes,offset⟩) ↔
        (∃ offset, members.get? path = some ⟨bytes,offset⟩) ∨
          ∃ x ∈ parts, x.member.path = path ∧ x.member.bytes = bytes := by
  induction parts generalizing before members lower with
  | nil =>
    refine ⟨members,readFrom_done (turn_terminator shape),rfl,fun path bytes => ?_⟩
    constructor
    · exact .inl
    · rintro (kept | ⟨x,none,_⟩)
      · exact kept
      · cases none
  | cons x parts ih =>
    have writable := laid.writable x List.mem_cons_self
    obtain ⟨fresh,absent⟩ := unseen x List.mem_cons_self
    rw [List.length_cons] at room
    have placed := entries_cons shape
    have few : members.size < maxMembers := by omega
    rw [readFrom_next (turn_entry writable placed few fresh)]
    have grown : (members.insert x.member.path ⟨x.member.bytes,before.length⟩).size = members.size + 1 :=
      size_insert absent
    have later : ∀ y ∈ parts,
        (lower.insert (asciiLower x.member.path) x.member.path).get? (asciiLower y.member.path) = none ∧
          (members.insert x.member.path ⟨x.member.bytes,before.length⟩).get? y.member.path = none := by
      intro y later
      have other := List.rel_of_pairwise_cons laid.apart later
      obtain ⟨fresh',absent'⟩ := unseen y (List.mem_cons_of_mem _ later)
      rw [Table.get?_insert,if_neg other.symm,Table.get?_insert,if_neg]
      · exact ⟨fresh',absent'⟩
      · intro same
        exact other (by rw [same])
    obtain ⟨table,rest,size,holds⟩ := ih laid.tail (by rw [placed,List.append_assoc])
      (by rw [grown]; omega) later
    refine ⟨table,rest,by rw [size,grown,List.length_cons]; omega,fun path bytes => ?_⟩
    rw [holds path bytes,Table.get?_insert]
    constructor
    · rintro (⟨offset,kept⟩ | ⟨y,later,same⟩)
      · split at kept
        next own =>
          cases kept
          exact .inr ⟨x,List.mem_cons_self,own.symm,rfl⟩
        next => exact .inl ⟨offset,kept⟩
      · exact .inr ⟨y,List.mem_cons_of_mem _ later,same⟩
    · rintro (⟨offset,kept⟩ | ⟨y,member,own,same⟩)
      · left
        refine ⟨offset,?_⟩
        rw [if_neg]
        · exact kept
        · rintro rfl
          rw [absent] at kept
          cases kept
      · rcases List.mem_cons.mp member with rfl | later
        · left
          rw [if_pos own.symm,← same]
          exact ⟨_,rfl⟩
        · exact .inr ⟨y,later,own,same⟩

theorem turn_first {x : Part} {parts : List Part} (laid : Laid (x :: parts))
    (shape : archive = before ++ (entries (x :: parts) ++ rest)) :
    turn archive before.length ∅ ∅ = .ok (some (x.member.path,⟨x.member.bytes,before.length⟩,
      (before ++ entry x.pre x.name x.member).length)) :=
  turn_entry (laid.writable x List.mem_cons_self) (entries_cons shape) (by decide) rfl

/-- The bytes of an archive determine the members that were laid out in it. -/
theorem entries_injective {as bs : List Part} (left : Laid as) (right : Laid bs)
    (first : archive = before ++ (entries as ++ List.replicate 1024 0))
    (second : archive = before ++ (entries bs ++ List.replicate 1024 0)) :
    as.map Part.member = bs.map Part.member := by
  induction as generalizing before bs with
  | nil =>
    cases bs with
    | nil => rfl
    | cons y bs =>
      have ended : turn archive before.length ∅ ∅ = .ok none := turn_terminator first
      rw [turn_first right second] at ended
      cases ended
  | cons x as ih =>
    cases bs with
    | nil =>
      have ended : turn archive before.length ∅ ∅ = .ok none := turn_terminator second
      rw [turn_first left first] at ended
      cases ended
    | cons y bs =>
      have same := (turn_first left first).symm.trans (turn_first right second)
      simp only [Except.ok.injEq,Option.some.injEq,Prod.mk.injEq,ReadMember.mk.injEq,and_true] at same
      have member : x.member = y.member := by
        rcases x with ⟨_,_,⟨_,_,kind⟩⟩
        rcases y with ⟨_,_,⟨_,_,kind'⟩⟩
        obtain ⟨rfl,rfl,_⟩ := same
        have regular := (left.writable _ List.mem_cons_self).regular
        have regular' := (right.writable _ List.mem_cons_self).regular
        dsimp only at regular regular'
        rw [regular,regular']
      have split := (left.writable x List.mem_cons_self).split.split
      rw [member,(right.writable y List.mem_cons_self).split.split] at split
      obtain ⟨pre,name,m⟩ := x
      obtain ⟨pre',name',m'⟩ := y
      cases split
      cases member
      rw [List.map_cons,List.map_cons,ih left.tail right.tail (by rw [entries_cons first,List.append_assoc])
        (by rw [entries_cons second,List.append_assoc])]

theorem checkMember_ok {exact lowers : List String} {total total' : Nat}
    (checked : checkMember exact lowers total m = .ok total') :
    (∃ pre name, Writable m pre name) ∧ asciiLower m.path ∉ lowers ∧ total' ≤ archiveMax ∧
      total' = total + (512 + (m.bytes.length + 511) / 512 * 512) := by
  unfold checkMember at checked
  split at checked
  next => cases checked
  next valid =>
    split at checked
    next => cases checked
    next regular =>
      split at checked
      next => cases checked
      next =>
        split at checked
        next => cases checked
        next fresh =>
          split at checked
          next => cases checked
          next manifest =>
            dsimp only at checked
            split at checked
            next room =>
              obtain rfl := Except.ok.inj checked
              obtain ⟨pre,name,parts⟩ := checkPath_ok valid
              refine ⟨⟨pre,name,parts,not_not.mp regular,by omega,fun own => ?_⟩,fresh,room,by omega⟩
              exact Nat.not_lt.mp fun large => manifest ⟨own,large⟩
            next => cases checked

/-- The members that the checks admit, with the parts of their paths. -/
theorem checkMembers_ok {ms : List Member} {exact lowers : List String} {total : Nat}
    (small : total ≤ archiveMax) (ok : checkMembers exact lowers total ms = .ok ()) :
    ∃ parts : List Part, parts.map Part.member = ms ∧ Laid parts ∧
      (∀ x ∈ parts, asciiLower x.member.path ∉ lowers) ∧ total + (entries parts).length ≤ archiveMax := by
  induction ms generalizing exact lowers total with
  | nil =>
    exact ⟨[],rfl,⟨fun _ none => absurd none List.not_mem_nil,.nil⟩,
      fun _ none => absurd none List.not_mem_nil,small⟩
  | cons m ms ih =>
    obtain ⟨total',checked,ok⟩ := bind_ok ok
    obtain ⟨⟨pre,name,writable⟩,fresh,room,grown⟩ := checkMember_ok checked
    obtain ⟨parts,same,laid,clear,fits⟩ := ih room ok
    refine ⟨⟨pre,name,m⟩ :: parts,by rw [List.map_cons,same],⟨?_,?_⟩,?_,?_⟩
    · intro x member
      rcases List.mem_cons.mp member with rfl | later
      · exact writable
      · exact laid.writable x later
    · refine List.pairwise_cons.mpr ⟨fun y later same => ?_,laid.apart⟩
      exact clear y later (same ▸ List.mem_cons_self)
    · intro x member
      rcases List.mem_cons.mp member with rfl | later
      · exact fresh
      · exact fun inside => clear x later (List.mem_cons_of_mem _ inside)
    · rw [entries,List.flatMap_cons,List.length_append,entry_length writable]
      rw [entries] at fits
      omega

theorem writeMembers_ok {parts : List Part} {out written : Bytes} (laid : Laid parts)
    (whole : 512 ∣ out.length) (ok : writeMembers out (parts.map Part.member) = .ok written) :
    written = out ++ (entries parts ++ List.replicate 1024 0) := by
  induction parts generalizing out with
  | nil => exact (Except.ok.inj ok).symm
  | cons x parts ih =>
    have writable := laid.writable x List.mem_cons_self
    rw [List.map_cons,writeMembers,writable.split.split] at ok
    dsimp only at ok
    rw [fillBlock_entry writable whole] at ok
    rw [ih laid.tail (entry_whole writable whole) ok,entries,entries,List.flatMap_cons]
    simp only [List.append_assoc]

/-- What an accepted list was written as. -/
theorem write_ok {ms : List Member} {out : Bytes} (written : write ms = .ok out) :
    ∃ parts : List Part, parts.map Part.member = ms ∧ Laid parts ∧ parts.length ≤ maxMembers ∧
      out = entries parts ++ List.replicate 1024 0 ∧ out.length ≤ archiveMax ∧
      ∃ m ∈ ms, m.path = "ck.json" := by
  unfold write at written
  split at written
  next => cases written
  next few =>
    split at written
    next => cases written
    next checked =>
      split at written
      next => cases written
      next first =>
        obtain ⟨parts,same,laid,_,room⟩ := checkMembers_ok (by decide) checked
        rw [← same] at written
        have shape := writeMembers_ok laid (by decide) written
        rw [List.nil_append] at shape
        refine ⟨parts,same,laid,?_,shape,?_,?_⟩
        · have length := congrArg List.length same
          rw [List.length_map] at length
          omega
        · rw [shape,List.length_append,List.length_replicate]
          omega
        · cases ms with
          | nil => exact absurd rfl first
          | cons m ms => exact ⟨m,List.mem_cons_self,by simpa using first⟩

/-- Reading what was written gives back every member's bytes under its path. -/
theorem read_written {ms : List Member} {out : Bytes} (written : write ms = .ok out) :
    ∃ table, read out = .ok table ∧ table.size = ms.length ∧
      ∀ path bytes, table.get? path = some bytes ↔ Member.regular path bytes ∈ ms := by
  obtain ⟨parts,same,laid,few,shape,room,m,member,first⟩ := write_ok written
  have start : out = [] ++ (entries parts ++ List.replicate 1024 0) := shape
  obtain ⟨table,done,size,holds⟩ := @readFrom_entries out [] ∅ ∅ parts laid start
    (by rw [show Table.size ∅ = 0 from rfl,Nat.zero_add]; exact few) fun _ _ => ⟨rfl,rfl⟩
  have members : readMembers out = .ok table := by
    rw [readMembers,if_neg (by omega)]
    exact done
  have found (path : String) (bytes : Bytes) :
      (∃ offset, table.get? path = some ⟨bytes,offset⟩) ↔ Member.regular path bytes ∈ ms := by
    rw [holds path bytes,← same,List.mem_map]
    constructor
    · rintro (⟨_,none⟩ | ⟨x,inside,rfl,rfl⟩)
      · cases none
      · refine ⟨x,inside,?_⟩
        rw [Member.regular,← (laid.writable x inside).regular]
    · rintro ⟨x,inside,own⟩
      exact .inr ⟨x,inside,by rw [own]; rfl,by rw [own]; rfl⟩
  have ck : table.has "ck.json" = true := by
    obtain ⟨x,inside,rfl⟩ := List.mem_map.mp (same ▸ member)
    obtain ⟨offset,kept⟩ := (holds x.member.path x.member.bytes).mpr (.inr ⟨x,inside,rfl,rfl⟩)
    exact Table.has_iff.mpr ⟨_,first ▸ kept⟩
  refine ⟨table.update fun _ member => member.bytes,?_,?_,fun path bytes => ?_⟩
  · rw [read,members]
    show (if table.has "ck.json" = true then _ else _) = _
    rw [if_pos ck]
    rfl
  · rw [Table.size_update,size,← same,List.length_map]
    exact Nat.zero_add _
  · rw [Table.get?_update,← found path bytes,Option.map_eq_some_iff]
    constructor
    · rintro ⟨⟨bytes',offset⟩,kept,rfl⟩
      exact ⟨offset,kept⟩
    · rintro ⟨offset,kept⟩
      exact ⟨⟨bytes,offset⟩,kept,rfl⟩

/-- Reading what was written gives back every member's bytes under its path and nothing
else, and two accepted lists with the same archive are the same list. -/
theorem read_write {ms : List Member} {out : Bytes} (written : write ms = .ok out) :
    (∃ table, read out = .ok table ∧ table.size = ms.length ∧
      ∀ path bytes, table.get? path = some bytes ↔ Member.regular path bytes ∈ ms) ∧
    ∀ ms', write ms' = .ok out → ms' = ms := by
  refine ⟨read_written written,fun ms' written' => ?_⟩
  obtain ⟨parts,same,laid,_,shape,_⟩ := write_ok written
  have start : out = [] ++ (entries parts ++ List.replicate 1024 0) := shape
  obtain ⟨parts',same',laid',_,shape',_⟩ := write_ok written'
  rw [← same,← same']
  exact @entries_injective out [] _ _ laid' laid shape' start

/-- A manifest and a file whose path is cut between prefix and name. -/
def package : List Member :=
  [.regular "ck.json" [123,125],
    .regular (String.ofList (List.replicate 101 'a' ++ '/' :: List.replicate 30 'b')) [104,105]]

theorem package_read : ∃ out, write package = .ok out ∧ ∃ table, read out = .ok table ∧ table.size = 2 ∧
    table.get? (String.ofList (List.replicate 101 'a' ++ '/' :: List.replicate 30 'b')) = some [104,105] := by
  have accepted : (write package).toOption.isSome = true := by decide +kernel
  cases written : write package with
  | error e => rw [written] at accepted; cases accepted
  | ok out =>
    obtain ⟨⟨table,done,size,holds⟩,_⟩ := read_write written
    exact ⟨out,rfl,table,done,size,(holds _ _).mpr (List.mem_cons_of_mem _ List.mem_cons_self)⟩

end Entorhinal.Archive
