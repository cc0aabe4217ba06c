import Entorhinal.ArchiveChecked

/-! What the strict reader accepts: members with sound paths and headers, each in its own place on whole blocks,
and zeros after the last. -/
namespace Entorhinal.Archive

open Utf8

variable {archive : Bytes} {offset next size : Nat} {members : Table String ReadMember} {lower : Table String String}
  {path : String} {member : ReadMember}

def headerAt (archive : Bytes) (offset : Nat) : Bytes := slice archive offset (offset + 512)

/-- Where a member's bytes end, and where their last block does. -/
def ReadMember.stop (member : ReadMember) : Nat := member.offset + 512 + member.bytes.length

def ReadMember.blocks (member : ReadMember) : Nat := member.offset + 512 + (member.bytes.length + 511) / 512 * 512

theorem ReadMember.stop_le_blocks (member : ReadMember) : member.stop ≤ member.blocks := by
  unfold ReadMember.stop ReadMember.blocks
  omega

/-- A member is in the archive: its path is sound, and its bytes are those after a header with its checksum. -/
structure Kept (archive : Bytes) (path : String) (member : ReadMember) : Prop where
  sound : checkPath path = .ok ()
  aligned : 512 ∣ member.offset
  checksum : octal (slice (headerAt archive member.offset) 148 156) = some (headerSum (headerAt archive member.offset))
  inside : member.stop ≤ archive.length
  bytes : member.bytes = slice archive (member.offset + 512) member.stop

theorem readHeader_ok {h : Bytes} (read : readHeader offset h = .ok (path,size)) :
    checkPath path = .ok () ∧ octal (slice h 148 156) = some (headerSum h) := by
  unfold readHeader at read
  dsimp only at read
  split at read
  next => cases read
  next checksum =>
    split at read
    next => cases read
    next =>
      split at read
      next => cases read
      next =>
        split at read
        next => cases read
        next =>
          split at read
          next => cases read
          next sound =>
            cases read
            exact ⟨sound,not_not.mp checksum⟩

theorem readMember_ok (read : readMember archive offset members lower path size = .ok (member,next)) :
    members.size < maxMembers ∧ lower.get? (asciiLower path) = none ∧ offset + 512 + size ≤ archive.length ∧
      member = ⟨slice archive (offset + 512) (offset + 512 + size),offset⟩ ∧ next = (size + 511) / 512 * 512 + (offset + 512) := by
  unfold readMember at read
  dsimp only at read
  split at read
  next => cases read
  next few =>
    split at read
    next => cases read
    next unseen =>
      split at read
      next => cases read
      next inside =>
        split at read
        next => cases read
        next =>
          simp only [Except.ok.injEq,Prod.mk.injEq] at read
          obtain ⟨rfl,rfl⟩ := read
          exact ⟨by omega,unseen,by omega,rfl,rfl⟩

/-- A turn that reads a member leaves the reader after its blocks. -/
theorem turn_ok (read : turn archive offset members lower = .ok (some (path,member,next))) (aligned : 512 ∣ offset) :
    Kept archive path member ∧ member.offset = offset ∧ next = member.blocks ∧ members.size < maxMembers ∧
      lower.get? (asciiLower path) = none := by
  unfold turn at read
  split at read
  next => cases read
  next long =>
    dsimp only at read
    split at read
    next =>
      obtain ⟨_,_,read⟩ := bind_ok read
      cases read
    next =>
      obtain ⟨⟨found,size⟩,header,read⟩ := bind_ok read
      obtain ⟨⟨kept,after⟩,admitted,read⟩ := bind_ok read
      cases read
      obtain ⟨sound,checksum⟩ := readHeader_ok header
      obtain ⟨few,unseen,inside,rfl,rfl⟩ := readMember_ok admitted
      have length : (slice archive (offset + 512) (offset + 512 + size)).length = size := by
        rw [slice,List.length_take,List.length_drop]
        omega
      refine ⟨⟨sound,aligned,checksum,?_,?_⟩,rfl,?_,few,unseen⟩
      · rw [ReadMember.stop,length]
        exact inside
      · rw [ReadMember.stop,length]
      · rw [ReadMember.blocks,length]
        exact Nat.add_comm _ _

/-- A turn that ends the loop has only zeros before it, in two blocks at least. -/
theorem turn_none (read : turn archive offset members lower = .ok none) :
    offset + 1024 ≤ archive.length ∧ ∀ b ∈ archive.drop offset, b = 0 := by
  unfold turn at read
  split at read
  next => cases read
  next long =>
    dsimp only at read
    split at read
    next blank =>
      obtain ⟨_,ended,_⟩ := bind_ok read
      unfold readTerminator at ended
      split at ended
      next => cases ended
      next clean =>
        obtain ⟨room,second⟩ := not_or.mp clean
        split at ended
        next => cases ended
        next rest =>
          have cutUp : archive.drop offset = slice archive offset (offset + 512) ++
              (slice archive (offset + 512) (offset + 1024) ++ archive.drop (offset + 1024)) := by
            have first := (List.take_append_drop 512 (archive.drop offset)).symm
            have others := (List.take_append_drop 512 (archive.drop (offset + 512))).symm
            rw [List.drop_drop] at first others
            rw [slice,slice,Nat.add_sub_cancel_left,show offset + 1024 - (offset + 512) = 512 by omega]
            rw [show offset + 1024 = offset + 512 + 512 by omega,← others]
            exact first
          refine ⟨by omega,fun b member => ?_⟩
          rw [cutUp] at member
          rcases List.mem_append.mp member with inFirst | later
          · exact beq_iff_eq.mp (List.all_eq_true.mp blank b inFirst)
          · rcases List.mem_append.mp later with inSecond | trailing
            · by_contra other
              exact second (List.any_eq_true.mpr ⟨b,inSecond,bne_iff_ne.mpr other⟩)
            · by_contra other
              exact Bool.false_ne_true ((List.findIdx?_eq_none_iff.mp rest b trailing).symm.trans (bne_iff_ne.mpr other))
    next =>
      obtain ⟨⟨found,size⟩,_,read⟩ := bind_ok read
      obtain ⟨⟨kept,after⟩,_,read⟩ := bind_ok read
      cases read

theorem readFrom_failed {e : ArchiveError} (read : turn archive offset members lower = .error e) :
    readFrom archive offset members lower = .error e := by
  rw [readFrom]
  split
  next e' failed => rw [read] at failed; cases failed; rfl
  next ended => rw [read] at ended; cases ended
  next found => rw [read] at found; cases found

/-- What holds before each turn. -/
structure Scan (archive : Bytes) (offset : Nat) (members : Table String ReadMember) (lower : Table String String) : Prop where
  aligned : 512 ∣ offset
  few : members.size ≤ maxMembers
  kept : ∀ path member, members.get? path = some member → Kept archive path member ∧ member.blocks ≤ offset
  named : ∀ path member, members.get? path = some member → lower.get? (asciiLower path) = some path
  apart : ∀ path path' member member', members.get? path = some member → members.get? path' = some member' → path ≠ path' →
    member.blocks ≤ member'.offset ∨ member'.blocks ≤ member.offset
  last : offset = 0 ∨ ∃ path member, members.get? path = some member ∧ member.blocks = offset

theorem Scan.start (archive : Bytes) : Scan archive 0 ∅ ∅ where
  aligned := Nat.dvd_zero 512
  few := Nat.zero_le _
  kept := nofun
  named := nofun
  apart := nofun
  last := .inl rfl

theorem Scan.turn (scan : Scan archive offset members lower)
    (read : Archive.turn archive offset members lower = .ok (some (path,member,next))) :
    Scan archive next (members.insert path member) (lower.insert (asciiLower path) path) ∧ offset + 512 ≤ next := by
  obtain ⟨kept,placed,rfl,few,unseen⟩ := turn_ok read scan.aligned
  have absent : members.get? path = none := by
    by_contra present
    obtain ⟨old,present⟩ := Option.ne_none_iff_exists'.mp present
    rw [scan.named path old present] at unseen
    cases unseen
  have grows : offset + 512 ≤ member.blocks := by
    unfold ReadMember.blocks
    omega
  have found {p : String} {m : ReadMember} (present : (members.insert path member).get? p = some m) :
      p = path ∧ m = member ∨ p ≠ path ∧ members.get? p = some m := by
    rw [Table.get?_insert] at present
    split at present
    next same => exact .inl ⟨same,(Option.some.inj present).symm⟩
    next other => exact .inr ⟨other,present⟩
  refine ⟨⟨?_,?_,fun p m present => ?_,fun p m present => ?_,fun p q m n left right other => ?_,.inr ⟨path,member,?_,rfl⟩⟩,grows⟩
  · obtain ⟨blocks,whole⟩ := kept.aligned
    unfold ReadMember.blocks
    omega
  · rw [size_insert absent]
    exact few
  · rcases found present with ⟨rfl,rfl⟩ | ⟨_,before⟩
    · exact ⟨kept,Nat.le_refl _⟩
    · obtain ⟨sound,upto⟩ := scan.kept p m before
      exact ⟨sound,by omega⟩
  · rw [Table.get?_insert]
    rcases found present with ⟨rfl,rfl⟩ | ⟨other,before⟩
    · rw [if_pos rfl]
    · have named := scan.named p m before
      rw [if_neg,named]
      intro same
      rw [same,unseen] at named
      cases named
  · rcases found left with ⟨rfl,rfl⟩ | ⟨_,before⟩
    · rcases found right with ⟨rfl,_⟩ | ⟨_,before'⟩
      · exact absurd rfl other
      · exact .inr (placed ▸ (scan.kept q n before').2)
    · rcases found right with ⟨rfl,rfl⟩ | ⟨_,before'⟩
      · exact .inl (placed ▸ (scan.kept p m before).2)
      · exact scan.apart p q m n before before' other
  · rw [Table.get?_insert,if_pos rfl]

/-- The reader ends where only zeros are left, having kept what each turn kept. -/
theorem Scan.readFrom (scan : Scan archive offset members lower) {table : Table String ReadMember}
    (read : Archive.readFrom archive offset members lower = .ok table) :
    ∃ stop lower, Scan archive stop table lower ∧ stop + 1024 ≤ archive.length ∧ ∀ b ∈ archive.drop stop, b = 0 := by
  induction offset,members,lower using readFrom.induct archive with
  | case1 offset members lower e failed =>
    rw [readFrom_failed failed] at read
    cases read
  | case2 offset members lower ended =>
    rw [readFrom_done ended] at read
    cases read
    exact ⟨offset,lower,scan,turn_none ended⟩
  | case3 offset members lower path member next found ih =>
    rw [readFrom_next found] at read
    exact ih (scan.turn found).1 read

/-- Enough turns for the blocks that are left meet no panic and read what the reader reads. -/
theorem Scan.checked (small : archive.length ≤ archiveMax) (scan : Scan archive offset members lower) {turns : Nat}
    (enough : archive.length < offset + 512 * turns) (some_ : 0 < turns) :
    Checked.readFrom turns archive offset members lower = some (Archive.readFrom archive offset members lower) := by
  induction turns generalizing offset members lower with
  | zero => omega
  | succ turns ih =>
    rw [Checked.readFrom,Checked.turn_some small scan.few]
    cases read : Archive.turn archive offset members lower with
    | error e =>
      rw [readFrom_failed read]
      rfl
    | ok out =>
      match out with
      | none =>
        rw [readFrom_done read]
        rfl
      | some (path,member,next) =>
        obtain ⟨later,further⟩ := scan.turn read
        obtain ⟨kept,placed,rfl,_⟩ := turn_ok read scan.aligned
        rw [readFrom_next read]
        have inside := kept.inside
        unfold ReadMember.stop at inside
        exact ih later (by omega) (by omega)

section Padded

/-- An archive of one member of one byte, with other bytes in the rest of its block. -/
def paddedArchive : Bytes := sealed [] [97] 1 ++ ([7] ++ (List.replicate 511 1 ++ List.replicate 1024 0))

theorem oneByte_plain : ∀ b ∈ Utf8.asBytes "a", b ≠ 0 ∧ b.toNat < 128 := by
  intro b member
  rw [List.mem_singleton.mp (show b ∈ [(97 : UInt8)] from member)]
  decide

theorem oneByte_writable : Writable (.regular "a" [7]) [] [97] where
  split := ⟨rfl,oneByte_plain,rfl,by decide,.inl ⟨rfl,rfl⟩⟩
  regular := rfl
  small := by decide
  manifest := fun _ => by decide

theorem oneByte_sealed : (sealed [] [97] 1).length = 512 := @sealed_length [] [97] (.regular "a" [7]) oneByte_writable

theorem readMembers_padded : readMembers paddedArchive = .ok (Table.insert ∅ "a" ⟨[7],0⟩) := by
  have head := oneByte_sealed
  have length : paddedArchive.length = 2048 := by
    rw [paddedArchive,List.length_append,List.length_append,List.length_append,head,List.length_replicate,List.length_replicate]
    rfl
  have first : turn paddedArchive 0 ∅ ∅ = .ok (some ("a",⟨[7],0⟩,1024)) :=
    @turn_sealed [] [97] paddedArchive [] _ ∅ ∅ _ oneByte_writable rfl (by decide) rfl
  have ended := @turn_terminator paddedArchive (sealed [] [97] 1 ++ ([7] ++ List.replicate 511 1))
    (Table.insert ∅ "a" ⟨[7],0⟩) (Table.insert ∅ (asciiLower "a") "a")
    (by rw [paddedArchive,List.append_assoc,List.append_assoc])
  have place : (sealed [] [97] 1 ++ ([7] ++ List.replicate 511 (1 : UInt8))).length = 1024 := by
    rw [List.length_append,List.length_append,head,List.length_replicate]
    rfl
  rw [place] at ended
  rw [readMembers,if_neg (by rw [length]; decide),readFrom_next first,readFrom_done ended]

/-- After the last member the rest of its block may be anything. -/
theorem members_before_other_bytes : ∃ members member, readMembers paddedArchive = .ok members ∧ members.get? "a" = some member ∧
    (∀ path other, members.get? path = some other → other = member) ∧ ∃ b ∈ paddedArchive.drop member.stop, b ≠ 0 := by
  refine ⟨_,⟨[7],0⟩,readMembers_padded,rfl,fun path other present => ?_,1,?_,by decide⟩
  · rw [Table.get?_insert] at present
    split at present
    next => exact (Option.some.inj present).symm
    next => cases present
  · have place : (sealed [] [97] 1 ++ [7]).length = (⟨[7],0⟩ : ReadMember).stop := by
      rw [List.length_append,oneByte_sealed]
      rfl
    rw [paddedArchive,← List.append_assoc,← place,List.drop_left]
    exact List.mem_append_left _ (List.mem_replicate.mpr ⟨by decide,rfl⟩)

end Padded

/-- The reader meets no panic on any archive, and what it accepts lies apart on whole blocks, with sound paths that
differ in lower case, before zeros alone. -/
theorem readMembers_safe (archive : Bytes) :
    Checked.readMembers archive = some (readMembers archive) ∧
    ∀ members, readMembers archive = .ok members →
      members.size ≤ maxMembers ∧
      (∀ path member, members.get? path = some member → Kept archive path member) ∧
      (∀ path path', members.has path = true → members.has path' = true → asciiLower path = asciiLower path' → path = path') ∧
      (∀ path path' member member', members.get? path = some member → members.get? path' = some member' → path ≠ path' →
        member.stop ≤ member'.offset ∨ member'.stop ≤ member.offset) ∧
      ∃ stop, (∀ path member, members.get? path = some member → member.blocks ≤ stop) ∧
        (stop = 0 ∨ ∃ path member, members.get? path = some member ∧ member.blocks = stop) ∧
        stop + 1024 ≤ archive.length ∧ ∀ b ∈ archive.drop stop, b = 0 := by
  unfold Checked.readMembers readMembers
  by_cases large : archiveMax < archive.length
  · rw [if_pos large,if_pos large]
    exact ⟨rfl,nofun⟩
  · rw [if_neg large,if_neg large]
    refine ⟨(Scan.start archive).checked (by omega) (by omega) (by omega),fun members read => ?_⟩
    obtain ⟨stop,lower,scan,room,zeros⟩ := (Scan.start archive).readFrom read
    refine ⟨scan.few,fun path member present => (scan.kept path member present).1,fun path path' has has' same => ?_,
      fun path path' member member' left right other => ?_,stop,fun path member present => (scan.kept path member present).2,
      scan.last,room,zeros⟩
    · obtain ⟨member,present⟩ := Table.has_iff.mp has
      obtain ⟨member',present'⟩ := Table.has_iff.mp has'
      have named := scan.named path member present
      rw [same,scan.named path' member' present'] at named
      exact (Option.some.inj named).symm
    · rcases scan.apart path path' member member' left right other with before | after
      · exact .inl (Nat.le_trans member.stop_le_blocks before)
      · exact .inr (Nat.le_trans member'.stop_le_blocks after)

theorem readMembers_safe_padded : ∃ members, readMembers paddedArchive = .ok members ∧ members.size ≤ maxMembers ∧
    Kept paddedArchive "a" ⟨[7],0⟩ := by
  have accepted := readMembers_padded
  obtain ⟨few,kept,_⟩ := (readMembers_safe paddedArchive).2 _ accepted
  exact ⟨_,accepted,few,kept _ _ rfl⟩

end Entorhinal.Archive
