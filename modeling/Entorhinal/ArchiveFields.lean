import Entorhinal.Archive

/-! What the reader finds in the fields of a header that the writer sealed, and what
an admitted path looks like. -/
namespace Entorhinal.Archive

open Utf8

theorem isPathByte_plain {b : UInt8} (valid : isPathByte b = true) : b ≠ 0 ∧ b.toNat < 128 := by
  have bounds : b.toNat ≠ 0 ∧ b.toNat < 128 := by
    simp only [isPathByte,isAlphanumeric,isDigit,isLower,isUpper,Bool.or_eq_true,Bool.and_eq_true,
      decide_eq_true_eq,beq_iff_eq,UInt8.le_iff_toNat_le,← UInt8.toNat_inj,UInt8.toNat_ofNat] at valid
    omega
  exact ⟨fun zero => bounds.1 (by rw [zero]; rfl),bounds.2⟩

/-- The two parts of a header's path have their places in it and give the path back. -/
structure Split (path : String) (pre name : Bytes) : Prop where
  admitted : checkPath path = .ok ()
  plain : ∀ b ∈ asBytes path, b ≠ 0 ∧ b.toNat < 128
  split : ustarSplit (asBytes path) = some (pre,name)
  short : pre.length ≤ 155 ∧ name.length ≤ 100
  joined : pre = [] ∧ asBytes path = name ∨ pre ≠ [] ∧ asBytes path = pre ++ 47 :: name

theorem ustarSplit_ok {path pre name : Bytes} (split : ustarSplit path = some (pre,name)) :
    (pre.length ≤ 155 ∧ name.length ≤ 100) ∧
      (pre = [] ∧ path = name ∨ pre ≠ [] ∧ path = pre ++ 47 :: name) := by
  unfold ustarSplit at split
  split at split
  next small =>
    cases split
    exact ⟨⟨Nat.zero_le _,small⟩,.inl ⟨rfl,rfl⟩⟩
  next large =>
    obtain ⟨i,found,parts⟩ := Option.map_eq_some_iff.mp split
    cases parts
    have range := List.mem_range'_1.mp (List.mem_of_find?_eq_some found)
    have slash := beq_iff_eq.mp (List.find?_some (p := fun i => path[i]? == some 47) found)
    obtain ⟨inside,value⟩ := List.getElem?_eq_some_iff.mp slash
    refine ⟨⟨?_,?_⟩,.inr ⟨?_,?_⟩⟩
    · rw [List.length_take]; omega
    · rw [List.length_drop]; omega
    · intro empty
      have := congrArg List.length empty
      rw [List.length_take,List.length_nil] at this
      omega
    · rw [← value,← List.drop_eq_getElem_cons inside,List.take_append_drop]

theorem checkPath_ok {path : String} (ok : checkPath path = .ok ()) :
    ∃ pre name, Split path pre name := by
  have admitted := ok
  simp only [checkPath] at ok
  split at ok
  next => cases ok
  next valid =>
    split at ok
    next => cases ok
    next =>
      split at ok
      next => cases ok
      next splits =>
        cases found : ustarSplit (asBytes path) with
        | none => rw [found] at splits; exact absurd rfl splits
        | some parts =>
          obtain ⟨pre,name⟩ := parts
          obtain ⟨short,joined⟩ := ustarSplit_ok found
          refine ⟨pre,name,admitted,?_,found,short,joined⟩
          intro b member
          rcases mem_splitOn 47 member with rfl | ⟨part,listed,has⟩
          · exact ⟨by decide,by decide⟩
          · apply isPathByte_plain
            by_contra bad
            refine valid (List.any_eq_true.mpr ⟨part,listed,?_⟩)
            have dirty : part.all isPathByte = false :=
              List.all_eq_false.mpr ⟨b,has,bad⟩
            rw [partInvalid,dirty]
            simp only [Bool.not_false,Bool.or_true]

variable {pre name checksum : Bytes} {size : Nat}

theorem slice_middle {a b c : Bytes} {start stop : Nat} (before : a.length = start)
    (upto : a.length + b.length = stop) : slice (a ++ (b ++ c)) start stop = b := by
  subst before upto
  rw [slice,List.drop_left,Nat.add_sub_cancel_left,List.take_left]

theorem field_length {width : Nat} {bytes : Bytes} (fits : bytes.length ≤ width) :
    (field width bytes).length = width := by
  rw [field,List.length_append,List.length_replicate]
  omega

/-- The fields before the checksum. -/
def headerStart (name : Bytes) (size : Nat) : Bytes :=
  field 100 name ++ ([48,48,48,48,54,52,52,0] ++ [48,48,48,48,48,48,48,0] ++ [48,48,48,48,48,48,48,0]) ++
    (Octal.digits 11 size ++ [0]) ++ [48,48,48,48,48,48,48,48,48,48,48,0]

/-- The fields after the checksum. -/
def headerEnd (pre : Bytes) : Bytes :=
  [48] ++ List.replicate 100 0 ++ ustar ++ ustarVersion ++ List.replicate 80 0 ++ field 155 pre ++
    List.replicate 12 0

theorem header_eq (pre name : Bytes) (size : Nat) (checksum : Bytes) :
    header pre name size checksum = headerStart name size ++ (checksum ++ headerEnd pre) := by
  simp only [header,headerStart,headerEnd,List.append_assoc]

theorem headerStart_length (size : Nat) (fits : name.length ≤ 100) : (headerStart name size).length = 148 := by
  simp only [headerStart,List.length_append,field_length fits,Octal.digits_length]
  rfl

theorem headerEnd_length (fits : pre.length ≤ 155) : (headerEnd pre).length = 356 := by
  simp only [headerEnd,List.length_append,field_length fits,List.length_replicate]
  rfl

/-- A header with all its fields in place. -/
structure Fits (pre name checksum : Bytes) : Prop where
  pre : pre.length ≤ 155
  name : name.length ≤ 100
  checksum : checksum.length = 8

theorem header_length (fits : Fits pre name checksum) : (header pre name size checksum).length = 512 := by
  rw [header_eq,List.length_append,List.length_append,headerStart_length _ fits.name,fits.checksum,
    headerEnd_length fits.pre]

theorem slice_checksum (fits : Fits pre name checksum) :
    slice (header pre name size checksum) 148 156 = checksum := by
  rw [header_eq]
  exact slice_middle (headerStart_length _ fits.name) (by rw [headerStart_length _ fits.name,fits.checksum])

theorem slice_name (fits : Fits pre name checksum) :
    slice (header pre name size checksum) 0 100 = field 100 name := by
  simp only [header,List.append_assoc]
  exact slice_middle (a := []) rfl (by rw [field_length fits.name]; rfl)

theorem slice_size (fits : Fits pre name checksum) :
    slice (header pre name size checksum) 124 136 = Octal.digits 11 size ++ [0] := by
  have shape : header pre name size checksum =
      (field 100 name ++ [48,48,48,48,54,52,52,0] ++ [48,48,48,48,48,48,48,0] ++ [48,48,48,48,48,48,48,0]) ++
        ((Octal.digits 11 size ++ [0]) ++
          ([48,48,48,48,48,48,48,48,48,48,48,0] ++ (checksum ++ headerEnd pre))) := by
    rw [header_eq,headerStart]
    simp only [List.append_assoc]
  rw [shape]
  apply slice_middle
  · simp only [List.length_append,field_length fits.name]
    rfl
  · simp only [List.length_append,field_length fits.name,Octal.digits_length]
    rfl

/-- The fields from the type flag on, after as many bytes as stand before them. -/
theorem header_tail (size : Nat) (fits : Fits pre name checksum) : ∃ front : Bytes, front.length = 156 ∧
    header pre name size checksum = front ++ headerEnd pre := by
  refine ⟨headerStart name size ++ checksum,?_,by rw [header_eq,List.append_assoc]⟩
  rw [List.length_append,headerStart_length _ fits.name,fits.checksum]

theorem getD_typeflag (size : Nat) (fits : Fits pre name checksum) : (header pre name size checksum).getD 156 0 = 48 := by
  obtain ⟨front,length,shape⟩ := header_tail size fits
  rw [shape,List.getD_eq_getElem?_getD,List.getElem?_append_right (by omega),length]
  rfl

/-- A field of the tail, after the fields before it. -/
theorem slice_tail (size : Nat) (fits : Fits pre name checksum) {before part after : Bytes} {start stop : Nat}
    (shape : headerEnd pre = before ++ (part ++ after)) (first : 156 + before.length = start)
    (last : start + part.length = stop) : slice (header pre name size checksum) start stop = part := by
  obtain ⟨front,length,whole⟩ := header_tail size fits
  have here : (front ++ before).length = start := by rw [List.length_append,length,first]
  rw [whole,shape,← List.append_assoc]
  exact slice_middle here (by rw [here,last])

theorem slice_magic (fits : Fits pre name checksum) :
    slice (header pre name size checksum) 257 263 = ustar := by
  have shape : headerEnd pre = ([48] ++ List.replicate 100 0) ++
      (ustar ++ (ustarVersion ++ List.replicate 80 0 ++ field 155 pre ++ List.replicate 12 0)) := by
    simp only [headerEnd,List.append_assoc]
  exact slice_tail size fits shape rfl rfl

theorem slice_version (fits : Fits pre name checksum) :
    slice (header pre name size checksum) 263 265 = ustarVersion := by
  have shape : headerEnd pre = ([48] ++ List.replicate 100 0 ++ ustar) ++
      (ustarVersion ++ (List.replicate 80 0 ++ field 155 pre ++ List.replicate 12 0)) := by
    simp only [headerEnd,List.append_assoc]
  exact slice_tail size fits shape rfl rfl

theorem slice_front (fits : Fits pre name checksum) :
    slice (header pre name size checksum) 345 500 = field 155 pre := by
  have shape : headerEnd pre = ([48] ++ List.replicate 100 0 ++ ustar ++ ustarVersion ++ List.replicate 80 0) ++
      (field 155 pre ++ List.replicate 12 0) := by
    simp only [headerEnd,List.append_assoc]
  refine slice_tail size fits shape ?_ (by rw [field_length fits.pre])
  simp only [List.length_append,List.length_replicate]
  rfl

theorem mapIdx_eq_map {α β : Type} {f : Nat → α → β} {g : α → β} {l : List α}
    (same : ∀ i a, i < l.length → f i a = g a) : l.mapIdx f = l.map g := by
  apply List.ext_getElem?
  intro i
  rw [List.getElem?_mapIdx,List.getElem?_map]
  by_cases inside : i < l.length
  · rw [List.getElem?_eq_getElem inside]
    exact congrArg some (same i _ inside)
  · rw [List.getElem?_eq_none (Nat.not_lt.mp inside)]
    rfl

/-- The reader's sum of a header is the sum the writer took over blanks. -/
theorem headerSum_header (fits : Fits pre name checksum) : headerSum (header pre name size checksum) =
    ((header pre name size (List.replicate 8 32)).map UInt8.toNat).sum := by
  have start := headerStart_length size fits.name
  have front : (headerStart name size).mapIdx (fun i b => if 148 ≤ i ∧ i < 156 then 32 else b.toNat) =
      (headerStart name size).map UInt8.toNat :=
    mapIdx_eq_map fun i b inside => if_neg (by omega)
  have middle : checksum.mapIdx (fun i (b : UInt8) =>
      if 148 ≤ i + (headerStart name size).length ∧ i + (headerStart name size).length < 156 then 32
        else b.toNat) = checksum.map fun _ => 32 :=
    mapIdx_eq_map fun i b inside => if_pos (by have := fits.checksum; omega)
  have rear : (headerEnd pre).mapIdx (fun i (b : UInt8) =>
      if 148 ≤ i + checksum.length + (headerStart name size).length ∧
        i + checksum.length + (headerStart name size).length < 156 then 32 else b.toNat) =
      (headerEnd pre).map UInt8.toNat :=
    mapIdx_eq_map fun i b inside => if_neg (by have := fits.checksum; omega)
  rw [headerSum,header_eq,header_eq,List.mapIdx_append,List.mapIdx_append,front,middle,rear,
    List.map_append,List.map_append,List.map_const',fits.checksum,List.map_replicate]
  rfl

theorem sum_bytes (bytes : Bytes) : (bytes.map UInt8.toNat).sum ≤ 255 * bytes.length := by
  induction bytes with
  | nil => exact Nat.zero_le _
  | cons b bytes ih =>
    have := b.toNat_lt
    rw [List.map_cons,List.sum_cons,List.length_cons]
    omega

theorem text_field {width : Nat} {bytes : Bytes} (clear : ∀ b ∈ bytes, b ≠ 0) :
    text (field width bytes) = ofLatin bytes := by
  have run : (field width bytes).takeWhile (· != 0) = bytes := by
    rw [field,List.takeWhile_append_of_pos fun b member => bne_iff_ne.mpr (clear b member),
      List.takeWhile_replicate,if_neg (by decide),List.append_nil]
  rw [text,run]

theorem Split.plain_parts {path : String} (split : Split path pre name) :
    ∀ b, b ∈ pre ∨ b ∈ name → b ≠ 0 ∧ b.toNat < 128 := by
  intro b member
  apply split.plain
  rcases split.joined with ⟨empty,same⟩ | ⟨_,same⟩
  · rw [same]
    rcases member with inside | inside
    · rw [empty] at inside; cases inside
    · exact inside
  · rw [same]
    rcases member with inside | inside
    · exact List.mem_append_left _ inside
    · exact List.mem_append_right _ (List.mem_cons_of_mem _ inside)

/-- The path of a sealed header is the path it was sealed for. -/
theorem headerPath_header {path : String} (split : Split path pre name) (full : checksum.length = 8) :
    headerPath (header pre name size checksum) = path := by
  have fits : Fits pre name checksum := ⟨split.short.1,split.short.2,full⟩
  have clear := split.plain_parts
  have whole : ofLatin (asBytes path) = path := ofLatin_asBytes fun b member => (split.plain b member).2
  unfold headerPath
  rw [slice_name fits,slice_front fits,text_field fun b member => (clear b (.inr member)).1,
    text_field fun b member => (clear b (.inl member)).1]
  dsimp only
  rcases split.joined with ⟨rfl,same⟩ | ⟨present,same⟩
  · have empty : ofLatin [] = "" := rfl
    rw [if_pos empty,← same,whole]
  · rw [if_neg,← whole,same,ofLatin_append]
    · show _ = _ ++ ofLatin ([47] ++ name)
      rw [ofLatin_append,String.append_assoc]
      rfl
    · intro empty
      have chars := congrArg String.toList empty
      rw [ofLatin,String.toList_ofList] at chars
      exact present (List.map_eq_nil_iff.mp chars)

end Entorhinal.Archive
