import Entorhinal.Names
import Entorhinal.Traverse
import Entorhinal.Table

/-! The identifiers that package names are bound to. Two names share one only where the digest's
prefix and the beginning of the short form are shared, and a table keeps what it has bound. -/
namespace Entorhinal.Package

section Model

abbrev Bindings := Table String String

structure Binding where
  id : String
  newBinding : Bool
deriving DecidableEq, Repr

structure BindError where
  code : RefusalCode
  id : Option String
  boundTo : Option String
deriving DecidableEq, Repr

def bindName (scheme : Scheme) (table : Bindings) (input : String) : Except BindError Binding :=
  match mapName scheme input with
  | .error _ => .error ⟨.nameInvalid,none,none⟩
  | .ok n =>
    if n.canonical ≠ input then .error ⟨.nameNotCanonical,none,none⟩
    else match table.get? n.id with
      | some bound =>
        if bound ≠ n.canonical then .error ⟨.idBound,some n.id,some bound⟩
        else .ok ⟨n.id,!table.has n.id⟩
      | none => .ok ⟨n.id,!table.has n.id⟩

/-- The tables that accepted calls lead to, each recording what it was given. -/
inductive Reaches (scheme : Scheme) (table : Bindings) : Bindings → Prop
  | start : Reaches scheme table table
  | bind {before : Bindings} {input : String} {binding : Binding} (reached : Reaches scheme table before)
      (accepted : bindName scheme before input = .ok binding) : Reaches scheme table (before.insert binding.id input)

end Model

section Identifiers
variable {scheme : Scheme}

def isNameChar (c : Char) : Bool := c.isLower || c.isDigit || c == '-'

theorem isPart_words {text : List Char} (valid : isPart text = true) :
    ∀ word ∈ text.splitOn '-', word ≠ [] ∧ word.all (fun c => c.isLower || c.isDigit) = true := by
  rw [isPart,Bool.and_eq_true] at valid
  intro word member
  have holds := List.all_eq_true.mp valid.2 word member
  rw [Bool.and_eq_true,Bool.not_eq_true'] at holds
  exact ⟨List.isEmpty_eq_false_iff.mp holds.1,holds.2⟩

theorem isPart_chars {text : List Char} (valid : isPart text = true) : ∀ c ∈ text, isNameChar c = true := by
  intro c member
  rw [isNameChar]
  rcases Utf8.mem_splitOn '-' member with rfl | ⟨word,listed,inside⟩
  · rfl
  · rw [List.all_eq_true.mp (isPart_words valid word listed).2 c inside]
    rfl

/-- The hyphens at the join are the only two in a row. -/
theorem join_inj {scope name scope' name' : List Char} (left : isPart scope = true) (right : isPart name = true)
    (same : scope ++ '-' :: '-' :: name = scope' ++ '-' :: '-' :: name') : scope = scope' ∧ name = name' := by
  have words (a b : List Char) : (a ++ '-' :: '-' :: b).splitOn '-' = a.splitOn '-' ++ [] :: b.splitOn '-' := by
    rw [List.splitOn_append_cons_self]
    exact congrArg (a.splitOn '-' ++ ·) (List.splitOn_append_cons_self [] b)
  have split := congrArg (List.splitOn '-') same
  rw [words,words] at split
  have plain {text : List Char} (valid : isPart text = true) : [] ∉ text.splitOn '-' := fun member =>
    (isPart_words valid [] member).1 rfl
  obtain ⟨scopes,_,names⟩ := (List.append_cons_inj_of_notMem (plain left) (plain right)).mp split
  have whole {a b : List Char} (words : a.splitOn '-' = b.splitOn '-') : a = b := by
    have back : ['-'].intercalate (a.splitOn '-') = a := List.intercalate_splitOn '-'
    have back' : ['-'].intercalate (b.splitOn '-') = b := List.intercalate_splitOn '-'
    rw [← back,words,back']
  exact ⟨whole scopes,whole names⟩

theorem hex_length (bytes : Utf8.Bytes) : (hex bytes).toList.length = bytes.length * 2 := by
  rw [hex,String.toList_ofList]
  induction bytes with
  | nil => rfl
  | cons b bytes ih =>
    rw [List.flatMap_cons,List.length_append,ih,List.length_cons (a := b),Nat.succ_mul,Nat.add_comm]
    rfl

def shortOf (parts : List Char × List Char) : List Char := parts.1 ++ '-' :: '-' :: parts.2

/-- What a name is mapped from. -/
structure Mapped (scheme : Scheme) (mapped : MappedName) (parts : List Char × List Char) : Prop where
  made : mapped = MappedName.of scheme mapped.canonical parts
  chars : mapped.canonical.toList = '@' :: (parts.1 ++ '/' :: parts.2)
  scope_part : isPart parts.1 = true
  name_part : isPart parts.2 = true

theorem mapName_mapped {input : String} {mapped : MappedName} (made : mapName scheme input = .ok mapped) :
    ∃ parts, Mapped scheme mapped parts ∧ splitName mapped.canonical.toList = .ok parts ∧
      mapped.canonical = Utf8.asciiLower input := by
  obtain ⟨⟨scope,name⟩,parts,rfl⟩ := map_ok made
  refine ⟨(scope,name),?_,parts,rfl⟩
  unfold splitName at parts
  split at parts
  next rest chars =>
    split at parts
    next => cases parts
    next scope' name' cut =>
      split_ifs at parts with slash left right
      obtain ⟨rfl,rfl⟩ := Prod.mk.inj (Except.ok.inj parts)
      rw [Bool.or_eq_true,not_or,Bool.not_eq_true,Bool.not_eq_false'] at left right
      exact ⟨rfl,chars.trans (congrArg ('@' :: ·) (Semver.splitOnce_eq cut)),left.1,right.1⟩
  next => cases parts

theorem Mapped.short_eq {m : MappedName} {parts : List Char × List Char} (mapped : Mapped scheme m parts) :
    m.short = String.ofList (shortOf parts) ∧ m.sha256 = scheme.sha256Hex (Utf8.asBytes m.canonical) :=
  ⟨congrArg MappedName.short mapped.made,congrArg MappedName.sha256 mapped.made⟩

/-- The short form itself up to its bound, the beginning of it and of the digest past that. -/
theorem Mapped.id_cases {m : MappedName} {parts : List Char × List Char} (mapped : Mapped scheme m parts) :
    (m.form = .short ∧ (shortOf parts).length ≤ basalIdMax ∧ m.id.toList = shortOf parts) ∨
    (m.form = .hashed ∧ basalIdMax < (shortOf parts).length ∧
      m.id.toList = m.short.toList.take 29 ++ '_' :: m.sha256.toList.take 16) := by
  have id_ := congrArg MappedName.id mapped.made
  have form := congrArg MappedName.form mapped.made
  obtain ⟨short,digest⟩ := mapped.short_eq
  rw [short,digest,id_,form]
  by_cases long : basalIdMax < (shortOf parts).length
  · have hashed : decide (basalIdMax < (shortOf parts).length) = true := decide_eq_true long
    refine .inr ⟨?_,long,?_⟩
    · show (if decide (basalIdMax < (shortOf parts).length) = true then IdForm.hashed else .short) = .hashed
      exact if_pos hashed
    · show (if decide (basalIdMax < (shortOf parts).length) = true then _ else _ : String).toList = _
      rw [if_pos hashed,String.toList_ofList,String.toList_ofList]
      rfl
  · have plain : ¬ decide (basalIdMax < (shortOf parts).length) = true := fun wrong => long (of_decide_eq_true wrong)
    refine .inl ⟨?_,not_lt.mp long,?_⟩
    · show (if decide (basalIdMax < (shortOf parts).length) = true then IdForm.hashed else .short) = .short
      exact if_neg plain
    · show (if decide (basalIdMax < (shortOf parts).length) = true then _ else _ : String).toList = _
      rw [if_neg plain,String.toList_ofList]
      rfl

theorem Mapped.short_chars {m : MappedName} {parts : List Char × List Char} (mapped : Mapped scheme m parts) :
    ∀ c ∈ shortOf parts, isNameChar c = true := by
  intro c member
  rcases List.mem_append.mp member with left | rest
  · exact isPart_chars mapped.scope_part c left
  · rcases List.mem_cons.mp rest with rfl | rest
    · rfl
    rcases List.mem_cons.mp rest with rfl | right
    · rfl
    · exact isPart_chars mapped.name_part c right

theorem Mapped.digest_length {m : MappedName} {parts : List Char × List Char} (mapped : Mapped scheme m parts) :
    (m.sha256.toList.take 16).length = 16 := by
  rw [mapped.short_eq.2,List.length_take,Scheme.sha256Hex,hex_length,scheme.sha256_length]
  rfl

/-- Two names under one identifier are one name, or their digests begin alike. -/
structure Collides (m m' : MappedName) : Prop where
  hashed : m.form = .hashed
  hashed' : m'.form = .hashed
  digest : m.sha256.toList.take 16 = m'.sha256.toList.take 16
  short : m.short.toList.take 29 = m'.short.toList.take 29

theorem Mapped.canonical_eq {m m' : MappedName} {parts parts' : List Char × List Char} (mapped : Mapped scheme m parts)
    (mapped' : Mapped scheme m' parts') (same : shortOf parts = shortOf parts') : m.canonical = m'.canonical := by
  obtain ⟨scopes,names⟩ := join_inj mapped.scope_part mapped.name_part same
  exact String.toList_inj.mp (by rw [mapped.chars,mapped'.chars,scopes,names])

theorem Mapped.form_apart {m m' : MappedName} {parts parts' : List Char × List Char} (mapped : Mapped scheme m parts)
    (mapped' : Mapped scheme m' parts') (short : m.form = .short) (hashed : m'.form = .hashed) : m.id ≠ m'.id := by
  intro same
  rcases mapped.id_cases with ⟨_,_,id_⟩ | ⟨wrong,_⟩
  · rcases mapped'.id_cases with ⟨wrong,_⟩ | ⟨_,_,id'⟩
    · cases wrong.symm.trans hashed
    · have underscore : '_' ∈ shortOf parts := by
        rw [← id_,same,id']
        exact List.mem_append_right _ List.mem_cons_self
      exact absurd (mapped.short_chars _ underscore) (by decide)
  · cases wrong.symm.trans short

theorem Mapped.collides {m m' : MappedName} {parts parts' : List Char × List Char} (mapped : Mapped scheme m parts)
    (mapped' : Mapped scheme m' parts') (same : m.id = m'.id) : m.canonical = m'.canonical ∨ Collides m m' := by
  rcases mapped.id_cases with ⟨short,_,id_⟩ | ⟨hashed,long,id_⟩
  · rcases mapped'.id_cases with ⟨_,_,id'⟩ | ⟨hashed',_⟩
    · exact .inl (mapped.canonical_eq mapped' (id_.symm.trans ((congrArg String.toList same).trans id')))
    · exact absurd same (mapped.form_apart mapped' short hashed')
  · rcases mapped'.id_cases with ⟨short',_⟩ | ⟨hashed',long',id'⟩
    · exact absurd same.symm (mapped'.form_apart mapped short' hashed)
    · rw [mapped.short_eq.1,String.toList_ofList] at id_
      rw [mapped'.short_eq.1,String.toList_ofList] at id'
      have ids := id_.symm.trans ((congrArg String.toList same).trans id')
      have lengths : ((shortOf parts).take 29).length = ((shortOf parts').take 29).length := by
        unfold basalIdMax at long long'
        rw [List.length_take,List.length_take]
        omega
      obtain ⟨shorts,digests⟩ := List.append_inj ids lengths
      refine .inr ⟨hashed,hashed',(List.cons.inj digests).2,?_⟩
      rw [mapped.short_eq.1,mapped'.short_eq.1,String.toList_ofList,String.toList_ofList,shorts]

theorem Collides.same_id {m m' : MappedName} {parts parts' : List Char × List Char} (collide : Collides m m')
    (mapped : Mapped scheme m parts) (mapped' : Mapped scheme m' parts') : m.id = m'.id := by
  rcases mapped.id_cases with ⟨short,_⟩ | ⟨_,_,id_⟩
  · cases short.symm.trans collide.hashed
  · rcases mapped'.id_cases with ⟨short',_⟩ | ⟨_,_,id'⟩
    · cases short'.symm.trans collide.hashed'
    · exact String.toList_inj.mp (by rw [id_,id',collide.short,collide.digest])

theorem toLower_toLower (c : Char) : c.toLower.toLower = c.toLower := by
  have lower : ¬ (c.toLower.val ≥ 'A'.val ∧ c.toLower.val ≤ 'Z'.val) := by
    by_cases upper : c.val ≥ 'A'.val ∧ c.val ≤ 'Z'.val
    · have shifted : c.toLower.val = c.val + ('a'.val - 'A'.val) := congrArg Char.val (dif_pos upper)
      have low := UInt32.le_iff_toNat_le.mp upper.1
      have high := UInt32.le_iff_toNat_le.mp upper.2
      rintro ⟨_,wrong⟩
      have wrong := UInt32.le_iff_toNat_le.mp wrong
      have ends : 'A'.val.toNat = 65 ∧ 'Z'.val.toNat = 90 ∧ ('a'.val - 'A'.val).toNat = 32 := by decide
      rw [shifted,UInt32.toNat_add] at wrong
      omega
    · have kept : c.toLower = c := dif_neg upper
      rw [kept]
      exact upper
  exact dif_neg lower

theorem asciiLower_twice (text : String) : Utf8.asciiLower (Utf8.asciiLower text) = Utf8.asciiLower text := by
  unfold Utf8.asciiLower
  rw [String.toList_ofList,List.map_map]
  exact congrArg String.ofList (List.map_congr_left fun c _ => toLower_toLower c)

theorem mapName_fixed {input : String} {m : MappedName} (made : mapName scheme input = .ok m) :
    mapName scheme m.canonical = .ok m := by
  obtain ⟨parts,mapped,split,lowered⟩ := mapName_mapped made
  have fixed : Utf8.asciiLower m.canonical = m.canonical := by
    rw [lowered,asciiLower_twice]
  unfold mapName
  rw [fixed,split]
  exact congrArg Except.ok mapped.made.symm

theorem ascii_length {chars : List Char} (ascii : ∀ c ∈ chars, c.toNat < 128) :
    (chars.flatMap String.utf8EncodeChar).length = chars.length := by
  induction chars with
  | nil => rfl
  | cons c chars ih =>
    obtain ⟨first,rest⟩ := List.forall_mem_cons.mp ascii
    have one : (String.utf8EncodeChar c).length = 1 := by
      rw [String.length_utf8EncodeChar,Char.utf8Size_eq_one_iff]
      exact Nat.le_of_lt_succ first
    rw [List.flatMap_cons,List.length_append,one,ih rest,List.length_cons,Nat.add_comm]

theorem nameChar_ascii {c : Char} (valid : isNameChar c = true) : c.toNat < 128 := by
  rw [isNameChar,Bool.or_eq_true,Bool.or_eq_true,beq_iff_eq] at valid
  rcases valid with (lower | digit) | rfl
  · have below := (Utf8.lower_iff.mp lower).2
    omega
  · have below := (Char.isDigit_iff_toNat.mp digit).2
    have nine : '9'.toNat = 57 := rfl
    omega
  · decide

theorem hex_ascii (bytes : Utf8.Bytes) : ∀ c ∈ (hex bytes).toList, c.toNat < 128 := by
  have digits : ∀ d < 16, (Nat.digitChar d).toNat < 128 := by decide
  rw [hex,String.toList_ofList]
  intro c member
  obtain ⟨b,_,inside⟩ := List.mem_flatMap.mp member
  have small := b.toNat_lt
  rcases List.mem_cons.mp inside with rfl | inside
  · exact digits _ (by omega)
  · obtain rfl := List.mem_singleton.mp inside
    exact digits _ (by omega)

theorem Mapped.id_ascii {m : MappedName} {parts : List Char × List Char} (mapped : Mapped scheme m parts) :
    m.id.toList.length ≤ basalIdMax ∧ ∀ c ∈ m.id.toList, c.toNat < 128 := by
  have short := mapped.short_chars
  rcases mapped.id_cases with ⟨_,room,id_⟩ | ⟨_,long,id_⟩
  · rw [id_]
    exact ⟨room,fun c member => nameChar_ascii (short c member)⟩
  · rw [id_,List.length_append,List.length_cons,mapped.digest_length,List.length_take]
    refine ⟨by unfold basalIdMax; omega,fun c member => ?_⟩
    rcases List.mem_append.mp member with left | rest
    · rw [mapped.short_eq.1,String.toList_ofList] at left
      exact nameChar_ascii (short c (List.mem_of_mem_take left))
    · rcases List.mem_cons.mp rest with rfl | digest
      · decide
      · rw [mapped.short_eq.2] at digest
        exact hex_ascii _ c (List.mem_of_mem_take digest)

theorem Mapped.id_bytes {m : MappedName} {parts : List Char × List Char} (mapped : Mapped scheme m parts) :
    (Utf8.asBytes m.id).length ≤ basalIdMax := by
  obtain ⟨room,ascii⟩ := mapped.id_ascii
  rw [Utf8.asBytes,ascii_length ascii]
  exact room

end Identifiers

section Runs
variable {scheme : Scheme} {table : Bindings}

theorem bindName_ok {input : String} {binding : Binding} (accepted : bindName scheme table input = .ok binding) :
    ∃ n, mapName scheme input = .ok n ∧ n.canonical = input ∧ binding.id = n.id ∧
      ∀ bound, table.get? n.id = some bound → bound = input := by
  unfold bindName at accepted
  split at accepted
  next => cases accepted
  next n mapped =>
    split_ifs at accepted with canonical
    rw [not_not] at canonical
    refine ⟨n,mapped,canonical,?_⟩
    split at accepted
    next bound found =>
      split_ifs at accepted with other
      rw [not_not] at other
      refine ⟨congrArg Binding.id (Except.ok.inj accepted).symm,fun bound' found' => ?_⟩
      rw [← Option.some.inj (found.symm.trans found'),other,canonical]
    next absent =>
      refine ⟨congrArg Binding.id (Except.ok.inj accepted).symm,fun bound found => ?_⟩
      rw [absent] at found
      cases found

/-- Every name is bound under the identifier it is mapped to. -/
def Bound (scheme : Scheme) (table : Bindings) : Prop :=
  ∀ id name, table.get? id = some name → ∃ n, mapName scheme name = .ok n ∧ n.canonical = name ∧ n.id = id

theorem bind_bound {input : String} {binding : Binding} (bound : Bound scheme table)
    (accepted : bindName scheme table input = .ok binding) : Bound scheme (table.insert binding.id input) := by
  obtain ⟨n,mapped,canonical,id_,_⟩ := bindName_ok accepted
  intro id name found
  rw [Table.get?_insert] at found
  split_ifs at found with same
  · obtain rfl := Option.some.inj found
    exact ⟨n,mapped,canonical,id_.symm.trans same.symm⟩
  · exact bound id name found

theorem reaches_bound {later : Bindings} (bound : Bound scheme table) (reached : Reaches scheme table later) : Bound scheme later := by
  induction reached with
  | start => exact bound
  | bind _ accepted ih => exact bind_bound ih accepted

theorem bind_keeps {input : String} {binding : Binding} (accepted : bindName scheme table input = .ok binding)
    {id name : String} (found : table.get? id = some name) : (table.insert binding.id input).get? id = some name := by
  obtain ⟨n,_,_,id_,same⟩ := bindName_ok accepted
  rw [Table.get?_insert]
  split_ifs with here
  · rw [same name (by rw [← id_,← here]; exact found)]
  · exact found

theorem reaches_keeps {later : Bindings} (reached : Reaches scheme table later) {id name : String}
    (found : table.get? id = some name) : later.get? id = some name := by
  induction reached with
  | start => exact found
  | bind _ accepted ih => exact bind_keeps accepted ih

theorem empty_bound : Bound scheme ∅ := fun _ _ found => nomatch found

theorem bindName_idBound {input : String} {e : BindError} :
    (bindName scheme table input = .error e ∧ e.code = .idBound) ↔
      ∃ n bound, mapName scheme input = .ok n ∧ n.canonical = input ∧ table.get? n.id = some bound ∧ bound ≠ input ∧
        e = ⟨.idBound,some n.id,some bound⟩ := by
  constructor
  · rintro ⟨refused,code⟩
    unfold bindName at refused
    split at refused
    next => cases refused; cases code
    next n mapped =>
      split_ifs at refused with canonical
      · cases refused; cases code
      rw [not_not] at canonical
      split at refused
      next bound found =>
        split_ifs at refused with other
        rw [canonical] at other
        exact ⟨n,bound,mapped,canonical,found,other,(Except.error.inj refused).symm⟩
      next => cases refused
  · rintro ⟨n,bound,mapped,canonical,found,other,rfl⟩
    unfold bindName
    rw [mapped]
    dsimp only
    rw [if_neg (not_not.mpr canonical),found]
    dsimp only
    rw [if_pos (by rwa [canonical])]
    exact ⟨rfl,rfl⟩

/-- An identifier is one name's but for a collision of digests; a table keeps each under one name, and refuses
another exactly on such a collision. -/
theorem identifiers_collide (scheme : Scheme) {table : Bindings} (built : Reaches scheme ∅ table) :
    (∀ a b m m', mapName scheme a = .ok m → mapName scheme b = .ok m' →
      (m.id = m'.id → m.canonical = m'.canonical ∨ Collides m m') ∧
      (m.form = .short → m'.form = .hashed → m.id ≠ m'.id) ∧
      mapName scheme m.canonical = .ok m ∧ (Utf8.asBytes m.id).length ≤ 46) ∧
    (∀ id name later, table.get? id = some name → Reaches scheme table later → later.get? id = some name) ∧
    (∀ id name, table.get? id = some name → ∃ m, mapName scheme name = .ok m ∧ m.canonical = name ∧ m.id = id) ∧
    ∀ input, (∃ e, bindName scheme table input = .error e ∧ e.code = .idBound) ↔
      ∃ m other m', mapName scheme input = .ok m ∧ m.canonical = input ∧ mapName scheme other = .ok m' ∧
        m'.canonical = other ∧ table.get? m'.id = some other ∧ other ≠ input ∧ Collides m m' := by
  have bound := reaches_bound empty_bound built
  refine ⟨fun a b m m' made made' => ?_,fun id name later found reached => reaches_keeps reached found,bound,fun input => ?_⟩
  · obtain ⟨parts,mapped,_⟩ := mapName_mapped made
    obtain ⟨parts',mapped',_⟩ := mapName_mapped made'
    exact ⟨mapped.collides mapped',mapped.form_apart mapped',mapName_fixed made,mapped.id_bytes⟩
  · constructor
    · rintro ⟨e,refused⟩
      obtain ⟨m,other,made,canonical,found,different,_⟩ := bindName_idBound.mp refused
      obtain ⟨m',made',canonical',id_⟩ := bound _ _ found
      obtain ⟨parts,mapped,_⟩ := mapName_mapped made
      obtain ⟨parts',mapped',_⟩ := mapName_mapped made'
      refine ⟨m,other,m',made,canonical,made',canonical',id_.symm ▸ found,different,?_⟩
      refine (mapped.collides mapped' id_.symm).resolve_left fun same => different ?_
      rw [← canonical',← same,canonical]
    · rintro ⟨m,other,m',made,canonical,made',_,found,different,collide⟩
      obtain ⟨parts,mapped,_⟩ := mapName_mapped made
      obtain ⟨parts',mapped',_⟩ := mapName_mapped made'
      rw [← collide.same_id mapped mapped'] at found
      exact ⟨_,bindName_idBound.mpr ⟨m,other,made,canonical,found,different,rfl⟩⟩

theorem identifiers_collide_bound : ∃ scheme table, Reaches scheme ∅ table ∧
    ∀ later, Reaches scheme table later → later.get? "a--b" = some "@a/b" := by
  let scheme : Scheme := ⟨fun _ => List.replicate 32 0,fun _ => rfl,fun _ _ _ => true⟩
  have accepted : bindName scheme ∅ "@a/b" = .ok ⟨"a--b",true⟩ := by rfl
  have built := Reaches.bind .start accepted
  exact ⟨scheme,_,built,fun later reached => (identifiers_collide scheme built).2.1 "a--b" "@a/b" later (by rfl) reached⟩

end Runs

end Entorhinal.Package
