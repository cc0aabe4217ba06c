import Entorhinal.Semver

/-! The two spellings of a capability: the token that packages ask for and the name that a manifest
declares. Each is read as an area, a verb that may be left out and a major version, and the spelling is
the one way to write these. -/
namespace Entorhinal.Capability

open Semver (splitOnce)

def capabilityNameMax : Nat := 64

inductive CapabilityError
  | capabilityNotAToken
  | tokenTooLong
deriving DecidableEq, Repr

section Model

def stripPrefix : List Char → List Char → Option (List Char)
  | [], text => some text
  | _ :: _, [] => none
  | b :: before, c :: text => if b = c then stripPrefix before text else none

/-- Splits at the first `/v`. -/
def splitVersion : List Char → Option (List Char × List Char)
  | '/' :: 'v' :: rest => some ([],rest)
  | [] => none
  | c :: rest => (splitVersion rest).map fun parts => (c :: parts.1,parts.2)

def isWordChar (c : Char) : Bool := c.isLower || c.isDigit

def capabilityPart : List Char → Bool
  | [] => false
  | c :: rest => c.isLower && rest.all isWordChar

def capabilityMajor (text : List Char) : Bool :=
  !text.isEmpty && !(text.head? == some '0') && text.all Char.isDigit

def capabilityToken (token : String) : Bool :=
  match stripPrefix ['c','a','p','/'] token.toList with
  | none => false
  | some body => match splitOnce '@' body with
    | none => false
    | some (parts,major) => match parts.splitOn '.' with
      | [] => false
      | area :: rest =>
        capabilityPart area && rest.head?.all capabilityPart && (rest.drop 1).isEmpty && capabilityMajor major

def capabilityToManifest (token : String) : Except CapabilityError String :=
  if capabilityToken token = false then .error .capabilityNotAToken
  else match stripPrefix ['c','a','p','/'] token.toList with
    | none => .error .capabilityNotAToken
    | some body => match splitOnce '@' body with
      | none => .error .capabilityNotAToken
      | some (identifier,version) =>
        let name := match splitOnce '.' identifier with
          | some (area,verb) => ['c','a','p','-'] ++ area ++ '-' :: verb
          | none => ['c','a','p','-'] ++ identifier
        -- The characters of a token are ASCII.
        if capabilityNameMax < name.length then .error .tokenTooLong
        else .ok (String.ofList (name ++ '/' :: 'v' :: version))

/-- The token that the parts of a manifest's name spell. -/
def tokenOf (area : List Char) (verb : Option (List Char)) (version : List Char) : String :=
  match verb with
  | some verb => String.ofList (['c','a','p','/'] ++ area ++ '.' :: verb ++ '@' :: version)
  | none => String.ofList (['c','a','p','/'] ++ area ++ '@' :: version)

def manifestToCapability (manifest : String) : Except CapabilityError String :=
  match splitVersion manifest.toList with
  | none => .error .capabilityNotAToken
  | some (name,version) => match stripPrefix ['c','a','p','-'] name with
    | none => .error .capabilityNotAToken
    | some body => match body.splitOn '-' with
      | [] => .error .capabilityNotAToken
      | area :: rest =>
        let verb := rest.head?
        if !(rest.drop 1).isEmpty || !capabilityPart area || verb.any (fun part => !capabilityPart part) ||
            !capabilityMajor version then .error .capabilityNotAToken
        else if capabilityNameMax < name.length then .error .tokenTooLong
        else if (capabilityToManifest (tokenOf area verb version)).toOption ≠ some manifest then .error .capabilityNotAToken
        else .ok (tokenOf area verb version)

end Model

section Spelling

theorem stripPrefix_eq {before text rest : List Char} (strip : stripPrefix before text = some rest) : text = before ++ rest := by
  induction before generalizing text with
  | nil => exact Option.some.inj strip
  | cons b before ih =>
    cases text with
    | nil => cases strip
    | cons c text =>
      rw [stripPrefix] at strip
      split_ifs at strip with same
      rw [same,ih strip]
      rfl

theorem stripPrefix_append (before rest : List Char) : stripPrefix before (before ++ rest) = some rest := by
  induction before with
  | nil => rfl
  | cons b before ih => rw [List.cons_append,stripPrefix,if_pos rfl,ih]

theorem splitVersion_eq {text before after : List Char} (split : splitVersion text = some (before,after)) :
    text = before ++ '/' :: 'v' :: after := by
  induction text using splitVersion.induct generalizing before with
  | case1 rest =>
    rw [splitVersion] at split
    cases split
    rfl
  | case2 => cases split
  | case3 c rest other ih =>
    rw [splitVersion.eq_3 _ _ other] at split
    obtain ⟨⟨front,back⟩,found,same⟩ := Option.map_eq_some_iff.mp split
    obtain ⟨rfl,rfl⟩ := Prod.mk.inj same
    rw [ih found]
    rfl

theorem splitVersion_append {before : List Char} (plain : '/' ∉ before) (after : List Char) :
    splitVersion (before ++ '/' :: 'v' :: after) = some (before,after) := by
  induction before with
  | nil => rfl
  | cons c before ih =>
    obtain ⟨other,plain⟩ := not_or.mp (mt List.mem_cons.mpr plain)
    rw [List.cons_append,splitVersion.eq_3 _ _ fun _ same => absurd same fun wrong => other wrong.symm,ih plain]
    rfl

/-- What both spellings say. -/
structure Parts where
  area : List Char
  verb : Option (List Char)
  major : List Char
  area_part : capabilityPart area = true
  verb_part : ∀ part, verb = some part → capabilityPart part = true
  major_plain : capabilityMajor major = true

def Parts.token (c : Parts) : String := tokenOf c.area c.verb c.major

/-- The area and the verb with a separator between them. -/
def joined (separator : Char) (area : List Char) : Option (List Char) → List Char
  | some verb => area ++ separator :: verb
  | none => area

def Parts.name (c : Parts) : List Char := ['c','a','p','-'] ++ joined '-' c.area c.verb

def Parts.manifest (c : Parts) : String := String.ofList (c.name ++ '/' :: 'v' :: c.major)

theorem part_not_mem {part : List Char} {c : Char} (valid : capabilityPart part = true) (other : isWordChar c = false) : c ∉ part := by
  cases part with
  | nil => exact List.not_mem_nil
  | cons first rest =>
    rw [capabilityPart,Bool.and_eq_true] at valid
    obtain ⟨lower,words⟩ := valid
    have first_ : isWordChar first = true := by rw [isWordChar,lower,Bool.true_or]
    intro member
    have word : isWordChar c = true := by
      rcases List.mem_cons.mp member with rfl | later
      · exact first_
      · exact List.all_eq_true.mp words c later
    rw [other] at word
    cases word

theorem joined_whole {separator : Char} {text area : List Char} {rest : List (List Char)}
    (split : text.splitOn separator = area :: rest) (last : (rest.drop 1).isEmpty = true) :
    joined separator area rest.head? = text := by
  have whole : [separator].intercalate (text.splitOn separator) = text := List.intercalate_splitOn separator
  rw [split] at whole
  rw [← whole]
  match rest,last with
  | [],_ => exact (List.append_nil area).symm
  | [verb],_ => exact congrArg (fun verb => area ++ separator :: verb) (List.append_nil verb).symm

theorem Parts.joined_not_mem (c : Parts) {separator s : Char} (word : isWordChar s = false) (other : s ≠ separator) :
    s ∉ joined separator c.area c.verb := by
  have area := part_not_mem c.area_part word
  cases is : c.verb with
  | none => exact area
  | some verb =>
    intro member
    rcases List.mem_append.mp member with first | rest
    · exact area first
    · rcases List.mem_cons.mp rest with rfl | last
      · exact other rfl
      · exact part_not_mem (c.verb_part _ is) word last

theorem Parts.joined_split (c : Parts) {separator : Char} (word : isWordChar separator = false) :
    (joined separator c.area c.verb).splitOn separator = c.area :: c.verb.toList := by
  have area := part_not_mem c.area_part word
  cases is : c.verb with
  | none => exact List.splitOn_eq_singleton area
  | some verb =>
    rw [joined,List.splitOn_append_cons_self_of_not_mem area,List.splitOn_eq_singleton (part_not_mem (c.verb_part _ is) word)]
    rfl

theorem Parts.token_chars (c : Parts) : c.token.toList = ['c','a','p','/'] ++ (joined '.' c.area c.verb ++ '@' :: c.major) := by
  obtain ⟨area,verb,major,_,_,_⟩ := c
  cases verb with
  | none => exact String.toList_ofList
  | some verb =>
    refine String.toList_ofList.trans ?_
    simp only [joined,List.append_assoc,List.cons_append]

/-- The tokens are the spellings of parts. -/
theorem capabilityToken_iff {token : String} : capabilityToken token = true ↔ ∃ c : Parts, c.token = token := by
  constructor
  · intro valid
    unfold capabilityToken at valid
    split at valid
    next => cases valid
    next body strip =>
      split at valid
      next => cases valid
      next parts major cut =>
        split at valid
        next => cases valid
        next area rest split =>
          simp only [Bool.and_eq_true] at valid
          obtain ⟨⟨⟨area_,verb_⟩,last⟩,major_⟩ := valid
          have verb_part : ∀ part, rest.head? = some part → capabilityPart part = true := fun part is => by
            rw [is] at verb_
            exact verb_
          refine ⟨⟨area,rest.head?,major,area_,verb_part,major_⟩,String.toList_inj.mp ?_⟩
          rw [Parts.token_chars,stripPrefix_eq strip,Semver.splitOnce_eq cut,joined_whole split last]
  · rintro ⟨c,rfl⟩
    unfold capabilityToken
    rw [c.token_chars,stripPrefix_append]
    dsimp only
    rw [Semver.splitOnce_plain (c.joined_not_mem (by decide) (by decide))]
    dsimp only
    rw [c.joined_split (by decide)]
    simp only [c.area_part,c.major_plain,Bool.true_and,Bool.and_true,Bool.and_eq_true]
    cases is : c.verb with
    | none => exact ⟨rfl,rfl⟩
    | some verb => exact ⟨c.verb_part verb is,rfl⟩

theorem toManifest_token (c : Parts) : capabilityToManifest c.token =
    if capabilityNameMax < c.name.length then .error .tokenTooLong else .ok c.manifest := by
  have valid : capabilityToken c.token = true := capabilityToken_iff.mpr ⟨c,rfl⟩
  have name : (match splitOnce '.' (joined '.' c.area c.verb) with
      | some (area,verb) => ['c','a','p','-'] ++ area ++ '-' :: verb
      | none => ['c','a','p','-'] ++ joined '.' c.area c.verb) = c.name := by
    have area := part_not_mem c.area_part (c := '.') (by decide)
    unfold Parts.name
    cases c.verb with
    | none =>
      rw [joined,Semver.splitOnce_none area]
      rfl
    | some verb =>
      rw [joined,Semver.splitOnce_plain area]
      rfl
  unfold capabilityToManifest
  rw [if_neg (by rw [valid]; exact Bool.false_ne_true.symm),c.token_chars,stripPrefix_append]
  dsimp only
  rw [Semver.splitOnce_plain (c.joined_not_mem (by decide) (by decide))]
  dsimp only
  rw [name]
  rfl

theorem toManifest_other {token : String} (other : ¬ ∃ c : Parts, c.token = token) :
    capabilityToManifest token = .error .capabilityNotAToken :=
  if_pos (Bool.eq_false_iff.mpr fun valid => other (capabilityToken_iff.mp valid))

theorem Parts.name_not_mem (c : Parts) : '/' ∉ c.name := by
  intro member
  rcases List.mem_append.mp member with front | rest
  · exact absurd front (by decide)
  · exact c.joined_not_mem (by decide) (by decide) rest

theorem Parts.verb_head (c : Parts) : c.verb.toList.head? = c.verb := by
  cases c.verb <;> rfl

theorem Parts.accepted (c : Parts) : (!(c.verb.toList.drop 1).isEmpty || !capabilityPart c.area ||
    c.verb.any (fun part => !capabilityPart part) || !capabilityMajor c.major) = false := by
  rw [c.area_part,c.major_plain]
  cases is : c.verb with
  | none => rfl
  | some verb =>
    rw [Option.any_some,c.verb_part verb is]
    rfl

theorem toCapability_manifest (c : Parts) : manifestToCapability c.manifest =
    if capabilityNameMax < c.name.length then .error .tokenTooLong else .ok c.token := by
  have back := toManifest_token c
  unfold manifestToCapability
  rw [Parts.manifest,String.toList_ofList,splitVersion_append c.name_not_mem]
  dsimp only
  rw [Parts.name,stripPrefix_append]
  dsimp only
  rw [c.joined_split (by decide)]
  dsimp only
  rw [c.verb_head,c.accepted,if_neg Bool.false_ne_true]
  refine ite_congr rfl (fun _ => rfl) fun short => ?_
  rw [Parts.name,if_neg short] at back
  change capabilityToManifest (tokenOf c.area c.verb c.major) = _ at back
  rw [back]
  exact if_neg (not_not.mpr rfl)

theorem toCapability_other {manifest : String} (other : ¬ ∃ c : Parts, c.manifest = manifest) :
    manifestToCapability manifest = .error .capabilityNotAToken := by
  unfold manifestToCapability
  split
  next => rfl
  next name version cut =>
    split
    next => rfl
    next body strip =>
      split
      next => rfl
      next area rest split =>
        refine if_pos (Bool.not_eq_false _ ▸ fun accepted => other ?_)
        simp only [Bool.or_eq_false_iff,Bool.not_eq_false'] at accepted
        obtain ⟨⟨⟨last,area_⟩,verb_⟩,major_⟩ := accepted
        have verb_part : ∀ part, rest.head? = some part → capabilityPart part = true := fun part is => by
          rw [is,Option.any_some,Bool.not_eq_false'] at verb_
          exact verb_
        refine ⟨⟨area,rest.head?,version,area_,verb_part,major_⟩,String.toList_inj.mp ?_⟩
        rw [Parts.manifest,String.toList_ofList,Parts.name,joined_whole split last,splitVersion_eq cut,stripPrefix_eq strip]

theorem refused_iff {p : Prop} [Decidable p] {e : CapabilityError} {text : String} :
    (if p then .error e else .ok text : Except CapabilityError String) = .error e ↔ p := by
  split_ifs with holds
  · exact iff_of_true rfl holds
  · exact iff_of_false nofun holds

theorem returned_iff {p : Prop} [Decidable p] {e : CapabilityError} {text result : String} :
    (if p then .error e else .ok text : Except CapabilityError String) = .ok result ↔ ¬ p ∧ text = result := by
  split_ifs with holds
  · exact iff_of_false nofun fun wrong => wrong.1 holds
  · exact ⟨fun same => ⟨holds,Except.ok.inj same⟩,fun same => congrArg Except.ok same.2⟩

/-- The two spellings of a capability are read into each other and back, and a name too long for one is too
long for the other. -/
theorem spellings_inverse (t m : String) :
    (capabilityToManifest t = .ok m → manifestToCapability m = .ok t) ∧
    (manifestToCapability m = .ok t → capabilityToken t = true ∧ capabilityToManifest t = .ok m) ∧
    (capabilityToManifest t = .error .tokenTooLong ↔
      ∃ c : Parts, c.token = t ∧ manifestToCapability c.manifest = .error .tokenTooLong) ∧
    (manifestToCapability m = .error .tokenTooLong ↔
      ∃ c : Parts, c.manifest = m ∧ capabilityToManifest c.token = .error .tokenTooLong) := by
  have token {r : Except CapabilityError String} (is : capabilityToManifest t = r) (accepted : r ≠ .error .capabilityNotAToken) :
      ∃ c : Parts, c.token = t := by
    by_contra other
    exact accepted (is.symm.trans (toManifest_other other))
  have manifest {r : Except CapabilityError String} (is : manifestToCapability m = r) (accepted : r ≠ .error .capabilityNotAToken) :
      ∃ c : Parts, c.manifest = m := by
    by_contra other
    exact accepted (is.symm.trans (toCapability_other other))
  refine ⟨fun is => ?_,fun is => ?_,⟨fun is => ?_,?_⟩,⟨fun is => ?_,?_⟩⟩
  · obtain ⟨c,rfl⟩ := token is nofun
    obtain ⟨short,rfl⟩ := returned_iff.mp ((toManifest_token c).symm.trans is)
    exact (toCapability_manifest c).trans (if_neg short)
  · obtain ⟨c,rfl⟩ := manifest is nofun
    obtain ⟨short,rfl⟩ := returned_iff.mp ((toCapability_manifest c).symm.trans is)
    exact ⟨capabilityToken_iff.mpr ⟨c,rfl⟩,(toManifest_token c).trans (if_neg short)⟩
  · obtain ⟨c,rfl⟩ := token is nofun
    have long := refused_iff.mp ((toManifest_token c).symm.trans is)
    exact ⟨c,rfl,(toCapability_manifest c).trans (if_pos long)⟩
  · rintro ⟨c,rfl,is⟩
    have long := refused_iff.mp ((toCapability_manifest c).symm.trans is)
    exact (toManifest_token c).trans (if_pos long)
  · obtain ⟨c,rfl⟩ := manifest is nofun
    have long := refused_iff.mp ((toCapability_manifest c).symm.trans is)
    exact ⟨c,rfl,(toManifest_token c).trans (if_pos long)⟩
  · rintro ⟨c,rfl,is⟩
    have long := refused_iff.mp ((toManifest_token c).symm.trans is)
    exact (toCapability_manifest c).trans (if_pos long)

end Spelling

end Entorhinal.Capability
