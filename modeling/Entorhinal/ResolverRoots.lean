import Entorhinal.ResolverLaw

/-! Several roots are resolved as the requirements of one artificial package: those of
the subjects as asked, and everything that the other roots reach at its pin. -/
namespace Entorhinal.Resolver

open Package Semver

/-- The packages that the pinned version of a package requires, as far as pinned. -/
def pinnedRequires (registry : Registry) (pins : Table String String) (pkg : String) : List String :=
  match (pins.get? pkg).bind fun version =>
      (registry.get? pkg).bind (List.find? fun rv => rv.version == version) with
  | some pinned => pinned.requires.packages.keys.filter pins.has
  | none => []

def pinnedGraph (registry : Registry) (pins : Table String String) : Search.Graph String where
  nodes := pins.keys
  next := pinnedRequires registry pins
  listed pkg some := by
    unfold pinnedRequires at some
    split at some
    next pinned found =>
      obtain ⟨version,pin,_⟩ := Option.bind_eq_some_iff.mp found
      exact Table.mem_keys.mpr (Table.has_iff.mpr ⟨version,pin⟩)
    next => exact absurd rfl some

def exactly (version : String) : String := "=" ++ version

def rootRange (subjects : List String) (pins : Table String String) (root : String × String) :
    Except ResolveError (String × String) :=
  if root.1 ∈ subjects then .ok root
  else match pins.get? root.1 with
    | some version => .ok (root.1,exactly version)
    | none => .error (.packageNotFound root.1)

def checkSubject (roots : Table String String) (subject : String) : Except ResolveError Unit :=
  if roots.has subject then .ok () else .error (.packageNotFound subject)

/-- What the roots that are no subjects reach over the pinned versions. -/
def nonSubjectReachable (registry : Registry) (roots : Table String String) (subjects : List String)
    (pins : Table String String) : List String :=
  (pinnedGraph registry pins).reached [] (roots.keys.filter (· ∉ subjects))

def syntheticRootRanges (registry : Registry) (roots : Table String String) (subjectRoots : List String)
    (pins : Table String String) : Except ResolveError (Table String String) := do
  let subjects := (Table.insertAll ∅ (subjectRoots.map (·,())) : Table String Unit).keys
  subjects.forM (checkSubject roots)
  let reachable := nonSubjectReachable registry roots subjects pins
  let free := pins.keys.filter fun pkg => !roots.has pkg && pkg ∉ reachable
  let ranges ← roots.rows.mapM (rootRange subjects pins)
  let fixed := (pins.rows.filter fun x => x.1 ∉ subjects ++ free).map fun x => (x.1,exactly x.2)
  return (Table.insertAll ∅ ranges).insertAll fixed

/-- No name of a package, which has no NUL. -/
def synthetic : String := "\x00catalog-roots"

def syntheticVersion (ranges : Table String String) : RegistryVersion :=
  ⟨"0.0.0",.skill,.available,⟨[],ranges⟩,[]⟩

/-- The requirements of the artificial package are the roots' own. -/
def attributeRange (asked : AskedRange) : AskedRange :=
  if asked.requestedBy = requester synthetic "0.0.0" then { asked with requestedBy := "(root)" } else asked

def attributeError : ResolveError → ResolveError
  | .rangeConflict package ranges => .rangeConflict package (ranges.map attributeRange)
  | .noMatchingVersion package ranges => .noMatchingVersion package (ranges.map attributeRange)
  | .rangeInvalid package range requestedBy => .rangeInvalid package range
      (if requestedBy = requester synthetic "0.0.0" then "(root)" else requestedBy)
  | e => e

/-- The range that a pinned version does not fit, other than its own pin. -/
def conflictWith (version : String) (pinned : Version) (asked : List AskedRange) : Option AskedRange :=
  asked.find? fun a => !(a.requestedBy == "(root)" && a.range == exactly version) &&
    (Range.parse a.range).any fun range => !range.satisfies pinned

/-- A conflict with an exact pin names the pin. -/
def pinConflict (pins ranges : Table String String) (e : ResolveError) (package : String)
    (asked : List AskedRange) : ResolveError :=
  match pins.get? package with
  | none => e
  | some version =>
    if ranges.get? package ≠ some (exactly version) then e
    else match Version.parse version with
      | none => e
      | some pinned => match conflictWith version pinned asked with
        | none => e
        | some conflict => .pinConflict package version conflict.range conflict.requestedBy

def refineError (pins ranges : Table String String) (e : ResolveError) : ResolveError :=
  match attributeError e with
  | .rangeConflict package asked => pinConflict pins ranges (.rangeConflict package asked) package asked
  | .noMatchingVersion package asked => pinConflict pins ranges (.noMatchingVersion package asked) package asked
  | e => e

def resolveRoots (registry : Registry) (roots : Table String String) (subjectRoots : List String)
    (pins : Table String String) (caps : List String) : Except ResolveError Resolution := do
  let ranges ← syntheticRootRanges registry roots subjectRoots pins
  match resolve (registry.insert synthetic [syntheticVersion ranges]) ⟨synthetic,"*"⟩ caps (some pins) with
  | .ok result => return ⟨result.picks.erase synthetic,result.moves.map (·.erase synthetic)⟩
  | .error e => .error (refineError pins ranges e)

theorem splitBars_single {chars : List Char} (clear : '|' ∉ chars) : splitBars chars = [chars] := by
  fun_induction splitBars chars with
  | case1 => rfl
  | case2 rest ih => exact absurd List.mem_cons_self clear
  | case3 c rest bars ih =>
    rw [ih fun later => clear (List.mem_cons_of_mem _ later)]
    rfl

theorem isVersionChar_bounds {c : Char} (valid : isVersionChar c = true) : 45 ≤ c.toNat ∧ c.toNat ≤ 122 := by
  rw [isVersionChar,Bool.or_eq_true,Bool.or_eq_true,Bool.or_eq_true,beq_iff_eq,beq_iff_eq] at valid
  rcases valid with ((digit | letter) | rfl) | rfl
  · obtain ⟨low,high⟩ := Char.isDigit_iff_toNat.mp digit
    exact ⟨Nat.le_trans (by decide) low,Nat.le_trans high (by decide)⟩
  · have bounds := Utf8.alphanum_iff.mp letter
    omega
  · decide
  · decide

theorem isVersionChar_plain {c : Char} (valid : isVersionChar c = true) :
    c ≠ '|' ∧ isWhitespace c = false ∧ c ≠ '*' := by
  obtain ⟨low,high⟩ := isVersionChar_bounds valid
  refine ⟨?_,?_,?_⟩
  · rintro rfl
    revert high
    decide
  · unfold isWhitespace
    dsimp only
    simp only [List.contains_cons,List.contains_nil,Bool.or_eq_false_iff,Bool.and_eq_false_iff,
      decide_eq_false_iff_not,beq_eq_false_iff_ne,and_true]
    omega
  · rintro rfl
    revert low
    decide

theorem splitWhitespace_single {chars : List Char} (clear : ∀ c ∈ chars, isWhitespace c = false)
    (some : chars ≠ []) : splitWhitespace chars = [chars] := by
  rw [splitWhitespace,List.splitOnP_eq_singleton clear]
  cases chars with
  | nil => exact absurd rfl some
  | cons c chars => rfl

/-- A version preceded by an equals sign is the range of that version alone. -/
theorem parse_exactly {text : String} {version : Version} (parse : Version.parse text = some version) :
    Range.parse (exactly text) = some [[{ interval none true none false with exact := some version }]] := by
  unfold Version.parse at parse
  split at parse
  next parsed =>
    cases parse
    have chars : (exactly text).toList = '=' :: text.toList := by
      rw [exactly,String.toList_append]
      rfl
    have plain := parsePartial_chars parsed
    have bars : '|' ∉ '=' :: text.toList := by
      intro member
      rcases List.mem_cons.mp member with same | inside
      · cases same
      · exact (isVersionChar_plain (plain _ inside)).1 rfl
    have solid : ∀ c ∈ '=' :: text.toList, isWhitespace c = false := by
      intro c member
      rcases List.mem_cons.mp member with rfl | inside
      · decide
      · exact (isVersionChar_plain (plain _ inside)).2.1
    have compared : comparator ('=' :: text.toList) =
        some { interval none true none false with exact := some version } := by
      rw [comparator,if_neg (by intro same; cases same),operator]
      dsimp only
      rw [parsed]
      dsimp only
      rw [if_neg (fun pre => pre.2.2 rfl),if_pos rfl]
    have set : parseSet ('=' :: text.toList) =
        some [{ interval none true none false with exact := some version }] := by
      rw [parseSet,splitWhitespace_single solid (List.cons_ne_nil _ _)]
      dsimp only
      rw [if_neg (by simp),List.mapM_cons,compared]
      rfl
    rw [Range.parse,chars,splitBars_single bars,List.mapM_cons,set]
    rfl
  next => cases parse

theorem satisfies_exactly {version picked : Version}
    (fits : Range.satisfies [[{ interval none true none false with exact := some version }]] picked = true) :
    picked = version := by
  simp only [Range.satisfies,List.any_cons,List.any_nil,Bool.or_false] at fits
  split at fits
  next pre =>
    obtain ⟨_,same⟩ := Bool.and_eq_true_iff.mp fits
    exact (Option.some.inj (beq_iff_eq.mp same)).symm
  next release =>
    simpa [Bound.admits] using fits

section

variable {registry : Registry} {roots pins : Table String String} {subjectRoots caps : List String}

theorem rootRange_ok {subjects : List String} {root made : String × String}
    (ok : rootRange subjects pins root = .ok made) :
    made.1 = root.1 ∧ (root.1 ∈ subjects → made = root) ∧
      (root.1 ∉ subjects → ∃ version, pins.get? root.1 = some version ∧ made = (root.1,exactly version)) := by
  unfold rootRange at ok
  split at ok
  next subject => cases ok; exact ⟨rfl,fun _ => rfl,fun other => absurd subject other⟩
  next other =>
    split at ok
    next version pinned =>
      cases ok
      exact ⟨rfl,fun subject => absurd subject other,fun _ => ⟨version,pinned,rfl⟩⟩
    next => cases ok

/-- The ranges of the artificial package: the subjects' own, and the exact pin of what
the other roots reach. -/
structure Ranged (registry : Registry) (roots : Table String String) (subjectRoots : List String)
    (pins ranges : Table String String) : Prop where
  subjects : ∀ subject ∈ subjectRoots, ∃ range, roots.get? subject = some range ∧
    ranges.get? subject = some range
  fixed : ∀ pkg version, pins.get? pkg = some version → pkg ∉ subjectRoots →
    roots.has pkg = true ∨ (∃ root, roots.has root = true ∧ root ∉ subjectRoots ∧
      Relation.ReflTransGen (pinnedGraph registry pins).Edge root pkg) →
    ranges.get? pkg = some (exactly version)

theorem syntheticRootRanges_ok {ranges : Table String String}
    (ok : syntheticRootRanges registry roots subjectRoots pins = .ok ranges) :
    Ranged registry roots subjectRoots pins ranges := by
  unfold syntheticRootRanges at ok
  dsimp only at ok
  obtain ⟨_,checked,ok⟩ := bind_ok ok
  obtain ⟨base,made,ok⟩ := bind_ok ok
  generalize named : (Table.insertAll ∅ (subjectRoots.map (·,())) : Table String Unit).keys = subjects at *
  have subject_iff (pkg : String) : pkg ∈ subjects ↔ pkg ∈ subjectRoots := by
    rw [← named,Table.mem_keys,Table.has_insertAll,List.map_map]
    show pkg ∈ subjectRoots.map id ∨ _ ↔ _
    rw [List.map_id]
    exact or_iff_left Bool.false_ne_true
  cases ok
  have keys : base.map Prod.fst = roots.keys :=
    mapM_map Prod.fst Prod.fst (fun _ _ made => (rootRange_ok made).1) made
  have sorted : base.Pairwise fun a b => a.1 < b.1 := by
    have listed := List.pairwise_map.mpr roots.sorted
    rw [show roots.rows.map Prod.fst = roots.keys from rfl,← keys] at listed
    exact List.pairwise_map.mp listed
  have base_nodup : (base.map Prod.fst).Nodup := keys ▸ roots.keys_nodup
  have fixed_keys (free : List String) : (((pins.rows.filter fun x => x.1 ∉ subjects ++ free).map
      fun x => (x.1,exactly x.2)).map Prod.fst).Nodup := by
    rw [List.map_map]
    exact (List.Sublist.map Prod.fst List.filter_sublist).nodup pins.keys_nodup
  constructor
  · intro subject member
    have present := forM_ok checked subject ((subject_iff subject).mpr member)
    unfold checkSubject at present
    split at present
    next has =>
      obtain ⟨range,found⟩ := Table.has_iff.mp has
      refine ⟨range,found,?_⟩
      obtain ⟨row,inside,own⟩ := mapM_item made (subject,range) (Table.mem_rows.mpr found)
      rw [(rootRange_ok own).2.1 ((subject_iff subject).mpr member)] at inside
      rw [Table.get?_insertAll (fixed_keys _),Table.get?_insertAll base_nodup,
        Table.lookup_of_mem sorted inside,Table.lookup_none.mpr]
      · rfl
      · intro fixed
        obtain ⟨x,kept,same⟩ := List.mem_map.mp fixed
        obtain ⟨y,inside,rfl⟩ := List.mem_map.mp kept
        have outside := (List.mem_filter.mp inside).2
        rw [show y.1 = subject from same,decide_eq_true_eq] at outside
        exact outside (List.mem_append_left _ ((subject_iff subject).mpr member))
    next => cases present
  · intro pkg version pinned other related
    rw [Table.get?_insertAll (fixed_keys _)]
    have sorted_fixed (free : List String) : ((pins.rows.filter fun x => x.1 ∉ subjects ++ free).map
        fun x => (x.1,exactly x.2)).Pairwise fun a b => a.1 < b.1 :=
      List.pairwise_map.mpr (pins.sorted.sublist List.filter_sublist)
    rw [Table.lookup_of_mem (sorted_fixed _)]
    · rfl
    · refine List.mem_map.mpr ⟨(pkg,version),List.mem_filter.mpr ⟨Table.mem_rows.mpr pinned,?_⟩,rfl⟩
      rw [decide_eq_true_eq,List.mem_append,subject_iff]
      rintro (subject | free)
      · exact other subject
      · have free := (List.mem_filter.mp free).2
        simp only [Bool.and_eq_true,Bool.not_eq_true',decide_eq_true_eq] at free
        rcases related with root | ⟨root,rooted,subject,path⟩
        · rw [root] at free
          exact Bool.false_ne_true free.1.symm
        · refine free.2 ((pinnedGraph registry pins).mem_reached ?_ path)
          exact List.mem_filter.mpr ⟨Table.mem_keys.mpr rooted,decide_eq_true fun inside =>
            subject ((subject_iff root).mp inside)⟩

theorem direction_ok {pkg fromVersion toVersion : String} {moved : Direction}
    (ok : direction pkg (some fromVersion) (some toVersion) = .ok moved) :
    ∃ older newer, Version.parse fromVersion = some older ∧ Version.parse toVersion = some newer ∧
      (newer.cmp older = .eq → moved = .same) := by
  obtain ⟨newer,second,ok⟩ := bind_ok ok
  obtain ⟨older,first,ok⟩ := bind_ok ok
  refine ⟨older,newer,parseVersion_ok first,parseVersion_ok second,fun same => ?_⟩
  cases ok
  rw [same]

/-- There is a move for exactly the packages that are pinned or picked. -/
theorem movesOf_ok {out : Table String String} {moves : Table String Move} (ok : movesOf pins out = .ok moves)
    {pkg : String} (named : pins.has pkg = true ∨ out.has pkg = true) :
    ∃ move, moves.get? pkg = some move ∧ moveOf pins out pkg = .ok (pkg,move) := by
  unfold movesOf at ok
  dsimp only at ok
  obtain ⟨rows,made,ok⟩ := bind_ok ok
  cases ok
  generalize listed : (Table.insertAll ∅ ((pins.keys ++ out.keys).map (·,())) : Table String Unit) = names at *
  have member : pkg ∈ names.keys := by
    rw [← listed,Table.mem_keys,Table.has_insertAll,List.map_map]
    left
    show pkg ∈ (pins.keys ++ out.keys).map id
    rw [List.map_id,List.mem_append,Table.mem_keys,Table.mem_keys]
    exact named
  have own {p : String} {row : String × Move} (move : moveOf pins out p = .ok row) : row.1 = p := by
    obtain ⟨_,_,move⟩ := bind_ok move
    cases move
    rfl
  have keys : rows.map Prod.fst = names.keys :=
    (mapM_map id Prod.fst (fun _ _ move => own move) made).trans (List.map_id _)
  have sorted : rows.Pairwise fun a b => a.1 < b.1 := by
    have ordered := List.pairwise_map.mpr names.sorted
    rw [show names.rows.map Prod.fst = names.keys from rfl,← keys] at ordered
    exact List.pairwise_map.mp ordered
  obtain ⟨⟨p,move⟩,inside,moved⟩ := mapM_item made pkg member
  obtain rfl : p = pkg := own moved
  refine ⟨move,?_,moved⟩
  rw [Table.get?_insertAll (keys ▸ names.keys_nodup),Table.lookup_of_mem sorted inside]
  rfl

/-- What the pins and the subjects come to; `reported` are the packages whose removal
is reported. -/
structure PinsKept (registry : Registry) (roots : Table String String) (subjectRoots : List String)
    (pins picks : Table String String) (moves : Table String Move) (reported : String → Prop) : Prop where
  kept : ∀ pkg pinned, pins.get? pkg = some pinned → pkg ∉ subjectRoots →
    roots.has pkg = true ∨ (∃ root, roots.has root = true ∧ root ∉ subjectRoots ∧
      Relation.ReflTransGen (pinnedGraph registry pins).Edge root pkg) →
    ∃ picked version move, picks.get? pkg = some picked ∧ Version.parse picked = some version ∧
      Version.parse pinned = some version ∧ moves.get? pkg = some move ∧ move.direction = .same
  subjects : ∀ subject ∈ subjectRoots, ∃ range, roots.get? subject = some range ∧
    Satisfied picks subject range
  removed : ∀ pkg, reported pkg → pins.has pkg = true → picks.has pkg = false →
    ∃ move, moves.get? pkg = some move ∧ move.direction = .removed
  added : ∀ pkg, pins.has pkg = false → picks.has pkg = true →
    ∃ move, moves.get? pkg = some move ∧ move.direction = .added
  hidden : picks.has synthetic = false ∧ moves.has synthetic = false

theorem resolve_moves {root : Root} {res : Resolution} (ok : resolve registry root caps (some pins) = .ok res) :
    ∃ moves, res.moves = some moves ∧ movesOf pins res.picks = .ok moves := by
  obtain ⟨picks,_,ok⟩ := bind_ok ok
  obtain ⟨_,_,ok⟩ := bind_ok ok
  obtain ⟨_,_,ok⟩ := bind_ok ok
  obtain ⟨_,_,ok⟩ := bind_ok ok
  obtain ⟨moves,moved,ok⟩ := bind_ok ok
  cases ok
  exact ⟨moves,rfl,moved⟩

/-- The ranges of the artificial package hold of the picks, and it is not among them. -/
theorem synthetic_satisfied {ranges picks : Table String String}
    (sound : Sound (registry.insert synthetic [syntheticVersion ranges]) ⟨synthetic,"*"⟩ caps picks)
    {pkg text : String} (ranged : ranges.get? pkg = some text) :
    pkg ≠ synthetic ∧ Satisfied picks pkg text := by
  have entry : pickedEntry (registry.insert synthetic [syntheticVersion ranges]) caps picks synthetic =
      some (syntheticVersion ranges) := by
    obtain ⟨pick,found⟩ := sound.entries synthetic sound.rooted
    obtain ⟨version,picked,first⟩ := Option.bind_eq_some_iff.mp found
    obtain ⟨versions,stored,first⟩ := Option.bind_eq_some_iff.mp first
    rw [Table.get?_insert,if_pos rfl] at stored
    cases stored
    have member := (List.mem_filter.mp (List.mem_of_find?_eq_some first)).1
    rw [found,List.mem_singleton.mp member]
  refine ⟨?_,sound.ranges synthetic _ pkg text entry ranged⟩
  rintro rfl
  exact sound.acyclic synthetic (.single ⟨_,entry,Table.has_iff.mpr ⟨text,ranged⟩⟩)

theorem Satisfied.erase {picks : Table String String} {pkg text other : String} (apart : pkg ≠ other)
    (satisfied : Satisfied picks pkg text) : Satisfied (picks.erase other) pkg text := by
  obtain ⟨picked,version,range,found,rest⟩ := satisfied
  exact ⟨picked,version,range,by rw [Table.get?_erase,if_neg apart]; exact found,rest⟩

theorem direction_removed {pkg fromVersion : String} {moved : Direction}
    (ok : direction pkg (some fromVersion) none = .ok moved) : moved = .removed := by
  cases ok
  rfl

theorem moveOf_ok {out : Table String String} {pkg : String} {move : Move}
    (ok : moveOf pins out pkg = .ok (pkg,move)) :
    direction pkg (pins.get? pkg) (out.get? pkg) = .ok move.direction := by
  obtain ⟨moved,directed,ok⟩ := bind_ok ok
  cases ok
  exact directed

/-- Unrelated pins never move: what the other roots reach over the pinned versions stays
at its pin, and each subject is picked in its range. -/
theorem resolveRoots_kept {res : Resolution}
    (ok : resolveRoots registry roots subjectRoots pins caps = .ok res) :
    ∃ moves, res.moves = some moves ∧
      PinsKept registry roots subjectRoots pins res.picks moves (· ≠ synthetic) := by
  obtain ⟨ranges,made,ok⟩ := bind_ok ok
  have ranged := syntheticRootRanges_ok made
  split at ok
  next result resolved =>
    cases ok
    have sound := resolve_sound resolved
    obtain ⟨moves,given,moved⟩ := resolve_moves resolved
    refine ⟨moves.erase synthetic,by rw [given]; rfl,?_⟩
    constructor
    · intro pkg pinned pin other related
      obtain ⟨apart,satisfied⟩ := synthetic_satisfied sound (ranged.fixed pkg pinned pin other related)
      obtain ⟨picked,version,range,found,parse,parsed,fits⟩ := satisfied
      obtain ⟨move,stored,moved⟩ := movesOf_ok moved (.inl (Table.has_iff.mpr ⟨pinned,pin⟩))
      have directed := moveOf_ok moved
      rw [pin,found] at directed
      obtain ⟨older,newer,first,second,same⟩ := direction_ok directed
      rw [parse_exactly first] at parsed
      cases parsed
      obtain rfl := satisfies_exactly fits
      rw [parse] at second
      cases second
      refine ⟨picked,version,move,?_,parse,first,?_,same (cmp_self version)⟩
      · rw [Table.get?_erase,if_neg apart]; exact found
      · rw [Table.get?_erase,if_neg apart]; exact stored
    · intro subject member
      obtain ⟨range,root,asked⟩ := ranged.subjects subject member
      obtain ⟨apart,satisfied⟩ := synthetic_satisfied sound asked
      exact ⟨range,root,satisfied.erase apart⟩
    · intro pkg apart pinned unpicked
      rw [Table.has_erase,decide_eq_true apart,Bool.true_and] at unpicked
      obtain ⟨move,stored,moved⟩ := movesOf_ok moved (.inl pinned)
      have directed := moveOf_ok moved
      obtain ⟨pin,found⟩ := Table.has_iff.mp pinned
      rw [found,Option.not_isSome_iff_eq_none.mp (Bool.eq_false_iff.mp unpicked)] at directed
      exact ⟨move,by rw [Table.get?_erase,if_neg apart]; exact stored,direction_removed directed⟩
    · intro pkg unpinned picked
      rw [Table.has_erase,Bool.and_eq_true,decide_eq_true_eq] at picked
      obtain ⟨apart,picked⟩ := picked
      obtain ⟨move,stored,moved⟩ := movesOf_ok moved (.inr picked)
      have directed := moveOf_ok moved
      rw [Option.not_isSome_iff_eq_none.mp (Bool.eq_false_iff.mp unpinned)] at directed
      refine ⟨move,by rw [Table.get?_erase,if_neg apart]; exact stored,?_⟩
      rw [direction] at directed
      exact (Except.ok.inj directed).symm
    · constructor <;> rw [Table.has_erase] <;> simp
  next => cases ok

end

/-- A pin under the artificial name is neither picked nor reported as removed. -/
theorem synthetic_pin_unreported : ¬ ∀ (registry : Registry) (roots pins : Table String String)
    (subjectRoots caps : List String) (res : Resolution),
    resolveRoots registry roots subjectRoots pins caps = .ok res → ∃ moves, res.moves = some moves ∧
      PinsKept registry roots subjectRoots pins res.picks moves (fun _ => True) := by
  intro law
  have resolved : resolveRoots ∅ ∅ [] ((∅ : Table String String).insert synthetic "1.0.0") [] =
      .ok ⟨∅,some ∅⟩ := by decide +kernel
  obtain ⟨moves,given,kept⟩ := law _ _ _ _ _ _ resolved
  cases given
  obtain ⟨move,found,_⟩ := kept.removed synthetic trivial (by decide +kernel) (by decide +kernel)
  cases found

namespace Upgrade

def library (version : String) : RegistryVersion := ⟨version,.skill,.available,⟨[],∅⟩,[]⟩

def tool (version range : String) : RegistryVersion :=
  ⟨version,.skill,.available,⟨[],(∅ : Table String String).insert "@a/lib" range⟩,[]⟩

def registry : Registry :=
  (((∅ : Registry).insert "@a/lib" [library "1.0.0",library "1.1.0"]).insert "@a/old"
    [tool "1.0.0" "^1.0.0"]).insert "@a/new" [tool "1.0.0" "^1.0.0",tool "2.0.0" "^1.0.0"]

def roots : Table String String := ((∅ : Table String String).insert "@a/old" "*").insert "@a/new" "^2.0.0"

def pins : Table String String :=
  (((∅ : Table String String).insert "@a/lib" "1.0.0").insert "@a/old" "1.0.0").insert "@a/new" "1.0.0"

/-- The library that the other root requires stays where it is. -/
theorem upgraded : ∃ res moves, resolveRoots registry roots ["@a/new"] pins [] = .ok res ∧
    res.picks.rows = [("@a/lib","1.0.0"),("@a/new","2.0.0"),("@a/old","1.0.0")] ∧ res.moves = some moves ∧
    PinsKept registry roots ["@a/new"] pins res.picks moves (· ≠ synthetic) := by
  have picks : (resolveRoots registry roots ["@a/new"] pins []).toOption.map (·.picks.rows) =
      some [("@a/lib","1.0.0"),("@a/new","2.0.0"),("@a/old","1.0.0")] := by decide +kernel
  cases done : resolveRoots registry roots ["@a/new"] pins [] with
  | error e => rw [done] at picks; cases picks
  | ok res =>
    obtain ⟨moves,given,kept⟩ := resolveRoots_kept done
    rw [done] at picks
    exact ⟨res,moves,rfl,Option.some.inj picks,given,kept⟩

end Upgrade

end Entorhinal.Resolver
