import Entorhinal.Resolver
import Entorhinal.Utf8

/-! What a resolution guarantees. Ranges are recorded under the requester's name and
version, which no two entries share, so a pass that records nothing has picked against
every range that its own picks ask. -/
namespace Entorhinal.Resolver

open Package Semver

theorem splitOnce_ok {separator c : Char} {chars before after : List Char}
    (split : splitOnce separator chars = some (before,after)) (member : c ∈ chars) :
    c ∈ before ∨ c = separator ∨ c ∈ after := by
  induction chars generalizing before with
  | nil => cases member
  | cons first chars ih =>
    rw [splitOnce] at split
    split at split
    next cut =>
      cases split
      rcases List.mem_cons.mp member with rfl | later
      · exact .inr (.inl cut)
      · exact .inr (.inr later)
    next =>
      obtain ⟨⟨front,back⟩,parts,same⟩ := Option.map_eq_some_iff.mp split
      cases same
      rcases List.mem_cons.mp member with rfl | later
      · exact .inl List.mem_cons_self
      · rcases ih parts later with inside | rest
        · exact .inl (List.mem_cons_of_mem _ inside)
        · exact .inr rest

theorem numeric_ok {text : List Char} {n : Nat} (ok : numeric text = some n) : text.all Char.isDigit = true := by
  unfold numeric at ok
  split at ok
  next => cases ok
  next valid =>
    simp only [Bool.or_eq_true,not_or] at valid
    simpa [isNumeric] using valid.1.2

/-- The characters of a version. -/
def isVersionChar (c : Char) : Bool := c.isDigit || c.isAlphanum || c == '-' || c == '.'

theorem parsePartial_chars {chars : List Char} {parsed : Version × Nat} (ok : parsePartial chars = some parsed) :
    ∀ c ∈ chars, isVersionChar c = true := by
  have digits {base : List Char} {nums : List Nat} (all : (base.splitOn '.').mapM numeric = some nums) :
      ∀ c ∈ base, isVersionChar c = true := by
    intro c member
    rcases Utf8.mem_splitOn '.' member with rfl | ⟨part,listed,inside⟩
    · decide
    · obtain ⟨n,number⟩ := mapM_some all part listed
      have digit := List.all_eq_true.mp (numeric_ok number) c inside
      rw [isVersionChar,digit]
      rfl
  unfold parsePartial at ok
  dsimp only at ok
  split at ok
  next => cases ok
  next nums numbers =>
    split at ok
    next => cases ok
    next =>
      split at ok
      next => cases ok
      next valid =>
        cases parts : splitOnce '-' chars with
        | none => rw [parts] at numbers; exact digits numbers
        | some halves =>
          obtain ⟨before,after⟩ := halves
          rw [parts] at numbers valid
          intro c member
          rcases splitOnce_ok parts member with front | rfl | back
          · exact digits numbers c front
          · decide
          · rcases Utf8.mem_splitOn '.' back with rfl | ⟨part,listed,inside⟩
            · decide
            · have clean := List.any_eq_false.mp (Bool.eq_false_iff.mpr valid) part listed
              simp only [identifierInvalid,Bool.or_eq_true,not_or] at clean
              have whole : part.all (fun c => c.isAlphanum || c == '-') = true := by
                cases all : part.all (fun c => c.isAlphanum || c == '-') with
                | true => rfl
                | false => exact absurd (by rw [all]; rfl) clean.1.2
              have each := List.all_eq_true.mp whole c inside
              rw [isVersionChar,Bool.or_assoc c.isDigit,each]
              simp only [Bool.or_true,Bool.true_or]

theorem version_chars {text : String} {version : Version} (parse : Version.parse text = some version) :
    '@' ∉ text.toList := by
  intro member
  unfold Version.parse at parse
  split at parse
  next partial' =>
    have := parsePartial_chars partial' '@' member
    cases this
  next => cases parse

theorem append_at_inj {a b c d : List Char} (left : '@' ∉ b) (right : '@' ∉ d)
    (same : a ++ '@' :: b = c ++ '@' :: d) : a = c ∧ b = d := by
  have flipped : b.reverse ++ '@' :: a.reverse = d.reverse ++ '@' :: c.reverse := by
    simpa using congrArg List.reverse same
  obtain ⟨back,front⟩ := Semver.cut_inj (by simpa using left) (by simpa using right) flipped
  exact ⟨List.reverse_injective front,List.reverse_injective back⟩

/-- Two versions ask under one name only if they are the same. -/
theorem requester_inj {pkg pkg' text text' : String} {version version' : Version}
    (left : Version.parse text = some version) (right : Version.parse text' = some version')
    (same : requester pkg text = requester pkg' text') : pkg = pkg' ∧ text = text' := by
  have chars := congrArg String.toList same
  simp only [requester,String.toList_append] at chars
  have shape : pkg.toList ++ '@' :: text.toList = pkg'.toList ++ '@' :: text'.toList := by
    simpa using chars
  obtain ⟨packages,texts⟩ := append_at_inj (version_chars left) (version_chars right) shape
  exact ⟨String.toList_injective packages,String.toList_injective texts⟩

theorem requester_not_root (pkg text : String) : requester pkg text ≠ "(root)" := by
  intro same
  have chars := congrArg String.toList same
  have member : '@' ∈ (requester pkg text).toList := by
    simp [requester]
  rw [chars] at member
  revert member
  decide +kernel

section

variable {registry : Registry} {caps : List String} {root : Root}

/-- Every recorded range was asked by the root's caller or by the version it is recorded
under. -/
structure Attributed (registry : Registry) (caps : List String) (root : Root) (ranges : Ranges) : Prop where
  root : asked ranges root.package "(root)" = some root.range
  source : ∀ dep by' text, asked ranges dep by' = some text → by' = "(root)" ∨
    ∃ pkg pick, by' = requester pkg pick.version ∧ (Version.parse pick.version).isSome = true ∧
      entryOf registry caps pkg pick.version = some pick ∧ pick.requires.packages.get? dep = some text

/-- A recorded requirement of a version is the version's own. -/
theorem Attributed.own {ranges : Ranges} (attributed : Attributed registry caps root ranges)
    {pkg dep text : String} {pick : RegistryVersion} (picked : Picked registry caps ranges pkg pick)
    (recorded : asked ranges dep (requester pkg pick.version) = some text) :
    pick.requires.packages.get? dep = some text := by
  obtain ⟨version,parse,_⟩ := picked.admitted
  rcases attributed.source dep _ text recorded with rooted | ⟨pkg',pick',same,parses,entry,required⟩
  · exact absurd rooted (requester_not_root pkg pick.version)
  · obtain ⟨version',parse'⟩ := Option.isSome_iff_exists.mp parses
    obtain ⟨rfl,version_eq⟩ := requester_inj parse parse' same
    rw [← version_eq,picked.entry] at entry
    cases entry
    exact required

theorem Attributed.pick {pass : Pass} {pkg : String} {pick : RegistryVersion}
    (attributed : Attributed registry caps root pass.ranges)
    (picked : Picked registry caps pass.ranges pkg pick) :
    Attributed registry caps root (pass.pick pkg pick).ranges := by
  obtain ⟨version,parse,_⟩ := picked.admitted
  constructor
  · rw [asked_pick,attributed.root]
    rfl
  · intro dep by' text recorded
    rw [asked_pick,Option.or_eq_some_iff] at recorded
    rcases recorded with before | ⟨_,new⟩
    · exact attributed.source dep by' text before
    · split at new
      next own => exact .inr ⟨pkg,pick,own,by rw [parse]; rfl,picked.entry,new⟩
      next => cases new

theorem visit_attributed {pass pass' : Pass} {queue : List String}
    (attributed : Attributed registry caps root pass.ranges)
    (ok : visit registry caps pass queue = .ok pass') : Attributed registry caps root pass'.ranges := by
  fun_induction visit with
  | case1 pass => cases ok; exact attributed
  | case2 pass pkg queue seen ih => exact ih attributed ok
  | case3 pass pkg queue fresh e failed => cases ok
  | case4 pass pkg queue fresh pick picked ih => exact ih (attributed.pick (pickVersion_ok picked)) ok

/-- What a pass that records nothing leaves: the ranges stay as they were, every queued
package is picked against them, and every pick's own ranges were recorded before. -/
structure Quiet (registry : Registry) (caps : List String) (pass pass' : Pass) (queue : List String) :
    Prop where
  silent : pass.added = false
  ranges : ∀ dep by', asked pass'.ranges dep by' = asked pass.ranges dep by'
  kept : ∀ pkg pick, pass.picks.get? pkg = some pick → pass'.picks.get? pkg = some pick
  queued : ∀ pkg ∈ queue, pass'.picks.has pkg = true
  fresh : ∀ pkg pick, pass'.picks.get? pkg = some pick → pass.picks.get? pkg = some pick ∨
    Picked registry caps pass.ranges pkg pick ∧
    (∀ dep text, pick.requires.packages.get? dep = some text →
      (asked pass.ranges dep (requester pkg pick.version)).isSome = true ∧ pass'.picks.has dep = true) ∧
    ∃ first ∈ queue, Relation.ReflTransGen (requirements pass'.picks).Edge first pkg

theorem required_some {picks : Picks} {pkg : String} {pick : RegistryVersion}
    (found : picks.get? pkg = some pick) : required picks pkg = pick.requires.packages.keys := by
  rw [required,found]

theorem Picked.same_ranges {ranges ranges' : Ranges} {pkg : String} {pick : RegistryVersion}
    (picked : Picked registry caps ranges pkg pick)
    (same : ∀ dep by', asked ranges' dep by' = asked ranges dep by') :
    Picked registry caps ranges' pkg pick := by
  obtain ⟨entry,version,parse,admits⟩ := picked
  exact ⟨entry,version,parse,fun by' text recorded => admits by' text (same pkg by' ▸ recorded)⟩

theorem visit_quiet {pass pass' : Pass} {queue : List String}
    (ok : visit registry caps pass queue = .ok pass') (quiet : pass'.added = false) :
    Quiet registry caps pass pass' queue := by
  fun_induction visit with
  | case1 pass =>
    cases ok
    exact ⟨quiet,fun _ _ => rfl,fun _ _ => id,fun _ none => absurd none List.not_mem_nil,fun _ _ => .inl⟩
  | case2 pass pkg queue seen ih =>
    obtain ⟨silent,ranges,kept,queued,fresh⟩ := ih ok
    refine ⟨silent,ranges,kept,fun other member => ?_,fun other pick found => ?_⟩
    · rcases List.mem_cons.mp member with rfl | later
      · obtain ⟨pick,found⟩ := Table.has_iff.mp seen
        exact Table.has_iff.mpr ⟨pick,kept _ pick found⟩
      · exact queued other later
    · apply (fresh other pick found).imp_right
      rintro ⟨picked,recorded,first,inside,path⟩
      exact ⟨picked,recorded,first,List.mem_cons_of_mem _ inside,path⟩
  | case3 pass pkg queue unpicked e failed => cases ok
  | case4 pass pkg queue unpicked pick chosen ih =>
    obtain ⟨silent,ranges,kept,queued,fresh⟩ := ih ok
    have picked := pickVersion_ok chosen
    have settled : pass.added = false ∧ ∀ dep text, pick.requires.packages.get? dep = some text →
        asked pass.ranges dep (requester pkg pick.version) ≠ none := by
      have unmoved := mt (added_pick pass pkg pick).mpr (Bool.eq_false_iff.mp silent)
      refine ⟨Bool.eq_false_iff.mpr fun added => unmoved (.inl added),fun dep text required none => ?_⟩
      exact unmoved (.inr ⟨dep,text,required,none⟩)
    have still (dep by' : String) : asked (pass.pick pkg pick).ranges dep by' = asked pass.ranges dep by' := by
      rw [asked_pick]
      split
      next own =>
        cases required : pick.requires.packages.get? dep with
        | none => exact Option.or_none
        | some text =>
          obtain ⟨before,found⟩ := Option.ne_none_iff_exists'.mp (own ▸ settled.2 dep text required)
          rw [found]
          rfl
      next => exact Option.or_none
    have stored : pass'.picks.get? pkg = some pick :=
      kept pkg pick (by rw [Pass.pick,Table.get?_insert,if_pos rfl])
    refine ⟨settled.1,fun dep by' => (ranges dep by').trans (still dep by'),fun other pick' found => ?_,
      fun other member => ?_,fun other pick' found => ?_⟩
    · refine kept other pick' ?_
      rw [Pass.pick,Table.get?_insert,if_neg]
      · exact found
      · rintro rfl
        exact unpicked (Table.has_iff.mpr ⟨pick',found⟩)
    · rcases List.mem_cons.mp member with rfl | later
      · exact Table.has_iff.mpr ⟨pick,stored⟩
      · exact queued other (List.mem_append_left _ later)
    · by_cases own : other = pkg
      · subst own
        rw [stored] at found
        cases found
        refine .inr ⟨picked,fun dep text required => ⟨?_,?_⟩,other,List.mem_cons_self,.refl⟩
        · exact Option.isSome_iff_ne_none.mpr (settled.2 dep text required)
        · exact queued dep (List.mem_append_right _
            (Table.mem_keys.mpr (Table.has_iff.mpr ⟨text,required⟩)))
      · rcases fresh other pick' found with before | ⟨later,recorded,first,inside,path⟩
        · left
          rw [Pass.pick,Table.get?_insert,if_neg own] at before
          exact before
        · right
          refine ⟨later.same_ranges fun dep by' => (still dep by').symm,fun dep text required => ?_,?_⟩
          · rw [← still]
            exact recorded dep text required
          · rcases List.mem_append.mp inside with front | deps
            · exact ⟨first,List.mem_cons_of_mem _ front,path⟩
            · refine ⟨pkg,List.mem_cons_self,.head ?_ path⟩
              show first ∈ required pass'.picks pkg
              rw [required_some stored]
              exact deps

/-- What the passes end with. -/
structure Closed (registry : Registry) (caps : List String) (root : Root) (ranges : Ranges) (picks : Picks) :
    Prop where
  attributed : Attributed registry caps root ranges
  rooted : picks.has root.package = true
  picked : ∀ pkg pick, picks.get? pkg = some pick → Picked registry caps ranges pkg pick ∧
    (∀ dep text, pick.requires.packages.get? dep = some text →
      asked ranges dep (requester pkg pick.version) = some text ∧ picks.has dep = true) ∧
    Relation.ReflTransGen (requirements picks).Edge root.package pkg

theorem closure_closed {ranges : Ranges} {picks : Picks} (attributed : Attributed registry caps root ranges)
    (ok : closure registry root caps ranges = .ok picks) :
    ∃ ranges', Closed registry caps root ranges' picks := by
  fun_induction closure with
  | case1 ranges e failed => cases ok
  | case2 ranges pass visited added ih => exact ih (visit_attributed attributed visited) ok
  | case3 ranges pass visited quiet =>
    cases ok
    obtain ⟨_,same,_,queued,fresh⟩ := visit_quiet visited (Bool.eq_false_iff.mpr quiet)
    refine ⟨ranges,attributed,queued root.package List.mem_cons_self,fun pkg pick found => ?_⟩
    rcases fresh pkg pick found with none | ⟨picked,recorded,first,inside,path⟩
    · cases none
    · obtain rfl := List.mem_singleton.mp inside
      refine ⟨picked,fun dep text required => ?_,path⟩
      obtain ⟨some,has⟩ := recorded dep text required
      obtain ⟨text',found'⟩ := Option.isSome_iff_exists.mp some
      have own := attributed.own picked found'
      rw [required] at own
      cases own
      exact ⟨found',has⟩

/-- The version of the registry that a pick stands for. -/
def pickedEntry (registry : Registry) (caps : List String) (picks : Table String String) (pkg : String) :
    Option RegistryVersion :=
  (picks.get? pkg).bind (entryOf registry caps pkg)

/-- One package's picked version requires the other. -/
def RequiresPick (registry : Registry) (caps : List String) (picks : Table String String) (pkg dep : String) :
    Prop :=
  ∃ pick, pickedEntry registry caps picks pkg = some pick ∧ pick.requires.packages.has dep = true

/-- The package is picked at a version in the range. -/
def Satisfied (picks : Table String String) (pkg text : String) : Prop :=
  ∃ picked version range, picks.get? pkg = some picked ∧ Version.parse picked = some version ∧
    Range.parse text = some range ∧ range.satisfies version = true

/-- A resolution's picks: usable versions that require each other without a cycle, all of
them needed and none missing, each in every range asked of it. -/
structure Sound (registry : Registry) (root : Root) (caps : List String) (picks : Table String String) :
    Prop where
  entries : ∀ pkg, picks.has pkg = true → ∃ pick, pickedEntry registry caps picks pkg = some pick
  rooted : picks.has root.package = true
  closed : ∀ pkg dep, RequiresPick registry caps picks pkg dep → picks.has dep = true
  needed : ∀ pkg, picks.has pkg = true →
    Relation.ReflTransGen (RequiresPick registry caps picks) root.package pkg
  rootRange : Satisfied picks root.package root.range
  ranges : ∀ pkg pick dep text, pickedEntry registry caps picks pkg = some pick →
    pick.requires.packages.get? dep = some text → Satisfied picks dep text
  usable : ∀ pkg pick, pickedEntry registry caps picks pkg = some pick → pick.status = .available ∧
    ∀ capability ∈ pick.requires.capabilities, capability ∈ caps
  acyclic : ∀ pkg, ¬ Relation.TransGen (RequiresPick registry caps picks) pkg pkg
  refs : ∀ pkg pick, pickedEntry registry caps picks pkg = some pick → ∀ r ∈ pick.refs,
    pick.requires.packages.has r.package = true ∧
    ∃ target, pickedEntry registry caps picks r.package = some target ∧ target.kind = r.field.kind

def versions (picks : Picks) : Table String String := picks.update fun _ pick => pick.version

theorem Closed.entry {ranges : Ranges} {picks : Picks} (closed : Closed registry caps root ranges picks)
    (pkg : String) : pickedEntry registry caps (versions picks) pkg = picks.get? pkg := by
  rw [pickedEntry,versions,Table.get?_update]
  cases found : picks.get? pkg with
  | none => rfl
  | some pick => exact (closed.picked pkg pick found).1.entry

theorem Closed.edge {ranges : Ranges} {picks : Picks} (closed : Closed registry caps root ranges picks)
    (pkg dep : String) :
    RequiresPick registry caps (versions picks) pkg dep ↔ (requirements picks).Edge pkg dep := by
  show _ ↔ dep ∈ required picks pkg
  unfold RequiresPick required
  rw [closed.entry]
  cases found : picks.get? pkg with
  | none => simp
  | some pick => simp [Table.mem_keys]

theorem Closed.satisfied {ranges : Ranges} {picks : Picks} (closed : Closed registry caps root ranges picks)
    {pkg by' text : String} (has : picks.has pkg = true) (recorded : asked ranges pkg by' = some text) :
    Satisfied (versions picks) pkg text := by
  obtain ⟨pick,found⟩ := Table.has_iff.mp has
  obtain ⟨version,parse,admits⟩ := (closed.picked pkg pick found).1.admitted
  obtain ⟨range,parsed,satisfies⟩ := admits by' text recorded
  exact ⟨pick.version,version,range,by rw [versions,Table.get?_update,found]; rfl,parse,parsed,satisfies⟩

theorem initial_attributed : Attributed registry caps root
    ((∅ : Ranges).insert root.package ((∅ : Table String String).insert "(root)" root.range)) := by
  constructor
  · rw [asked_insert,if_pos rfl,Table.get?_insert,if_pos rfl]
  · intro dep by' text recorded
    rw [asked_insert] at recorded
    split at recorded
    next =>
      rw [Table.get?_insert] at recorded
      split at recorded
      next own => exact .inl own
      next => cases recorded
    next => cases recorded

theorem checkRefs_ok {picks : Picks} {check : String × RegistryVersion → BodyRef → Except ResolveError Unit}
    (ok : (picks.rows.forM fun x => x.2.refs.forM (check x)) = .ok ()) {pkg : String} {pick : RegistryVersion}
    (found : picks.get? pkg = some pick) : ∀ r ∈ pick.refs, check (pkg,pick) r = .ok () :=
  forM_ok (forM_ok ok (pkg,pick) (Table.mem_rows.mpr found))

theorem closed_sound {ranges : Ranges} {picks : Picks} (closed : Closed registry caps root ranges picks)
    (cycle : checkCycle picks root.package = .ok ()) (declared : checkDeclared picks = .ok ())
    (kinds : checkKinds picks = .ok ()) : Sound registry root caps (versions picks) := by
  have has (pkg : String) : (versions picks).has pkg = picks.has pkg := by
    rw [Table.has,versions,Table.get?_update,Option.isSome_map]
    rfl
  have walked : (requirements picks).walk (Search.Graph.start root.package) = .ok () := by
    unfold checkCycle at cycle
    split at cycle
    next => cases cycle
    next ended => exact ended
  have edges : RequiresPick registry caps (versions picks) = (requirements picks).Edge :=
    funext fun pkg => funext fun dep => propext (closed.edge pkg dep)
  constructor
  · intro pkg present
    rw [closed.entry]
    exact Table.has_iff.mp (has pkg ▸ present)
  · rw [has]
    exact closed.rooted
  · rintro pkg dep ⟨pick,found,needs⟩
    rw [closed.entry] at found
    obtain ⟨text,required⟩ := Table.has_iff.mp needs
    rw [has]
    exact ((closed.picked pkg pick found).2.1 dep text required).2
  · intro pkg present
    obtain ⟨pick,found⟩ := Table.has_iff.mp (has pkg ▸ present)
    rw [edges]
    exact (closed.picked pkg pick found).2.2
  · exact closed.satisfied closed.rooted closed.attributed.root
  · intro pkg pick dep text found required
    rw [closed.entry] at found
    obtain ⟨recorded,present⟩ := (closed.picked pkg pick found).2.1 dep text required
    exact closed.satisfied present recorded
  · intro pkg pick found
    rw [closed.entry] at found
    obtain ⟨_,_,_,usable⟩ := (closed.picked pkg pick found).1.listed
    obtain ⟨available,capable⟩ := Bool.and_eq_true_iff.mp usable
    exact ⟨beq_iff_eq.mp available,fun capability member =>
      List.contains_iff_mem.mp (List.all_eq_true.mp capable capability member)⟩
  · rw [edges]
    intro pkg loop
    have picked : picks.has pkg = true := by
      obtain ⟨next,first,_⟩ := Relation.TransGen.head'_iff.mp loop
      obtain ⟨pick,found,_⟩ := (closed.edge pkg next).mpr first
      rw [closed.entry] at found
      exact Table.has_iff.mpr ⟨pick,found⟩
    obtain ⟨pick,found⟩ := Table.has_iff.mp picked
    exact (requirements picks).walk_acyclic walked (closed.picked pkg pick found).2.2 loop
  · intro pkg pick found r member
    rw [closed.entry] at found
    have listed := checkRefs_ok declared found r member
    have kind := checkRefs_ok kinds found r member
    dsimp only at listed kind
    split at listed
    next present =>
      split at kind
      next => cases kind
      next target target_found =>
        split at kind
        next same => exact ⟨present,target,by rw [closed.entry]; exact target_found,same⟩
        next => cases kind
    next => cases listed

/-- A resolution is sound for every registry, root, capabilities and pins. -/
theorem resolve_sound {pins : Option (Table String String)} {res : Resolution}
    (ok : resolve registry root caps pins = .ok res) : Sound registry root caps res.picks := by
  obtain ⟨picks,closes,ok⟩ := bind_ok ok
  obtain ⟨_,cycle,ok⟩ := bind_ok ok
  obtain ⟨_,declared,ok⟩ := bind_ok ok
  obtain ⟨_,kinds,ok⟩ := bind_ok ok
  obtain ⟨ranges,closed⟩ := closure_closed initial_attributed closes
  have sound := closed_sound closed cycle declared kinds
  cases pins with
  | none => cases ok; exact sound
  | some pins =>
    obtain ⟨moves,_,ok⟩ := bind_ok ok
    cases ok
    exact sound

end

namespace Persona

def skill (version : String) (status : State) : RegistryVersion :=
  ⟨version,.skill,status,⟨[],∅⟩,[]⟩

/-- A persona that names a skill, whose newest version is withdrawn. -/
def registry : Registry :=
  ((∅ : Registry).insert "@a/reviewer" [⟨"1.0.0",.persona,.available,
      ⟨["cap/fs.read@1"],(∅ : Table String String).insert "@a/diff" "^1.2"⟩,[⟨.skills,"@a/diff"⟩]⟩]).insert
    "@a/diff" [skill "1.1.0" .available,skill "1.2.0" .available,skill "1.3.0" .withdrawn]

theorem resolved_sound :
    (resolve registry ⟨"@a/reviewer","^1.0.0"⟩ ["cap/fs.read@1"] none).toOption.map (·.picks.rows) =
      some [("@a/diff","1.2.0"),("@a/reviewer","1.0.0")] ∧
    ∃ res, resolve registry ⟨"@a/reviewer","^1.0.0"⟩ ["cap/fs.read@1"] none = .ok res ∧
      Sound registry ⟨"@a/reviewer","^1.0.0"⟩ ["cap/fs.read@1"] res.picks := by
  have picks : (resolve registry ⟨"@a/reviewer","^1.0.0"⟩ ["cap/fs.read@1"] none).toOption.map
      (·.picks.rows) = some [("@a/diff","1.2.0"),("@a/reviewer","1.0.0")] := by decide +kernel
  refine ⟨picks,?_⟩
  cases done : resolve registry ⟨"@a/reviewer","^1.0.0"⟩ ["cap/fs.read@1"] none with
  | error e => rw [done] at picks; cases picks
  | ok res => exact ⟨res,rfl,resolve_sound done⟩

end Persona
end Entorhinal.Resolver
