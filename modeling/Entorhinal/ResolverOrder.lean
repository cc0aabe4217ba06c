import Mathlib.Order.Lex
import Entorhinal.Loop
import Entorhinal.ResolverLaw
import Entorhinal.SemverOrder

/-! The resolver's loops end, and what they end with does not depend on the order of a package's versions. -/
namespace Entorhinal.Resolver

open Package Semver

section Turns
variable {registry : Registry} {caps : List String} {root : Root}

/-- One turn of the queue of a pass. -/
def visitTurn (registry : Registry) (caps : List String) (s : Pass × List String) : (Pass × List String) ⊕ Except ResolveError Pass :=
  match s with
  | (pass,[]) => .inr (.ok pass)
  | (pass,pkg :: queue) =>
    if pass.picks.has pkg then .inl (pass,queue)
    else match pickVersion registry caps pass.ranges pkg with
      | .error e => .inr (.error e)
      | .ok pick => .inl (pass.pick pkg pick,queue ++ pick.requires.packages.keys)

/-- One pass. -/
def passTurn (registry : Registry) (root : Root) (caps : List String) (ranges : Ranges) : Ranges ⊕ Except ResolveError Picks :=
  match visit registry caps ⟨∅,ranges,false⟩ [root.package] with
  | .error e => .inr (.error e)
  | .ok pass => if pass.added then .inl pass.ranges else .inr (.ok pass.picks)

/-- One turn of the search for a cycle. -/
def walkTurn {α : Type} [DecidableEq α] (g : Search.Graph α) (s : List (α × Bool) × List α × List α) :
    (List (α × Bool) × List α × List α) ⊕ Except (List α) Unit :=
  match s with
  | ([],_,_) => .inr (.ok ())
  | ((a,true) :: rest,path,done) => .inl (rest,path.tail,a :: done)
  | ((a,false) :: rest,path,done) =>
    if a ∈ path then .inr (.error (path.reverse.dropWhile (· != a) ++ [a]))
    else if a ∈ done then .inl (rest,path,done)
    else .inl (g.enter rest a,a :: path,done)

theorem visit_turns (pass : Pass) (queue : List String) :
    ∃ turns, Loop.run (visitTurn registry caps) turns (pass,queue) = some (visit registry caps pass queue) := by
  fun_induction visit registry caps pass queue with
  | case1 pass => exact ⟨1,rfl⟩
  | case2 pass pkg queue seen ih =>
    obtain ⟨turns,ran⟩ := ih
    have goes : visitTurn registry caps (pass,pkg :: queue) = .inl (pass,queue) := if_pos seen
    exact ⟨turns + 1,(Loop.run_on goes turns).trans ran⟩
  | case3 pass pkg queue fresh e failed =>
    refine ⟨1,Loop.run_done ?_ 0⟩
    rw [visitTurn,if_neg fresh,failed]
  | case4 pass pkg queue fresh pick picked ih =>
    obtain ⟨turns,ran⟩ := ih
    refine ⟨turns + 1,(Loop.run_on ?_ turns).trans ran⟩
    rw [visitTurn,if_neg fresh,picked]

/-- There is at most one pass more than there are ranges to record. -/
theorem closure_passes (ranges : Ranges) :
    Loop.run (passTurn registry root caps) (unrecorded registry ranges + 1) ranges = some (closure registry root caps ranges) := by
  refine Loop.run_ends (unrecorded registry) (closure registry root caps) (fun ranges next goes => ?_) (fun ranges done ends => ?_) ranges
  · unfold passTurn at goes
    split at goes
    next => cases goes
    next pass visited =>
      split at goes
      next added =>
        cases goes
        refine ⟨unrecorded_lt visited added,?_⟩
        conv => lhs; rw [closure]
        split
        next e failed => rw [visited] at failed; cases failed
        next pass' visited' =>
          rw [visited] at visited'
          cases visited'
          rw [if_pos added]
      next => cases goes
  · unfold passTurn at ends
    rw [closure]
    split
    next e failed =>
      rw [failed] at ends
      exact Sum.inr.inj ends
    next pass visited =>
      rw [visited] at ends
      dsimp only at ends
      split at ends
      next => cases ends
      next quiet =>
        rw [if_neg quiet]
        exact Sum.inr.inj ends

theorem walk_turns {α : Type} [DecidableEq α] (g : Search.Graph α) (w : Search.Graph.Walk α) :
    ∃ turns, Loop.run (walkTurn g) turns (w.stack,w.path,w.done) = some (g.walk w) := by
  fun_induction Search.Graph.walk g w with
  | case1 => exact ⟨1,rfl⟩
  | case2 a rest done ih =>
    obtain ⟨turns,ran⟩ := ih
    exact ⟨turns + 1,ran⟩
  | case3 a rest done met =>
    have ends : walkTurn g ((a,false) :: rest,((a,false) :: rest).filterMap Search.Graph.leaving,done) = .inr (.error _) := if_pos met
    exact ⟨1,Loop.run_done ends 0⟩
  | case4 a rest done left unmet ih =>
    obtain ⟨turns,ran⟩ := ih
    have goes : walkTurn g ((a,false) :: rest,((a,false) :: rest).filterMap Search.Graph.leaving,done) = .inl _ :=
      (if_neg unmet).trans (if_pos left)
    exact ⟨turns + 1,(Loop.run_on goes turns).trans ran⟩
  | case5 a rest done fresh unmet ih =>
    obtain ⟨turns,ran⟩ := ih
    have goes : walkTurn g ((a,false) :: rest,((a,false) :: rest).filterMap Search.Graph.leaving,done) = .inl _ :=
      (if_neg unmet).trans (if_neg fresh)
    exact ⟨turns + 1,(Loop.run_on goes turns).trans ran⟩

theorem walk_cycle {picks : Picks} {b : String} (path : Relation.ReflTransGen (requirements picks).Edge root.package b)
    (cycle : Relation.TransGen (requirements picks).Edge b b) : ∃ cycle, checkCycle picks root.package = .error (.dependencyCycle cycle) := by
  unfold checkCycle
  cases walked : (requirements picks).walk (Search.Graph.start root.package) with
  | error cycle => exact ⟨cycle,rfl⟩
  | ok => exact absurd cycle (Search.Graph.walk_acyclic _ walked path)

end Turns

section Least
variable {α β : Type} [LinearOrder β] {r : α → α → Prop} [DecidableRel r] {key : α → β} {items items' : List α}

/-- Where the items are ordered by a key, the sorted list starts with a least one. -/
theorem first_least (by_key : ∀ a ∈ items, ∀ b ∈ items, (r a b ↔ key a ≤ key b)) {first : α} {rest : List α}
    (sorted : items.insertionSort r = first :: rest) : ∀ a ∈ items, key first ≤ key a := by
  induction items generalizing first rest with
  | nil => cases sorted
  | cons a items ih =>
    have others {b : α} {later : List α} (tail : items.insertionSort r = b :: later) : ∀ x ∈ items, key b ≤ key x :=
      ih (fun x inside y inside' => by_key x (List.mem_cons_of_mem _ inside) y (List.mem_cons_of_mem _ inside')) tail
    rw [List.insertionSort_cons] at sorted
    cases tail : items.insertionSort r with
    | nil =>
      rw [tail] at sorted
      cases sorted
      have none_ : items = [] := List.eq_nil_of_length_eq_zero (by rw [← List.length_insertionSort r,tail]; rfl)
      rw [none_]
      exact List.forall_mem_cons.mpr ⟨le_refl _,fun _ none_ => absurd none_ List.not_mem_nil⟩
    | cons b later =>
      have listed : b ∈ items := (List.mem_insertionSort r).mp (tail ▸ List.mem_cons_self)
      have order := by_key a List.mem_cons_self b (List.mem_cons_of_mem _ listed)
      rw [tail,List.orderedInsert_cons] at sorted
      split at sorted
      next before =>
        cases sorted
        exact List.forall_mem_cons.mpr ⟨le_refl _,fun x inside => (order.mp before).trans (others tail x inside)⟩
      next after =>
        cases sorted
        exact List.forall_mem_cons.mpr ⟨le_of_not_ge fun le => after (order.mpr le),others tail⟩

theorem first_perm (perm : items'.Perm items) (by_key : ∀ a ∈ items, ∀ b ∈ items, (r a b ↔ key a ≤ key b))
    (apart : ∀ a ∈ items, ∀ b ∈ items, key a = key b → a = b) :
    (items'.insertionSort r).head? = (items.insertionSort r).head? := by
  have by_key' : ∀ a ∈ items', ∀ b ∈ items', (r a b ↔ key a ≤ key b) :=
    fun a inside b inside' => by_key a (perm.subset inside) b (perm.subset inside')
  cases sorted : items.insertionSort r with
  | nil =>
    have none_ : items = [] := List.eq_nil_of_length_eq_zero (by rw [← List.length_insertionSort r,sorted]; rfl)
    rw [none_] at perm
    rw [perm.eq_nil]
    rfl
  | cons first rest =>
    have listed : first ∈ items := (List.mem_insertionSort r).mp (sorted ▸ List.mem_cons_self)
    cases sorted' : items'.insertionSort r with
    | nil =>
      have none_ : items' = [] := List.eq_nil_of_length_eq_zero (by rw [← List.length_insertionSort r,sorted']; rfl)
      rw [none_] at perm
      rw [perm.symm.eq_nil] at listed
      cases listed
    | cons first' rest' =>
      have listed' : first' ∈ items' := (List.mem_insertionSort r).mp (sorted' ▸ List.mem_cons_self)
      have same := le_antisymm (first_least by_key' sorted' first (perm.symm.subset listed))
        (first_least by_key sorted first' (perm.subset listed'))
      exact congrArg some (apart _ (perm.subset listed') _ listed same)

end Least

section Order
variable {registry registry' : Registry} {caps : List String} {root : Root}

/-- The versions of each package are read, and no two of one package have the same text. -/
def Readable (registry : Registry) : Prop := ∀ pkg versions, registry.get? pkg = some versions →
  (versions.map RegistryVersion.version).Nodup ∧ ∀ rv ∈ versions, ∃ version, Version.parse rv.version = some version

/-- The packages are the same, with their versions in any order. -/
def Shuffled (registry registry' : Registry) : Prop := ∀ pkg, Option.Rel List.Perm (registry'.get? pkg) (registry.get? pkg)

/-- Higher versions have lower keys. -/
def candidateKey (c : Candidate) := toLex (OrderDual.toDual (precedence c.2),c.1.version)

theorem precedes_iff {a b : Candidate} (valid : Valid a.2.pre) (valid' : Valid b.2.pre) :
    precedes a b ↔ candidateKey a ≤ candidateKey b := by
  have order : ((b.2.cmp a.2).then (compare a.1.version b.1.version)).Compares (candidateKey a) (candidateKey b) := by
    have first : (b.2.cmp a.2).Compares (OrderDual.toDual (precedence a.2)) (OrderDual.toDual (precedence b.2)) :=
      toDual_compares_toDual.mpr (cmp_compares valid' valid)
    rw [← (compare_iff _ _).mpr first]
    exact then_compares (compare_compares a.1.version b.1.version)
  unfold precedes
  cases is : (b.2.cmp a.2).then (compare a.1.version b.1.version) with
  | lt => rw [is] at order; exact iff_of_true nofun (le_of_lt order)
  | eq => rw [is] at order; exact iff_of_true nofun (le_of_eq order)
  | gt => rw [is] at order; exact iff_of_false (fun wrong => wrong rfl) (not_le_of_gt order)

def parsed (rv : RegistryVersion) : Candidate := (rv,(Version.parse rv.version).getD (release 0 0 0))

theorem parseUsable_eq {pkg : String} {versions : List RegistryVersion}
    (read : ∀ rv ∈ versions, ∃ version, Version.parse rv.version = some version) : parseUsable caps pkg versions =
      .ok ((versions.filter (isUsable caps)).map parsed) := by
  have each : ∀ rv ∈ versions.filter (isUsable caps), ∃ version, Version.parse rv.version = some version :=
    fun rv member => read rv (List.mem_of_mem_filter member)
  unfold parseUsable
  revert each
  generalize versions.filter (isUsable caps) = usable
  intro each
  induction usable with
  | nil => rfl
  | cons rv usable ih =>
    obtain ⟨⟨version,is⟩,others⟩ := List.forall_mem_cons.mp each
    rw [List.mapM_cons,ih others,parseVersion,is,List.map_cons,parsed,is]
    rfl

theorem candidate_valid {versions : List RegistryVersion} (read : ∀ rv ∈ versions, ∃ version, Version.parse rv.version = some version) :
    ∀ c ∈ (versions.filter (isUsable caps)).map parsed, Valid c.2.pre := by
  intro c member
  obtain ⟨rv,inside,rfl⟩ := List.mem_map.mp member
  obtain ⟨version,is⟩ := read rv (List.mem_of_mem_filter inside)
  rw [parsed,is]
  exact parse_valid is

theorem candidate_inj {versions : List RegistryVersion} (distinct : (versions.map RegistryVersion.version).Nodup) :
    ∀ a ∈ (versions.filter (isUsable caps)).map parsed, ∀ b ∈ (versions.filter (isUsable caps)).map parsed,
      candidateKey a = candidateKey b → a = b := by
  intro a inside b inside' same
  obtain ⟨rv,member,rfl⟩ := List.mem_map.mp inside
  obtain ⟨rv',member',rfl⟩ := List.mem_map.mp inside'
  have text : rv.version = rv'.version := congrArg Prod.snd (toLex.injective same)
  rw [List.inj_on_of_nodup_map distinct (List.mem_of_mem_filter member) (List.mem_of_mem_filter member') text]

def pickFirst (refusal : ResolveError) : List Candidate → Except ResolveError RegistryVersion
  | [] => .error refusal
  | pick :: _ => .ok pick.1

theorem pickFirst_head {cs cs' : List Candidate} {e e' : ResolveError} (heads : cs'.head? = cs.head?) (same : e' = e) :
    pickFirst e' cs' = pickFirst e cs := by
  subst same
  cases cs <;> cases cs' <;> cases heads <;> rfl

theorem pickVersion_shuffled (shuffled : Shuffled registry registry') (readable : Readable registry) (ranges : Ranges) (pkg : String) :
    pickVersion registry' caps ranges pkg = pickVersion registry caps ranges pkg := by
  unfold pickVersion
  have related := shuffled pkg
  cases found : registry.get? pkg with
  | none =>
    rw [found] at related
    cases related' : registry'.get? pkg with
    | none => rfl
    | some versions' => rw [related'] at related; cases related
  | some versions =>
    rw [found] at related
    cases found' : registry'.get? pkg with
    | none => rw [found'] at related; cases related
    | some versions' =>
      rw [found'] at related
      cases related with
      | some perm =>
        obtain ⟨distinct,read⟩ := readable pkg versions found
        have usable : ((versions'.filter (isUsable caps)).map parsed).Perm ((versions.filter (isUsable caps)).map parsed) :=
          (perm.filter _).map _
        dsimp only
        rw [parseUsable_eq read,parseUsable_eq fun rv member => read rv (perm.subset member)]
        cases (((ranges.get? pkg).getD ∅).rows).mapM (parseRange pkg) with
        | error e => rfl
        | ok ranges' =>
          have least := @first_perm _ _ _ precedes _ candidateKey _ _ (usable.filter fun c => ranges'.all (·.satisfies c.2))
            (fun a inside b inside' => precedes_iff (candidate_valid read a (List.mem_of_mem_filter inside))
              (candidate_valid read b (List.mem_of_mem_filter inside')))
            fun a inside b inside' same => candidate_inj distinct a (List.mem_of_mem_filter inside) b (List.mem_of_mem_filter inside') same
          have refusal : noCandidate pkg ((ranges.get? pkg).getD ∅).rows ranges' ((versions'.filter (isUsable caps)).map parsed) =
              noCandidate pkg ((ranges.get? pkg).getD ∅).rows ranges' ((versions.filter (isUsable caps)).map parsed) := by
            unfold noCandidate
            simp only [usable.any_eq]
          show pickFirst _ _ = pickFirst _ _
          exact pickFirst_head least refusal

theorem visit_shuffled (same : ∀ ranges pkg, pickVersion registry' caps ranges pkg = pickVersion registry caps ranges pkg)
    (pass : Pass) (queue : List String) : visit registry' caps pass queue = visit registry caps pass queue := by
  fun_induction visit registry caps pass queue with
  | case1 pass => rw [visit]
  | case2 pass pkg queue seen ih => rw [visit,if_pos seen,ih]
  | case3 pass pkg queue fresh e failed =>
    rw [visit,if_neg fresh]
    split
    next e' failed' => rw [same,failed] at failed'; cases failed'; rfl
    next pick picked => rw [same,failed] at picked; cases picked
  | case4 pass pkg queue fresh pick picked ih =>
    rw [visit,if_neg fresh]
    split
    next e failed => rw [same,picked] at failed; cases failed
    next pick' picked' => rw [same,picked] at picked'; cases picked'; exact ih

theorem closure_shuffled (same : ∀ ranges pkg, pickVersion registry' caps ranges pkg = pickVersion registry caps ranges pkg)
    (ranges : Ranges) : closure registry' root caps ranges = closure registry root caps ranges := by
  fun_induction closure registry root caps ranges with
  | case1 ranges e failed =>
    rw [closure]
    split
    next e' failed' => rw [visit_shuffled same,failed] at failed'; cases failed'; rfl
    next pass visited => rw [visit_shuffled same,failed] at visited; cases visited
  | case2 ranges pass visited added ih =>
    rw [closure]
    split
    next e failed => rw [visit_shuffled same,visited] at failed; cases failed
    next pass' visited' =>
      rw [visit_shuffled same,visited] at visited'
      cases visited'
      rw [if_pos added,ih]
  | case3 ranges pass visited quiet =>
    rw [closure]
    split
    next e failed => rw [visit_shuffled same,visited] at failed; cases failed
    next pass' visited' =>
      rw [visit_shuffled same,visited] at visited'
      cases visited'
      rw [if_neg quiet]

theorem resolve_shuffled (shuffled : Shuffled registry registry') (readable : Readable registry) (pins : Option (Table String String)) :
    resolve registry' root caps pins = resolve registry root caps pins := by
  unfold resolve
  simp only [closure_shuffled (pickVersion_shuffled shuffled readable)]

/-- The resolver ends: the queue of a pass and the search for a cycle after some number of turns, the passes after no
more than there are ranges to record, each but the last recording one more; a cycle is found and reported. The order
of the packages' versions does not matter to what it gives. -/
theorem resolve_ends (registry : Registry) (root : Root) (caps : List String) :
    (∀ pass queue, ∃ turns, Loop.run (visitTurn registry caps) turns (pass,queue) = some (visit registry caps pass queue)) ∧
    (∀ ranges, Loop.run (passTurn registry root caps) ((askable registry).length + 1) ranges =
      some (closure registry root caps ranges)) ∧
    (∀ ranges pass, visit registry caps ⟨∅,ranges,false⟩ [root.package] = .ok pass → pass.added = true →
      (∀ dep by', asked ranges dep by' ≠ none → asked pass.ranges dep by' ≠ none) ∧
      ∃ x ∈ askable registry, asked ranges x.1 x.2 = none ∧ asked pass.ranges x.1 x.2 ≠ none) ∧
    (∀ picks, ∃ turns, Loop.run (walkTurn (requirements picks)) turns ([(root.package,false)],[],[]) =
      some ((requirements picks).walk (Search.Graph.start root.package))) ∧
    (∀ picks pkg, Relation.ReflTransGen (requirements picks).Edge root.package pkg → Relation.TransGen (requirements picks).Edge pkg pkg →
      ∃ cycle, checkCycle picks root.package = .error (.dependencyCycle cycle)) ∧
    ∀ registry' pins, Readable registry → Shuffled registry registry' →
      resolve registry' root caps pins = resolve registry root caps pins := by
  refine ⟨visit_turns,fun ranges => ?_,fun ranges pass visited added => ?_,
    fun picks => walk_turns (requirements picks) (Search.Graph.start root.package),fun _ _ => walk_cycle,
    fun registry' pins readable shuffled => resolve_shuffled shuffled readable pins⟩
  · have few : unrecorded registry ranges ≤ (askable registry).length := List.countP_le_length
    obtain ⟨more,total⟩ := Nat.exists_eq_add_of_le (Nat.succ_le_succ few)
    rw [Nat.succ_eq_add_one] at total
    rw [total]
    exact Loop.run_more (closure_passes ranges) more
  · obtain ⟨kept,grew⟩ := visit_grows visited
    exact ⟨fun dep by' some_ gone => some_ (kept dep by' gone),(grew added).resolve_left Bool.false_ne_true⟩

section Pair

def shuffledVersion (version : String) : RegistryVersion := ⟨version,.skill,.available,⟨[],∅⟩,[]⟩

def inOrder : Registry := Table.insert ∅ "a" [shuffledVersion "1.0.0",shuffledVersion "2.0.0"]

def outOfOrder : Registry := Table.insert ∅ "a" [shuffledVersion "2.0.0",shuffledVersion "1.0.0"]

theorem resolve_ends_pair : resolve outOfOrder ⟨"a","*"⟩ [] none = resolve inOrder ⟨"a","*"⟩ [] none := by
  refine (resolve_ends inOrder ⟨"a","*"⟩ []).2.2.2.2.2 outOfOrder none (fun pkg versions found => ?_) fun pkg => ?_
  · rw [inOrder,Table.get?_insert] at found
    split at found
    next =>
      cases found
      refine ⟨by decide,fun rv member => ?_⟩
      rcases List.mem_cons.mp member with rfl | later
      · exact ⟨⟨1,0,0,[]⟩,by decide⟩
      · rw [List.mem_singleton.mp later]
        exact ⟨⟨2,0,0,[]⟩,by decide⟩
    next => cases found
  · rw [inOrder,outOfOrder,Table.get?_insert,Table.get?_insert]
    split_ifs
    · exact .some (.swap _ _ _)
    · exact .none

end Pair

end Order

end Entorhinal.Resolver
