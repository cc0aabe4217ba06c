import Mathlib.Data.List.Forall2
import Mathlib.Data.List.Lex
import Entorhinal.Traverse
import Entorhinal.Semver

/-! What a range means. A comparator is an operator with the numbers it was given, and an alternative
admits what each of its comparators does; the bounds the code keeps say the same. -/
namespace Entorhinal.Semver

section Meaning

/-- A comparator as it is written. -/
inductive Comparator
  | any
  | of (op : Operator) (given : List Nat) (pre : List String)

def Version.triple (v : Version) : List Nat := [v.major,v.minor,v.patch]

def zeroFill (given : List Nat) : List Nat := (given ++ [0,0,0]).take 3

/-- The versions that begin as given. -/
def Block (given version : List Nat) : Prop := version.length = 3 ∧ given <+: version

/-- The given numbers up to the first that is not zero. -/
def leading : List Nat → List Nat
  | [] => []
  | 0 :: rest => 0 :: leading rest
  | n :: _ => [n]

/-- What a comparator asks of the numbers of a release. -/
def Comparator.Holds (version : List Nat) : Comparator → Prop
  | .any => True
  | .of .caret given _ => zeroFill given ≤ version ∧ leading given <+: version
  | .of .tilde given _ => zeroFill given ≤ version ∧ given.take 2 <+: version
  | .of .bare given pre => given <+: version ∧ pre = []
  | .of .equals given pre => given <+: version ∧ pre = []
  | .of .atLeast given _ => zeroFill given ≤ version
  | .of .below given _ => version < zeroFill given
  | .of .above given _ => ∀ inside, Block given inside → inside < version
  | .of .atMost given _ => ¬ ∀ inside, Block given inside → inside < version

/-- A prerelease is admitted by the one comparator that names it, a release by all. -/
def Admits (alternative : List Comparator) (v : Version) : Prop :=
  if v.pre = [] then ∀ c ∈ alternative, c.Holds v.triple
  else ∃ op, (op = .bare ∨ op = .equals) ∧ alternative = [.of op v.triple v.pre]

def Comparator.read (text : List Char) : Option Comparator :=
  if text = ['*'] then some .any
  else
    let (op,rest) := operator text
    (parsePartial rest).map fun (v,count) => .of op (v.triple.take count) v.pre

def alternatives (text : String) : Option (List (List Comparator)) :=
  (splitBars text.toList).mapM fun set => (splitWhitespace set).mapM Comparator.read

/-- The numbers whose successors the bounds hold. -/
def Comparator.given : Comparator → List Nat
  | .any => []
  | .of _ given _ => given

end Meaning

section Order
variable {a b c x y z : Nat}

theorem triple_lt : [a,b,c] < [x,y,z] ↔ a < x ∨ (a = x ∧ (b < y ∨ (b = y ∧ c < z))) := by
  simp only [List.cons_lt_cons_iff,List.not_lt_nil,and_false,or_false]

theorem triple_le : [a,b,c] ≤ [x,y,z] ↔ ¬ (x < a ∨ (x = a ∧ (y < b ∨ (y = b ∧ z < c)))) := by
  rw [← triple_lt,not_lt]

theorem release_cmp : (release a b c).cmp (release x y z) =
    (compare a x).then ((compare b y).then (compare c z)) := by
  unfold Version.cmp release
  cases compare a x <;> cases compare b y <;> cases compare c z <;> rfl

theorem cmp_lt : (release a b c).cmp (release x y z) = .lt ↔ [a,b,c] < [x,y,z] := by
  rw [release_cmp,triple_lt]
  simp only [Ordering.then_eq_lt,compare_lt_iff_lt,compare_eq_iff_eq]

theorem cmp_gt : (release a b c).cmp (release x y z) = .gt ↔ [x,y,z] < [a,b,c] := by
  rw [release_cmp,triple_lt]
  simp only [Ordering.then_eq_gt,compare_gt_iff_gt,compare_eq_iff_eq,@eq_comm _ x,@eq_comm _ y]

theorem release_inj : release a b c = release x y z ↔ a = x ∧ b = y ∧ c = z := by
  simp only [release,Version.mk.injEq,and_true]

theorem lower_admits (inclusive : Bool) : ((release x y z).cmp (release a b c) == .gt ||
    (inclusive && release x y z == release a b c)) = true ↔
      if inclusive then [a,b,c] ≤ [x,y,z] else [a,b,c] < [x,y,z] := by
  rw [Bool.or_eq_true,beq_iff_eq,cmp_gt,Bool.and_eq_true,beq_iff_eq,release_inj]
  cases inclusive
  · rw [if_neg Bool.false_ne_true]
    exact ⟨fun either => either.resolve_right fun wrong => absurd wrong.1 Bool.false_ne_true,.inl⟩
  · rw [if_pos rfl,triple_lt,triple_le,eq_self_iff_true,true_and]
    omega

theorem upper_admits (inclusive : Bool) : ((release x y z).cmp (release a b c) == .lt ||
    (inclusive && release x y z == release a b c)) = true ↔
      if inclusive then [x,y,z] ≤ [a,b,c] else [x,y,z] < [a,b,c] := by
  rw [Bool.or_eq_true,beq_iff_eq,cmp_lt,Bool.and_eq_true,beq_iff_eq,release_inj]
  cases inclusive
  · rw [if_neg Bool.false_ne_true]
    exact ⟨fun either => either.resolve_right fun wrong => absurd wrong.1 Bool.false_ne_true,.inl⟩
  · rw [if_pos rfl,triple_lt,triple_le,eq_self_iff_true,true_and]
    omega

theorem halfOpen_admits (a b c d e f x y z : Nat) :
    (interval (some (release a b c)) true (some (release d e f)) false).admits (release x y z) = true ↔
      [a,b,c] ≤ [x,y,z] ∧ [x,y,z] < [d,e,f] := by
  refine Iff.trans ?_ (and_congr (lower_admits true) (upper_admits false))
  rw [← Bool.and_eq_true]
  rfl

theorem from_admits (high : Bool) (a b c x y z : Nat) :
    (interval (some (release a b c)) true none high).admits (release x y z) = true ↔ [a,b,c] ≤ [x,y,z] := by
  refine Iff.trans ?_ (lower_admits true)
  rw [← Bool.and_true (_ || _)]
  rfl

theorem above_admits (high : Bool) (a b c x y z : Nat) :
    (interval (some (release a b c)) false none high).admits (release x y z) = true ↔ [a,b,c] < [x,y,z] := by
  refine Iff.trans ?_ (lower_admits false)
  rw [← Bool.and_true (_ || _)]
  rfl

theorem upTo_admits (low : Bool) (a b c x y z : Nat) :
    (interval none low (some (release a b c)) true).admits (release x y z) = true ↔ [x,y,z] ≤ [a,b,c] :=
  upper_admits true

theorem below_admits (low : Bool) (a b c x y z : Nat) :
    (interval none low (some (release a b c)) false).admits (release x y z) = true ↔ [x,y,z] < [a,b,c] :=
  upper_admits false

end Order

section Blocks
variable {a b c x y z : Nat}

theorem begins_one : [a] <+: [x,y,z] ↔ a = x := by
  simp only [List.cons_prefix_cons,List.nil_prefix,and_true]

theorem begins_two : [a,b] <+: [x,y,z] ↔ a = x ∧ b = y := by
  simp only [List.cons_prefix_cons,List.nil_prefix,and_true]

theorem begins_three : [a,b,c] <+: [x,y,z] ↔ a = x ∧ b = y ∧ c = z := by
  simp only [List.cons_prefix_cons,List.nil_prefix,and_true]

theorem block_triple {given inside : List Nat} (block : Block given inside) : ∃ x y z, inside = [x,y,z] ∧ given <+: [x,y,z] := by
  obtain ⟨x,y,z,rfl⟩ := List.length_eq_three.mp block.1
  exact ⟨x,y,z,rfl,block.2⟩

/-- A version is above a block when it is above the next one's start or past it. -/
theorem above_one : (∀ inside, Block [a] inside → inside < [x,y,z]) ↔ a < x := by
  constructor
  · intro all
    have last := triple_lt.mp (all [a,y,z] ⟨rfl,begins_one.mpr rfl⟩)
    omega
  · intro less inside block
    obtain ⟨u,v,w,rfl,begins⟩ := block_triple block
    rw [begins_one] at begins
    exact triple_lt.mpr (.inl (begins ▸ less))

theorem above_two : (∀ inside, Block [a,b] inside → inside < [x,y,z]) ↔ a < x ∨ (a = x ∧ b < y) := by
  constructor
  · intro all
    have last := triple_lt.mp (all [a,b,z] ⟨rfl,begins_two.mpr ⟨rfl,rfl⟩⟩)
    omega
  · intro less inside block
    obtain ⟨u,v,w,rfl,begins⟩ := block_triple block
    rw [begins_two] at begins
    rw [triple_lt]
    omega

theorem above_three : (∀ inside, Block [a,b,c] inside → inside < [x,y,z]) ↔ [a,b,c] < [x,y,z] := by
  constructor
  · exact fun all => all [a,b,c] ⟨rfl,List.prefix_rfl⟩
  · intro less inside block
    obtain ⟨u,v,w,rfl,begins⟩ := block_triple block
    rw [begins_three] at begins
    obtain ⟨rfl,rfl,rfl⟩ := begins
    exact less

end Blocks

section Read

theorem numeric_small {text : List Char} {n : Nat} (read : numeric text = some n) : n ≤ maxSafeInteger := by
  unfold numeric at read
  split at read
  next => cases read
  next =>
    dsimp only at read
    split_ifs at read with small
    cases read
    exact small

theorem numbers_small {parts : List (List Char)} {nums : List Nat}
    (pairs : List.Forall₂ (fun part n => numeric part = some n) parts nums) : ∀ n ∈ nums, n ≤ maxSafeInteger := by
  induction pairs with
  | nil => exact fun _ member => absurd member List.not_mem_nil
  | cons first _ ih => exact List.forall_mem_cons.mpr ⟨numeric_small first,ih⟩

/-- What was given is one to three numbers that a double holds, with identifiers only after three. -/
theorem partial_cases {text : List Char} {v : Version} {count : Nat} (read : parsePartial text = some (v,count)) :
    (v.major ≤ maxSafeInteger ∧ v.minor ≤ maxSafeInteger ∧ v.patch ≤ maxSafeInteger) ∧
    ((count = 1 ∧ v = release v.major 0 0) ∨ (count = 2 ∧ v = release v.major v.minor 0) ∨ count = 3) := by
  unfold parsePartial at read
  dsimp only at read
  split at read
  next => cases read
  next nums numbers =>
    split_ifs at read with shape invalid
    obtain ⟨rfl,rfl⟩ := Prod.mk.inj (Option.some.inj read)
    have small := numbers_small (mapM_pairs numbers)
    simp only [Bool.or_eq_true,not_or,decide_eq_true_eq,not_lt] at shape
    obtain ⟨⟨some_,long⟩,whole⟩ := shape
    have whole : nums.length ≠ 3 → splitOnce '-' text = none := fun other => by
      cases cut : splitOnce '-' text with
      | none => rfl
      | some halves =>
        rw [cut,Option.isSome_some,Bool.true_and,bne_iff_ne] at whole
        exact absurd other whole
    match nums,some_,long with
    | [a],_,_ =>
      rw [whole (by simp)]
      exact ⟨⟨small a (.head _),Nat.zero_le _,Nat.zero_le _⟩,.inl ⟨rfl,rfl⟩⟩
    | [a,b],_,_ =>
      rw [whole (by simp)]
      exact ⟨⟨small a (.head _),small b (.tail _ (.head _)),Nat.zero_le _⟩,.inr (.inl ⟨rfl,rfl⟩)⟩
    | [a,b,c],_,_ =>
      exact ⟨⟨small a (.head _),small b (.tail _ (.head _)),small c (.tail _ (.tail _ (.head _)))⟩,.inr (.inr rfl)⟩

end Read

section Bounds

/-- The bound of an operator and its version. -/
def bound (op : Operator) (lo : Version) (given : Nat) : Bound :=
  let next := if given = 1 then release (lo.major + 1) 0 0 else release lo.major (lo.minor + 1) 0
  match op with
  | .bare | .equals =>
    if given = 3 then { interval none true none false with exact := some lo }
    else interval (some lo) true (some next) false
  | .caret =>
    let hi :=
      if 0 < lo.major ∨ given = 1 then release (lo.major + 1) 0 0
      else if 0 < lo.minor ∨ given = 2 then release 0 (lo.minor + 1) 0
      else release 0 0 (lo.patch + 1)
    interval (some lo) true (some hi) false
  | .tilde => interval (some lo) true (some next) false
  | .atLeast => interval (some lo) true none false
  | .above => interval (some (if given = 3 then lo else next)) (given != 3) none false
  | .below => interval none true (some lo) false
  | .atMost => interval none true (some (if given = 3 then lo else next)) (given == 3)

/-- A release of the numbers given. -/
inductive Given : Version → Nat → Prop
  | one (a : Nat) : Given (release a 0 0) 1
  | two (a b : Nat) : Given (release a b 0) 2
  | three (a b c : Nat) : Given (release a b c) 3

variable {lo : Version} {count : Nat} {pre : List String}

theorem leading_zero (rest : List Nat) : leading (0 :: rest) = 0 :: leading rest := by
  rw [leading]

theorem leading_pos {n : Nat} (pos : 0 < n) (rest : List Nat) : leading (n :: rest) = [n] := by
  obtain ⟨m,rfl⟩ := Nat.exists_eq_add_one_of_ne_zero pos.ne'
  rfl

theorem caret_major {a b c count : Nat} (first : 0 < a ∨ count = 1) (x y z : Nat) :
    (bound .caret (release a b c) count).admits (release x y z) = true ↔ [a,b,c] ≤ [x,y,z] ∧ [a] <+: [x,y,z] := by
  have is : bound .caret (release a b c) count = interval (some (release a b c)) true (some (release (a + 1) 0 0)) false :=
    congrArg (fun hi => interval (some (release a b c)) true (some hi) false) (if_pos first)
  rw [is]
  refine (halfOpen_admits a b c (a + 1) 0 0 x y z).trans (and_congr_right fun low => ?_)
  rw [triple_le] at low
  rw [triple_lt,begins_one]
  omega

theorem caret_minor {b c count : Nat} (second : 0 < b ∨ count = 2) (more : count ≠ 1) (x y z : Nat) :
    (bound .caret (release 0 b c) count).admits (release x y z) = true ↔ [0,b,c] ≤ [x,y,z] ∧ [0,b] <+: [x,y,z] := by
  have later : ¬ (0 < 0 ∨ count = 1) := not_or.mpr ⟨Nat.lt_irrefl 0,more⟩
  have is : bound .caret (release 0 b c) count = interval (some (release 0 b c)) true (some (release 0 (b + 1) 0)) false :=
    congrArg (fun hi => interval (some (release 0 b c)) true (some hi) false) ((if_neg later).trans (if_pos second))
  rw [is]
  refine (halfOpen_admits 0 b c 0 (b + 1) 0 x y z).trans (and_congr_right fun low => ?_)
  rw [triple_le] at low
  rw [triple_lt,begins_two]
  omega

/-- Up to the first number that is not zero nothing may differ. -/
theorem caret_admits (given : Given lo count) (x y z : Nat) : (bound .caret lo count).admits (release x y z) = true ↔
    (Comparator.of .caret (lo.triple.take count) pre).Holds [x,y,z] := by
  cases given with
  | one a =>
    refine (caret_major (.inr rfl) x y z).trans (and_congr_right fun _ => ?_)
    show _ ↔ leading [a] <+: _
    rcases Nat.eq_zero_or_pos a with rfl | pos
    · rfl
    · rw [leading_pos pos]
  | two a b =>
    show _ ↔ [a,b,0] ≤ [x,y,z] ∧ leading [a,b] <+: [x,y,z]
    rcases Nat.eq_zero_or_pos a with rfl | pos
    · refine (caret_minor (.inr rfl) (by decide) x y z).trans (and_congr_right fun _ => ?_)
      rcases Nat.eq_zero_or_pos b with rfl | pos
      · rfl
      · rw [leading_zero,leading_pos pos]
    · rw [leading_pos pos]
      exact caret_major (.inl pos) x y z
  | three a b c =>
    show _ ↔ [a,b,c] ≤ [x,y,z] ∧ leading [a,b,c] <+: [x,y,z]
    rcases Nat.eq_zero_or_pos a with rfl | pos
    · rcases Nat.eq_zero_or_pos b with rfl | pos
      · have all : leading [0,0,c] = [0,0,c] := by
          rw [leading_zero,leading_zero]
          rcases Nat.eq_zero_or_pos c with rfl | pos
          · rfl
          · rw [leading_pos pos]
        rw [all]
        refine (halfOpen_admits 0 0 c 0 0 (c + 1) x y z).trans (and_congr_right fun low => ?_)
        rw [triple_le] at low
        rw [triple_lt,begins_three]
        omega
      · rw [leading_zero,leading_pos pos]
        exact caret_minor (.inl pos) (by decide) x y z
    · rw [leading_pos pos]
      exact caret_major (.inl pos) x y z

theorem tilde_admits (given : Given lo count) (x y z : Nat) : (bound .tilde lo count).admits (release x y z) = true ↔
    (Comparator.of .tilde (lo.triple.take count) pre).Holds [x,y,z] := by
  cases given with
  | one a =>
    refine (halfOpen_admits a 0 0 (a + 1) 0 0 x y z).trans (and_congr_right fun low => ?_)
    rw [triple_le] at low
    refine Iff.trans ?_ (begins_one (a := a)).symm
    rw [triple_lt]
    omega
  | two a b =>
    refine (halfOpen_admits a b 0 a (b + 1) 0 x y z).trans (and_congr_right fun low => ?_)
    rw [triple_le] at low
    refine Iff.trans ?_ (begins_two (a := a) (b := b)).symm
    rw [triple_lt]
    omega
  | three a b c =>
    refine (halfOpen_admits a b c a (b + 1) 0 x y z).trans (and_congr_right fun low => ?_)
    rw [triple_le] at low
    refine Iff.trans ?_ (begins_two (a := a) (b := b)).symm
    rw [triple_lt]
    omega

theorem same_admits (given : Given lo count) {op : Operator} (same : op = .bare ∨ op = .equals) (x y z : Nat) :
    (bound op lo count).admits (release x y z) = true ↔ lo.triple.take count <+: [x,y,z] := by
  have is : bound op lo count = bound .bare lo count := by
    rcases same with rfl | rfl <;> rfl
  rw [is]
  cases given with
  | one a =>
    refine (halfOpen_admits a 0 0 (a + 1) 0 0 x y z).trans (Iff.trans ?_ (begins_one (a := a)).symm)
    rw [triple_lt,triple_le]
    omega
  | two a b =>
    refine (halfOpen_admits a b 0 a (b + 1) 0 x y z).trans (Iff.trans ?_ (begins_two (a := a) (b := b)).symm)
    rw [triple_lt,triple_le]
    omega
  | three a b c =>
    show (release x y z == release a b c) = true ↔ [a,b,c] <+: [x,y,z]
    rw [beq_iff_eq,release_inj,begins_three]
    omega

theorem atLeast_admits (given : Given lo count) (x y z : Nat) : (bound .atLeast lo count).admits (release x y z) = true ↔
    (Comparator.of .atLeast (lo.triple.take count) pre).Holds [x,y,z] := by
  cases given <;> exact from_admits false _ _ _ x y z

theorem less_admits (given : Given lo count) (x y z : Nat) : (bound .below lo count).admits (release x y z) = true ↔
    (Comparator.of .below (lo.triple.take count) pre).Holds [x,y,z] := by
  cases given <;> exact below_admits true _ _ _ x y z

theorem greater_admits (given : Given lo count) (x y z : Nat) : (bound .above lo count).admits (release x y z) = true ↔
    ∀ inside, Block (lo.triple.take count) inside → inside < [x,y,z] := by
  cases given with
  | one a =>
    refine (from_admits false (a + 1) 0 0 x y z).trans (Iff.trans ?_ (above_one (a := a)).symm)
    rw [triple_le]
    omega
  | two a b =>
    refine (from_admits false a (b + 1) 0 x y z).trans (Iff.trans ?_ (above_two (a := a) (b := b)).symm)
    rw [triple_le]
    omega
  | three a b c => exact (above_admits false a b c x y z).trans above_three.symm

theorem atMost_admits (given : Given lo count) (x y z : Nat) : (bound .atMost lo count).admits (release x y z) = true ↔
    ¬ ∀ inside, Block (lo.triple.take count) inside → inside < [x,y,z] := by
  cases given with
  | one a =>
    refine (below_admits true (a + 1) 0 0 x y z).trans (Iff.trans ?_ (not_congr (above_one (a := a)).symm))
    rw [triple_lt]
    omega
  | two a b =>
    refine (below_admits true a (b + 1) 0 x y z).trans (Iff.trans ?_ (not_congr (above_two (a := a) (b := b)).symm))
    rw [triple_lt]
    omega
  | three a b c =>
    refine (upTo_admits true a b c x y z).trans (Iff.trans ?_ (not_congr (above_three (a := a) (b := b) (c := c)).symm))
    rw [not_lt]

structure Fits (v : Version) : Prop where
  major : v.major < 2 ^ 64
  minor : v.minor < 2 ^ 64
  patch : v.patch < 2 ^ 64

def BoundFits (b : Bound) : Prop := ∀ v, b.lo = some v ∨ b.hi = some v ∨ b.exact = some v → Fits v

/-- A bound says what its comparator does, and holds no number past the machine's. -/
structure Agrees (b : Bound) (c : Comparator) : Prop where
  releases : ∀ x y z, b.admits (release x y z) = true ↔ c.Holds [x,y,z]
  named : ∀ v : Version, v.pre ≠ [] → (b.exact = some v ↔ ∃ op, (op = .bare ∨ op = .equals) ∧ c = .of op v.triple v.pre)
  fits : BoundFits b
  given : ∀ n ∈ c.given, n + 1 < 2 ^ 64

theorem comparator_bound {text : List Char} {b : Bound} (read : comparator text = some b) :
    (text = ['*'] ∧ b = interval none true none false) ∨ (text ≠ ['*'] ∧
      ∃ lo count, parsePartial (operator text).2 = some (lo,count) ∧
        (lo.pre ≠ [] → (operator text).1 = .bare ∨ (operator text).1 = .equals) ∧ b = bound (operator text).1 lo count) := by
  unfold comparator at read
  split_ifs at read with star
  · exact .inl ⟨star,(Option.some.inj read).symm⟩
  · refine .inr ⟨star,?_⟩
    generalize operator text = split at read ⊢
    obtain ⟨op,rest⟩ := split
    dsimp only at read ⊢
    split at read
    next => cases read
    next lo count found =>
      by_cases refused : lo.pre ≠ [] ∧ op ≠ .bare ∧ op ≠ .equals
      · rw [if_pos refused] at read
        cases read
      · rw [if_neg refused] at read
        refine ⟨lo,count,found,fun pre => ?_,(Option.some.inj read).symm⟩
        by_contra neither
        exact refused ⟨pre,not_or.mp neither⟩

theorem bound_admits (given : Given lo count) (op : Operator) (x y z : Nat) :
    (bound op lo count).admits (release x y z) = true ↔ (Comparator.of op (lo.triple.take count) []).Holds [x,y,z] := by
  cases op with
  | atLeast => exact atLeast_admits given x y z
  | atMost => exact atMost_admits given x y z
  | caret => exact caret_admits given x y z
  | tilde => exact tilde_admits given x y z
  | above => exact greater_admits given x y z
  | below => exact less_admits given x y z
  | equals => exact (same_admits given (.inr rfl) x y z).trans (and_iff_left rfl).symm
  | bare => exact (same_admits given (.inl rfl) x y z).trans (and_iff_left rfl).symm

theorem release_fits {a b c : Nat} (major : a ≤ maxSafeInteger + 1) (minor : b ≤ maxSafeInteger + 1)
    (patch : c ≤ maxSafeInteger + 1) : Fits (release a b c) := by
  have room : maxSafeInteger + 1 < 2 ^ 64 := by decide
  exact ⟨major.trans_lt room,minor.trans_lt room,patch.trans_lt room⟩

theorem some_fits {w : Version} (fits : Fits w) : ∀ v, some w = some v → Fits v := fun _ is => Option.some.inj is ▸ fits

theorem none_fits : ∀ v, none = some v → Fits v := fun _ wrong => nomatch wrong

theorem interval_fits {lo hi : Option Version} {low high : Bool} (lower : ∀ v, lo = some v → Fits v)
    (upper : ∀ v, hi = some v → Fits v) : BoundFits (interval lo low hi high) := by
  rintro v (is | is | wrong)
  · exact lower v is
  · exact upper v is
  · cases wrong

/-- No bound is past the machine's numbers. -/
theorem bound_fits (small : lo.major ≤ maxSafeInteger ∧ lo.minor ≤ maxSafeInteger ∧ lo.patch ≤ maxSafeInteger)
    (op : Operator) (count : Nat) : BoundFits (bound op lo count) := by
  obtain ⟨major,minor,patch⟩ := small
  have room : maxSafeInteger < 2 ^ 64 := by decide
  have whole : Fits lo := ⟨major.trans_lt room,minor.trans_lt room,patch.trans_lt room⟩
  have next : Fits (if count = 1 then release (lo.major + 1) 0 0 else release lo.major (lo.minor + 1) 0) := by
    split_ifs
    · exact release_fits (by omega) (by omega) (by omega)
    · exact release_fits (by omega) (by omega) (by omega)
  have either : Fits (if count = 3 then lo else if count = 1 then release (lo.major + 1) 0 0 else release lo.major (lo.minor + 1) 0) := by
    split_ifs at next ⊢ <;> assumption
  have caret : Fits (if 0 < lo.major ∨ count = 1 then release (lo.major + 1) 0 0
      else if 0 < lo.minor ∨ count = 2 then release 0 (lo.minor + 1) 0 else release 0 0 (lo.patch + 1)) := by
    split_ifs
    · exact release_fits (by omega) (by omega) (by omega)
    · exact release_fits (by omega) (by omega) (by omega)
    · exact release_fits (by omega) (by omega) (by omega)
  have same : BoundFits (if count = 3 then { interval none true none false with exact := some lo }
      else interval (some lo) true (some (if count = 1 then release (lo.major + 1) 0 0 else release lo.major (lo.minor + 1) 0)) false) := by
    by_cases three : count = 3
    · rw [if_pos three]
      rintro v (wrong | wrong | is)
      · cases wrong
      · cases wrong
      · exact some_fits whole v is
    · rw [if_neg three]
      exact interval_fits (some_fits whole) (some_fits next)
  cases op with
  | bare => exact same
  | equals => exact same
  | caret => exact interval_fits (some_fits whole) (some_fits caret)
  | tilde => exact interval_fits (some_fits whole) (some_fits next)
  | atLeast => exact interval_fits (some_fits whole) none_fits
  | above => exact interval_fits (some_fits either) none_fits
  | below => exact interval_fits none_fits (some_fits whole)
  | atMost => exact interval_fits none_fits (some_fits either)

theorem given_of {text : List Char} (read : parsePartial text = some (lo,count)) (plain : lo.pre = []) : Given lo count := by
  obtain ⟨_,⟨rfl,is⟩ | ⟨rfl,is⟩ | rfl⟩ := partial_cases read
  · rw [is]
    exact .one _
  · rw [is]
    exact .two _ _
  · obtain ⟨a,b,c,ids⟩ := lo
    obtain rfl : ids = [] := plain
    exact .three a b c

theorem named_three {text : List Char} (read : parsePartial text = some (lo,count)) (some_ : lo.pre ≠ []) : count = 3 := by
  obtain ⟨_,⟨rfl,is⟩ | ⟨rfl,is⟩ | rfl⟩ := partial_cases read
  · exact absurd (congrArg Version.pre is) some_
  · exact absurd (congrArg Version.pre is) some_
  · rfl

theorem bound_exact {op : Operator} {v : Version} (exact_ : (bound op lo count).exact = some v) : lo = v := by
  have same (is : bound op lo count = if count = 3 then { interval none true none false with exact := some lo }
      else interval (some lo) true (some (if count = 1 then release (lo.major + 1) 0 0 else release lo.major (lo.minor + 1) 0)) false) :
      lo = v := by
    rw [is] at exact_
    split_ifs at exact_
    · exact Option.some.inj exact_
    all_goals cases exact_
  cases op with
  | bare => exact same rfl
  | equals => exact same rfl
  | caret => cases exact_
  | tilde => cases exact_
  | atLeast => cases exact_
  | above => cases exact_
  | below => cases exact_
  | atMost => cases exact_

theorem comparator_agrees {text : List Char} {b : Bound} (read : comparator text = some b) :
    ∃ c, Comparator.read text = some c ∧ Agrees b c := by
  unfold Comparator.read
  obtain ⟨star,rfl⟩ | ⟨star,lo,count,found,allowed,rfl⟩ := comparator_bound read
  · rw [if_pos star]
    refine ⟨.any,rfl,fun x y z => ⟨fun _ => trivial,fun _ => rfl⟩,fun v _ => ⟨nofun,fun ⟨_,_,wrong⟩ => nomatch wrong⟩,?_,?_⟩
    · rintro v (wrong | wrong | wrong) <;> cases wrong
    · exact fun _ none_ => absurd none_ List.not_mem_nil
  · rw [if_neg star]
    generalize operator text = split at found allowed ⊢
    obtain ⟨op,rest⟩ := split
    dsimp only at found allowed ⊢
    rw [found]
    have small := (partial_cases found).1
    have given : ∀ n ∈ lo.triple.take count, n + 1 < 2 ^ 64 := fun n member => by
      have room : maxSafeInteger + 1 < 2 ^ 64 := by decide
      rcases List.mem_cons.mp (List.mem_of_mem_take member) with rfl | member
      · omega
      rcases List.mem_cons.mp member with rfl | member
      · omega
      rw [List.mem_singleton.mp member]
      omega
    refine ⟨_,rfl,fun x y z => ?_,fun v pre => ?_,bound_fits small op count,given⟩
    · show _ ↔ (Comparator.of op (lo.triple.take count) lo.pre).Holds [x,y,z]
      by_cases plain : lo.pre = []
      · rw [plain]
        exact bound_admits (given_of found plain) op x y z
      · obtain rfl := named_three found plain
        have different : (release x y z == lo) = false := beq_eq_false_iff_ne.mpr fun same => plain (congrArg Version.pre same).symm
        rcases allowed plain with rfl | rfl
        · exact iff_of_false (fun admitted => Bool.false_ne_true (different.symm.trans admitted)) fun holds => plain holds.2
        · exact iff_of_false (fun admitted => Bool.false_ne_true (different.symm.trans admitted)) fun holds => plain holds.2
    · constructor
      · intro exact_
        obtain rfl := bound_exact exact_
        obtain rfl := named_three found pre
        exact ⟨op,allowed pre,rfl⟩
      · rintro ⟨op',same',is⟩
        obtain ⟨rfl,numbers,ids⟩ := Comparator.of.inj is
        obtain rfl := named_three found (ids ▸ pre)
        obtain ⟨a,b,c,ids'⟩ := lo
        obtain ⟨x,y,z,ids''⟩ := v
        obtain ⟨rfl,numbers⟩ := List.cons.inj numbers
        obtain ⟨rfl,numbers⟩ := List.cons.inj numbers
        obtain ⟨rfl,_⟩ := List.cons.inj numbers
        obtain rfl : ids' = ids'' := ids
        rcases same' with rfl | rfl <;> rfl

end Bounds

section Ranges

theorem parseSet_agrees {text : List Char} {set : List Bound} (read : parseSet text = some set) :
    ∃ comparators, (splitWhitespace text).mapM Comparator.read = some comparators ∧ List.Forall₂ Agrees set comparators := by
  unfold parseSet at read
  dsimp only at read
  split_ifs at read
  split at read
  next => cases read
  next set found =>
    split_ifs at read
    cases read
    exact read_pairs (fun _ _ => comparator_agrees) found

theorem set_admits {set : List Bound} {comparators : List Comparator} (agree : List.Forall₂ Agrees set comparators) (v : Version) :
    (if v.pre ≠ [] then set.length == 1 && (set.head?.bind (·.exact)) == some v else set.all (·.admits v)) = true ↔
      Admits comparators v := by
  unfold Admits
  by_cases plain : v.pre = []
  · rw [if_neg (not_not.mpr plain),if_pos plain]
    obtain ⟨x,y,z,ids⟩ := v
    obtain rfl : ids = [] := plain
    exact forall_pairs (fun b c agrees => agrees.releases x y z) agree
  · rw [if_pos plain,if_neg plain]
    cases agree with
    | nil =>
      refine ⟨nofun,fun ⟨_,_,wrong⟩ => nomatch wrong⟩
    | cons first rest =>
      rename_i b c set others
      cases rest with
      | nil =>
        rw [List.length_singleton,beq_self_eq_true,Bool.true_and,List.head?_cons,Option.bind_some,beq_iff_eq,first.named v plain]
        simp only [List.cons.injEq,and_true]
      | cons second rest =>
        refine ⟨fun wrong => ?_,fun ⟨_,_,wrong⟩ => nomatch wrong⟩
        cases wrong

/-- A range admits the versions that one of its alternatives does. -/
theorem range_semantics {text : String} {range : Range} (read : Range.parse text = some range) :
    ∃ sets, alternatives text = some sets ∧
      (∀ s v, Version.parse s = some v → (range.satisfies v = true ↔ ∃ set ∈ sets, Admits set v)) ∧
      (∀ set ∈ sets, ∀ c ∈ set, ∀ n ∈ c.given, n + 1 < 2 ^ 64) ∧
      ∀ set ∈ range, ∀ b ∈ set, BoundFits b := by
  obtain ⟨sets,found,agree⟩ := read_pairs (fun _ _ => parseSet_agrees) read
  have fits : (∀ set ∈ range, ∀ b ∈ set, BoundFits b) ∧ ∀ set ∈ sets, ∀ c ∈ set, ∀ n ∈ c.given, n + 1 < 2 ^ 64 :=
    paired (fun _ _ agrees => paired (fun _ _ same => ⟨same.fits,same.given⟩) agrees) agree
  exact ⟨sets,found,fun _ v _ => exists_pairs (fun _ _ agrees => set_admits agrees v) agree,fits.2,fits.1⟩

theorem range_semantics_caret : ∃ sets, alternatives "^0.2.3 <0.2.9 || >1" = some sets ∧
    ∃ set ∈ sets, Admits set (release 0 2 8) := by
  have read : Range.parse "^0.2.3 <0.2.9 || >1" = some [[interval (some (release 0 2 3)) true (some (release 0 3 0)) false,
      interval none true (some (release 0 2 9)) false],[interval (some (release 2 0 0)) true none false]] := by
    decide +kernel
  obtain ⟨sets,found,meaning,_⟩ := range_semantics read
  exact ⟨sets,found,(meaning "0.2.8" _ (by decide +kernel)).mp (by decide)⟩

end Ranges

end Entorhinal.Semver
