import Mathlib.Algebra.Order.Ring.Int
import Mathlib.Data.List.Basic
import Mathlib.Data.String.Basic
import Mathlib.Tactic.Common

/-! The catalog's versions and ranges, without build metadata. -/
namespace Entorhinal.Semver

def maxSafeInteger : Nat := 9007199254740991

structure Version where
  major : Nat
  minor : Nat
  patch : Nat
  pre : List String
deriving DecidableEq, Repr

def splitOnce (separator : Char) : List Char → Option (List Char × List Char)
  | [] => none
  | c :: rest =>
    if c = separator then some ([],rest)
    else (splitOnce separator rest).map fun parts => (c :: parts.1,parts.2)

theorem splitOnce_eq {separator : Char} {chars before after : List Char}
    (split : splitOnce separator chars = some (before,after)) : chars = before ++ separator :: after := by
  induction chars generalizing before with
  | nil => cases split
  | cons c chars ih =>
    rw [splitOnce] at split
    split at split
    next same =>
      obtain ⟨rfl,rfl⟩ := Prod.mk.inj (Option.some.inj split)
      rw [same]
      rfl
    next =>
      obtain ⟨⟨front,back⟩,found,same⟩ := Option.map_eq_some_iff.mp split
      obtain ⟨rfl,rfl⟩ := Prod.mk.inj same
      rw [ih found]
      rfl

theorem splitOnce_plain {separator : Char} {before : List Char} (plain : separator ∉ before) (after : List Char) :
    splitOnce separator (before ++ separator :: after) = some (before,after) := by
  induction before with
  | nil => exact if_pos rfl
  | cons c before ih =>
    obtain ⟨other,plain⟩ := not_or.mp (mt List.mem_cons.mpr plain)
    rw [List.cons_append,splitOnce,if_neg fun same => other same.symm,ih plain]
    rfl

/-- What stands before the first separator, and after it, is the same in equal texts. -/
theorem cut_inj {separator : Char} {a b c d : List Char} (left : separator ∉ a) (right : separator ∉ c)
    (same : a ++ separator :: b = c ++ separator :: d) : a = c ∧ b = d := by
  have cut := splitOnce_plain left b
  rw [same,splitOnce_plain right d] at cut
  cases cut
  exact ⟨rfl,rfl⟩

theorem splitOnce_none {separator : Char} {chars : List Char} (plain : separator ∉ chars) : splitOnce separator chars = none := by
  induction chars with
  | nil => rfl
  | cons c chars ih =>
    obtain ⟨other,plain⟩ := not_or.mp (mt List.mem_cons.mpr plain)
    rw [splitOnce,if_neg fun same => other same.symm,ih plain]
    rfl

def isNumeric (text : List Char) : Bool := text.all Char.isDigit

/-- A number without leading zeros that a double holds exactly. -/
def numeric (text : List Char) : Option Nat :=
  if text.isEmpty || !isNumeric text || (decide (1 < text.length) && text.head? == some '0') then none
  else
    let n := text.foldl (fun n c => n * 10 + (c.toNat - 48)) 0
    if n ≤ maxSafeInteger then some n else none

/-- One identifier of a prerelease. -/
def identifierInvalid (id : List Char) : Bool :=
  id.isEmpty || !id.all (fun c => c.isAlphanum || c == '-') ||
    (isNumeric id && decide (1 < id.length) && id.head? == some '0')

/-- A version of one to three numbers, and how many were given. -/
def parsePartial (text : List Char) : Option (Version × Nat) :=
  let parts := splitOnce '-' text
  let base := (parts.map Prod.fst).getD text
  match (base.splitOn '.').mapM numeric with
  | none => none
  | some nums =>
    if nums.isEmpty || decide (3 < nums.length) || (parts.isSome && nums.length != 3) then none
    else
      let ids := (parts.map fun parts => parts.2.splitOn '.').getD []
      if ids.any identifierInvalid then none
      else some (⟨nums.getD 0 0,nums.getD 1 0,nums.getD 2 0,ids.map String.ofList⟩,nums.length)

def Version.parse (text : String) : Option Version :=
  match parsePartial text.toList with
  | some (version,3) => some version
  | _ => none

def compareIds (x y : String) : Ordering :=
  match isNumeric x.toList,isNumeric y.toList with
  | true,true => (compare x.length y.length).then (compare x y)
  | true,false => .lt
  | false,true => .gt
  | false,false => compare x y

/-- The first identifiers that differ decide, then the number of them. -/
def comparePre : List String → List String → Ordering
  | x :: xs, y :: ys => (compareIds x y).then (comparePre xs ys)
  | xs, ys => compare xs.length ys.length

def Version.cmp (a b : Version) : Ordering :=
  let core := (compare a.major b.major).then ((compare a.minor b.minor).then (compare a.patch b.patch))
  if core ≠ .eq then core
  else match a.pre.isEmpty,b.pre.isEmpty with
    | true,false => .gt
    | false,true => .lt
    | _,_ => comparePre a.pre b.pre

def Version.display (v : Version) : String :=
  toString v.major ++ "." ++ toString v.minor ++ "." ++ toString v.patch ++
    (if v.pre.isEmpty then "" else "-" ++ String.ofList (['.'].intercalate (v.pre.map String.toList)))

structure Bound where
  lo : Option Version
  hi : Option Version
  loInclusive : Bool
  hiInclusive : Bool
  exact : Option Version
deriving DecidableEq, Repr

/-- Alternatives, each a list of bounds that hold together. -/
abbrev Range := List (List Bound)

def release (major minor patch : Nat) : Version := ⟨major,minor,patch,[]⟩

def interval (lo : Option Version) (loInclusive : Bool) (hi : Option Version) (hiInclusive : Bool) : Bound :=
  ⟨lo,hi,loInclusive,hiInclusive,none⟩

inductive Operator
  | atLeast
  | atMost
  | caret
  | tilde
  | above
  | below
  | equals
  | bare
deriving DecidableEq, Repr

def operator : List Char → Operator × List Char
  | '>' :: '=' :: rest => (.atLeast,rest)
  | '<' :: '=' :: rest => (.atMost,rest)
  | '^' :: rest => (.caret,rest)
  | '~' :: rest => (.tilde,rest)
  | '>' :: rest => (.above,rest)
  | '<' :: rest => (.below,rest)
  | '=' :: rest => (.equals,rest)
  | rest => (.bare,rest)

def comparator (text : List Char) : Option Bound :=
  if text = ['*'] then some (interval none true none false)
  else
    let (op,rest) := operator text
    match parsePartial rest with
    | none => none
    | some (lo,given) =>
      let next := if given = 1 then release (lo.major + 1) 0 0 else release lo.major (lo.minor + 1) 0
      if lo.pre ≠ [] ∧ op ≠ .bare ∧ op ≠ .equals then none
      else some <| match op with
        | .bare | .equals =>
          if given = 3 then { interval none true none false with exact := some lo }
          else interval (some lo) true (some next) false
        | .caret =>
          let hi :=
            if 0 < lo.major ∨ given = 1 then release (lo.major + 1) 0 0
            else if 0 < lo.minor ∨ given = 2 then release 0 (lo.minor + 1) 0
            else release 0 0 (lo.patch + 1)
          interval (some lo) true (some hi) false
        | .tilde => interval (some lo) true (some next) false
        | .atLeast => interval (some lo) true none false
        | .above => interval (some (if given = 3 then lo else next)) (given != 3) none false
        | .below => interval none true (some lo) false
        | .atMost => interval none true (some (if given = 3 then lo else next)) (given == 3)

/-- The characters of the White_Space property. -/
def isWhitespace (c : Char) : Bool :=
  let n := c.toNat
  (decide (9 ≤ n) && decide (n ≤ 13)) || (decide (0x2000 ≤ n) && decide (n ≤ 0x200a)) ||
    [0x20,0x85,0xa0,0x1680,0x2028,0x2029,0x202f,0x205f,0x3000].contains n

def splitWhitespace (text : List Char) : List (List Char) :=
  (text.splitOnP isWhitespace).filter fun part => !part.isEmpty

/-- Splits at every `||`, from the left. -/
def splitBars : List Char → List (List Char)
  | [] => [[]]
  | '|' :: '|' :: rest => [] :: splitBars rest
  | c :: rest => (splitBars rest).modifyHead (c :: ·)

def parseSet (text : List Char) : Option (List Bound) :=
  let parts := splitWhitespace text
  if parts.isEmpty || (decide (1 < parts.length) && parts.contains ['*']) then none
  else match parts.mapM comparator with
    | none => none
    | some set =>
      if 1 < set.length ∧ set.any (fun b => b.exact.any fun v => !v.pre.isEmpty) = true then none
      else some set

def Range.parse (text : String) : Option Range := (splitBars text.toList).mapM parseSet

def Bound.admits (b : Bound) (version : Version) : Bool :=
  match b.exact with
  | some exact => version == exact
  | none =>
    (b.lo.all fun lo => version.cmp lo == .gt || (b.loInclusive && version == lo)) &&
      b.hi.all fun hi => version.cmp hi == .lt || (b.hiInclusive && version == hi)

/-- A prerelease is only admitted by naming it. -/
def Range.satisfies (range : Range) (version : Version) : Bool :=
  range.any fun set =>
    if version.pre ≠ [] then set.length == 1 && (set.head?.bind (·.exact)) == some version
    else set.all (·.admits version)

example : (Range.parse "^1.2 || =2.0.0-rc.1").map (fun range =>
    ["1.1.9","1.9.0","2.0.0-rc.1","2.0.0"].map fun text => (Version.parse text).map range.satisfies) =
      some [some false,some true,some true,some false] := by
  decide +kernel

end Entorhinal.Semver
