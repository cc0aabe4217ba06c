import Entorhinal.Traverse
import Mathlib.Data.Option.Basic

/-! What the store remembers of a claim or role record, and what one
observation of the record makes of it. -/
namespace Entorhinal.ClaimCache

structure CachedClaim where
  holder : Option String
  epoch : Int
  cutId : Option String
  version : Int
  readAtMs : Int
  stale : Bool
  integrityFailed : Bool
deriving DecidableEq, Repr

/-- Only verified replies supply a self author. -/
inductive ClaimObservation
  | present (claim : CachedClaim) (selfAuthor : String)
  | absent (stale : Bool) (selfAuthor : String)
  | integrityFailed
  | codecFailed (selfAuthor : String)
  | unavailable
deriving DecidableEq, Repr

def unclaimed (now : Int) (stale integrityFailed : Bool) : CachedClaim where
  holder := none
  epoch := 0
  cutId := none
  version := 0
  readAtMs := now
  stale := stale
  integrityFailed := integrityFailed

/-- `decide` before the read time is stamped. -/
def decideBody (old : Option CachedClaim) (observation : ClaimObservation) (now : Int) :
    Option CachedClaim :=
  match observation with
  | .integrityFailed | .codecFailed _ =>
    some { old.getD (unclaimed now true true) with integrityFailed := true }
  | .unavailable => old.map fun row => { row with stale := true }
  | .present claim _ =>
    let replaced := if claim.epoch = 0 then unclaimed now claim.stale false
      else { claim with integrityFailed := false }
    match old with
    | some cached => if claim.version < cached.version then some { cached with stale := true }
      else some replaced
    | none => some replaced
  | .absent stale _ =>
    match old with
    | some cached => if stale && decide (1 ≤ cached.version) then some { cached with stale := true }
      else some (unclaimed now stale (stale && cached.integrityFailed))
    | none => some (unclaimed now stale false)

/-- The cache observation table: the row an observation leaves, if any. -/
def decideClaim (old : Option CachedClaim) (observation : ClaimObservation) (now : Int) :
    Option CachedClaim :=
  (decideBody old observation now).map fun row => { row with readAtMs := now }

/-- The part of a row that came from the record body and its version. -/
def CachedClaim.content (row : CachedClaim) : Int × Int × Option String :=
  (row.version,row.epoch,row.holder)

/-- A row keeps what it knew, becomes unclaimed, or takes the observed claim. -/
theorem decideClaim_cases {old : Option CachedClaim} {observation : ClaimObservation} {now : Int}
    {row : CachedClaim} (decided : decideClaim old observation now = some row) :
    (∃ cached, old = some cached ∧ row.content = cached.content) ∨
    (row.content = (0,0,none) ∧ (old = none ∨ ∃ cached, old = some cached ∧
      ((∃ claim self, observation = .present claim self ∧ claim.epoch = 0) ∨
       (∃ self, observation = .absent false self) ∨ cached.version < 1))) ∨
    (∃ claim self, observation = .present claim self ∧ row.content = claim.content ∧
      ∀ cached, old = some cached → cached.version ≤ claim.version) := by
  obtain ⟨body,made,rfl⟩ := Option.map_eq_some_iff.mp decided
  cases observation with
  | integrityFailed =>
    cases old <;> cases made
    · exact .inr (.inl ⟨rfl,.inl rfl⟩)
    · exact .inl ⟨_,rfl,rfl⟩
  | codecFailed self =>
    cases old <;> cases made
    · exact .inr (.inl ⟨rfl,.inl rfl⟩)
    · exact .inl ⟨_,rfl,rfl⟩
  | unavailable =>
    cases old with
    | none => cases made
    | some cached => cases made; exact .inl ⟨_,rfl,rfl⟩
  | present claim self =>
    cases old with
    | none =>
      by_cases unheld : claim.epoch = 0
      · simp only [decideBody,if_pos unheld,Option.some.injEq] at made
        subst made
        exact .inr (.inl ⟨rfl,.inl rfl⟩)
      · simp only [decideBody,if_neg unheld,Option.some.injEq] at made
        subst made
        exact .inr (.inr ⟨claim,self,rfl,rfl,by simp⟩)
    | some cached =>
      by_cases older : claim.version < cached.version
      · simp only [decideBody,if_pos older,Option.some.injEq] at made
        subst made
        exact .inl ⟨cached,rfl,rfl⟩
      · by_cases unheld : claim.epoch = 0
        · simp only [decideBody,if_neg older,if_pos unheld,Option.some.injEq] at made
          subst made
          exact .inr (.inl ⟨rfl,.inr ⟨cached,rfl,.inl ⟨claim,self,rfl,unheld⟩⟩⟩)
        · simp only [decideBody,if_neg older,if_neg unheld,Option.some.injEq] at made
          subst made
          refine .inr (.inr ⟨claim,self,rfl,rfl,?_⟩)
          rintro _ ⟨rfl⟩
          omega
  | absent stale self =>
    cases old with
    | none => cases made; exact .inr (.inl ⟨rfl,.inl rfl⟩)
    | some cached =>
      by_cases kept : (stale && decide (1 ≤ cached.version)) = true
      · simp only [decideBody,if_pos kept,Option.some.injEq] at made
        subst made
        exact .inl ⟨cached,rfl,rfl⟩
      · simp only [decideBody,if_neg kept,Option.some.injEq] at made
        subst made
        refine .inr (.inl ⟨rfl,.inr ⟨cached,rfl,.inr ?_⟩⟩)
        cases stale with
        | false => exact .inl ⟨self,rfl⟩
        | true => exact .inr (by simpa using kept)

end Entorhinal.ClaimCache
