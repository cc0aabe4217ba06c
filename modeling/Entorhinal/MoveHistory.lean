import Entorhinal.MoveWorld

/-! The histories of the two records: the move record's writes follow the
documented table, and the cut's claim writes follow from the receiver's
checkpoint. -/
namespace Entorhinal.Move

abbrev MoveWrite : Type := Written WriteId String MoveRecord

abbrev ClaimWritten : Type := Written WriteId String AgentClaim

def stateOf (writes : List MoveWrite) : Option MoveRecordState := writes.head?.map (·.body.state)

/-- Every write, newest first, takes the record through the table, in the name
of the side that the table lets write it, and keeps the plan. -/
def Documented (cut : Cut) : List MoveWrite → Prop
  | [] => True
  | x :: rest => (∃ side, allowed (stateOf rest) x.body.state side = true ∧ x.author = cut.machine side) ∧
    (∀ y ∈ rest, y.body.plan = x.body.plan) ∧ Documented cut rest

namespace Documented

variable {cut : Cut} {x y : MoveWrite} {rest writes : List MoveWrite}

theorem published_first (holds : Documented cut (x :: rest)) (state : x.body.state = .published) :
    rest = [] := by
  obtain ⟨⟨side,permitted,_⟩,_,_⟩ := holds
  cases rest with
  | nil => rfl
  | cons y older =>
    rw [state] at permitted
    simp only [stateOf,List.head?_cons,Option.map_some] at permitted
    cases before : y.body.state <;> cases side <;> simp [before,allowed] at permitted

theorem same_plan (holds : Documented cut writes) (left : x ∈ writes) (right : y ∈ writes) :
    x.body.plan = y.body.plan := by
  induction writes with
  | nil => cases left
  | cons first rest ih =>
    obtain ⟨_,plan,older⟩ := holds
    rcases List.mem_cons.mp left with rfl | inside <;> rcases List.mem_cons.mp right with rfl | present
    · rfl
    · exact (plan y present).symm
    · exact plan x inside
    · exact ih older inside present

/-- Nothing follows an abort. -/
theorem aborted_last (holds : Documented cut (x :: rest)) (member : y ∈ rest) :
    y.body.state ≠ .aborted := by
  induction rest generalizing x with
  | nil => cases member
  | cons z older ih =>
    obtain ⟨⟨side,permitted,_⟩,_,tail⟩ := holds
    rcases List.mem_cons.mp member with rfl | inside
    · intro aborted
      simp only [stateOf,List.head?_cons,Option.map_some,aborted] at permitted
      cases x.body.state <;> cases side <;> simp [allowed] at permitted
    · exact ih tail inside

/-- Once staged, only the receiver aborts. -/
theorem aborted_author (holds : Documented cut writes) (staged : ∃ y ∈ writes, y.body.state = .staged)
    (member : x ∈ writes) (aborted : x.body.state = .aborted) : x.author = cut.toMachine := by
  induction writes with
  | nil => cases member
  | cons first rest ih =>
    rcases List.mem_cons.mp member with rfl | inside
    · obtain ⟨⟨side,permitted,author⟩,plan,older⟩ := holds
      obtain ⟨y,present,state⟩ := staged
      rcases List.mem_cons.mp present with rfl | behind
      · rw [aborted] at state; cases state
      · cases rest with
        | nil => cases behind
        | cons z older' =>
          simp only [stateOf,List.head?_cons,Option.map_some,aborted] at permitted
          have further : z.body.state ≠ .published := by
            intro published
            have empty := published_first older published
            subst empty
            rcases List.mem_cons.mp behind with rfl | none
            · rw [published] at state; cases state
            · cases none
          cases before : z.body.state <;> cases side <;> simp_all [allowed,Cut.machine]
    · exact absurd aborted (aborted_last holds inside)

/-- A record that was staged is not read as published any more. -/
theorem staged_current (holds : Documented cut (x :: rest))
    (staged : ∃ y ∈ x :: rest, y.body.state = .staged) : x.body.state ≠ .published := by
  intro published
  have empty := published_first holds published
  subst empty
  obtain ⟨y,present,state⟩ := staged
  rcases List.mem_cons.mp present with rfl | none
  · rw [published] at state; cases state
  · cases none

/-- A record past the activation was activated. -/
theorem activated_before (holds : Documented cut (x :: rest))
    (past : x.body.state = .activated ∨ x.body.state = .released) :
    ∃ y ∈ x :: rest, y.body.state = .activated := by
  rcases past with activated | released
  · exact ⟨x,List.mem_cons_self,activated⟩
  · obtain ⟨⟨side,permitted,_⟩,_,_⟩ := holds
    rw [released] at permitted
    cases rest with
    | nil => cases side <;> simp [stateOf,allowed] at permitted
    | cons y older =>
      refine ⟨y,List.mem_cons_of_mem _ List.mem_cons_self,?_⟩
      simp only [stateOf,List.head?_cons,Option.map_some] at permitted
      cases before : y.body.state <;> cases side <;> simp [before,allowed] at permitted ⊢

theorem author (holds : Documented cut writes) (member : x ∈ writes) :
    ∃ before side, allowed before x.body.state side = true ∧ x.author = cut.machine side := by
  induction writes with
  | nil => cases member
  | cons first rest ih =>
    obtain ⟨⟨side,permitted,author⟩,_,older⟩ := holds
    rcases List.mem_cons.mp member with rfl | inside
    · exact ⟨_,side,permitted,author⟩
    · exact ih older inside

end Documented

/-- A request that may land only as a documented transition: the first
publication, or a transition from a write that stands in the history under the
version it expects. -/
def Permitted (writes : List MoveWrite) (side : MoveSide) (request : CasRequest MoveRecord) : Prop :=
  (request.expected = 0 ∧ side = .source ∧ request.body.state = .published) ∨
  ∃ x ∈ writes, x.version = request.expected ∧
    allowed (some x.body.state) request.body.state side = true ∧ request.body.plan = x.body.plan

theorem Permitted.grow {writes writes' : List MoveWrite} {side : MoveSide}
    {request : CasRequest MoveRecord} (permitted : Permitted writes side request)
    (grown : writes <:+ writes') : Permitted writes' side request := by
  rcases permitted with first | ⟨x,member,rest⟩
  · exact .inl first
  · exact .inr ⟨x,grown.mem member,rest⟩

/-- What serving a request does to a register. -/
theorem applied_cases {β : Type} [DecidableEq β] (r : Register WriteId String β) (author : String)
    (request : CasRequest β) (fresh : Nat) :
    (applied r author request fresh) = r ∨
    (request.expected = r.version ∧ (∀ w ∈ r.writes, w.writeId ≠ request.writeId) ∧
      (applied r author request fresh).writes =
        ⟨fresh,request.writeId,author,request.body⟩ :: r.writes) := by
  rcases r.cas_cases request.expected fresh request.writeId author request.body with
    same | ⟨expected,_,unused,pushed⟩
  · exact .inl same
  · exact .inr ⟨expected,unused,pushed⟩

theorem applied_grows {β : Type} [DecidableEq β] (r : Register WriteId String β) (author : String)
    (request : CasRequest β) (fresh : Nat) :
    r.writes <:+ (applied r author request fresh).writes := by
  rcases applied_cases r author request fresh with same | ⟨_,_,pushed⟩
  · exact ⟨[],by simp [same]⟩
  · rw [pushed]; exact List.suffix_cons _ _

/-- The write that carries the newest version is the newest one. -/
theorem newest_of_version {β : Type} {r : Register WriteId String β} {w : Written WriteId String β}
    (member : w ∈ r.writes) (version : w.version = r.version) : r.writes.head? = some w := by
  obtain ⟨writes,newest,positive⟩ := r
  cases writes with
  | nil => cases member
  | cons head rest =>
    rcases List.mem_cons.mp member with rfl | inside
    · rfl
    · have := (List.pairwise_cons.mp newest).1 w inside
      simp only [Register.version,List.head?_cons,Option.map_some,Option.getD_some] at version
      omega

theorem applied_documented {cut : Cut} {r : Register WriteId String MoveRecord} {side : MoveSide}
    {request : CasRequest MoveRecord} {fresh : Nat}
    (holds : Documented cut r.writes) (permitted : Permitted r.writes side request) :
    Documented cut (applied r (cut.machine side) request fresh).writes := by
  rcases applied_cases r (cut.machine side) request fresh with same | ⟨expected,_,pushed⟩
  · rw [same]; exact holds
  rw [pushed]
  rcases permitted with ⟨zero,rfl,published⟩ | ⟨x,member,version,follows,plan⟩
  · have empty : r.writes = [] := Register.version_zero.mp (by omega)
    rw [empty]
    exact ⟨⟨.source,by simp [stateOf,published,allowed],rfl⟩,by simp,trivial⟩
  · have head := newest_of_version member (by omega)
    refine ⟨⟨side,?_,rfl⟩,fun y inside => ?_,holds⟩
    · simpa [stateOf,head] using follows
    · exact (holds.same_plan inside member).trans plan.symm

/-- What a served request leaves in the history beside what was there. -/
theorem applied_mem {β : Type} [DecidableEq β] {r : Register WriteId String β} {author : String}
    {request : CasRequest β} {fresh : Nat} {w : Written WriteId String β}
    (member : w ∈ (applied r author request fresh).writes) :
    w ∈ r.writes ∨ (w = ⟨fresh,request.writeId,author,request.body⟩ ∧ request.expected = r.version) := by
  rcases applied_cases r author request fresh with same | ⟨expected,_,pushed⟩
  · rw [same] at member; exact .inl member
  · rw [pushed] at member
    rcases List.mem_cons.mp member with rfl | inside
    · exact .inr ⟨rfl,expected⟩
    · exact .inl inside

end Entorhinal.Move
