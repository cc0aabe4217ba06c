import Entorhinal.CatalogEffect

/-! How plans and generations move, and the invariants of their tables. -/
namespace Entorhinal.Catalog

/-- What a call does to plans, generations and statuses. -/
inductive Effect (rules : Rules) (store : CatalogStore) (call : Call) (done : CatalogStore) : Prop
  | quiet (plans : done.plans = store.plans) (generations : done.generations = store.generations)
      (statuses : done.statuses = store.statuses)
  | planAdded (id : String) (plan : CatalogPlan) (fresh : store.plans.get? id = none)
      (pending : plan.state = .pending) (unclosed : plan.closure = none)
      (plans : done.plans = store.plans.insert id plan)
      (generations : done.generations = store.generations) (statuses : done.statuses = store.statuses)
  | planSettled (id : String) (old plan : CatalogPlan) (found : store.plans.get? id = some old)
      (pending : old.state = .pending) (settles : Settles rules store old plan)
      (plans : done.plans = store.plans.insert id plan)
      (generations : done.generations = store.generations) (statuses : done.statuses = store.statuses)
  | generationAdded (id : String) (generation : CatalogGeneration) (made : Made store id generation)
      (plans : done.plans = store.plans)
      (generations : done.generations = store.generations.insert id generation)
      (statuses : done.statuses = store.statuses)
  | generationNoted (id error : String) (old : CatalogGeneration)
      (found : store.generations.get? id = some old) (waits : old.state.waiting = true)
      (plans : done.plans = store.plans)
      (generations : done.generations = store.generations.insert id { old with error := some (.given error) })
      (statuses : done.statuses = store.statuses)
  | generationStepped (id : String) (step : GenerationStep) (now : Int) (old : CatalogGeneration)
      (found : store.generations.get? id = some old) (allowed : step.allowed old.state = true)
      (unblocked : step = .active → blockedStatus store.statuses old.closure = none)
      (plans : done.plans = store.plans)
      (generations : done.generations =
        (if step = .active then supersede store old.agentId else store).generations.insert id
          (old.stepped step now))
      (statuses : done.statuses = store.statuses)
  | generationsDropped (cut agent : String) (called : call = .discardMoveGeneration cut agent)
      (dropped : done = catalogDiscardMoveGeneration store cut agent)
  | statusesWritten (records : List StatusRecord) (some_written : records ≠ [])
      (plans : done.plans = store.plans)
      (statuses : done.statuses = records.foldl Statuses.put store.statuses)
      (generations : done.generations =
        store.generations.update fun _ row => statusEffect done.statuses row)

section Effects

variable {rules : Rules} {store done : CatalogStore} {call : Call} {id caller : String} {now : Int}

theorem generationStep_effect {step : GenerationStep} {generation : CatalogGeneration}
    (ok : catalogGenerationStep rules store id caller step now = .ok (done,generation)) :
    Effect rules store call done := by
  obtain rfl | ⟨old,found,allowed,unblocked,rfl,rfl⟩ := generationStep_ok ok
  · exact .quiet rfl rfl rfl
  · refine .generationStepped id step now old found allowed unblocked ?_ rfl ?_ <;> split <;> rfl

theorem writeStatuses_effect (records : List StatusRecord) :
    Effect rules store call (writeStatuses store records) := by
  cases records with
  | nil => exact .quiet rfl rfl rfl
  | cons record rest => exact .statusesWritten (record :: rest) (by simp) rfl rfl rfl

theorem install_effect {commit : Option ConsentCommit} {planId principal : String} {result : Installed}
    (ok : catalogInstall rules store commit planId principal now = .ok result) :
    Effect rules store call result.store := by
  obtain ⟨consent,_,_,generation,permissions,_,installs⟩ := install_ok ok
  obtain ⟨_,written⟩ := installs.written
  obtain ⟨_,_,_,⟨same,_⟩ | same⟩ := writePins_ok written <;> rw [same] <;>
    exact .generationAdded _ generation installs.made rfl rfl rfl

theorem perform_effect {outcome : Outcome} (performed : perform rules store call = some outcome) :
    Effect rules store call outcome.store := by
  cases call <;> simp only [perform,Option.map_eq_some_iff,toOption_some,Option.some.injEq] at performed
  case createPlan =>
    obtain ⟨⟨after,plan⟩,ok,rfl⟩ := performed
    obtain rfl | ⟨_,_,fresh,_,rfl,rfl⟩ := createPlan_ok ok
    · exact .quiet rfl rfl rfl
    · exact .planAdded _ _ fresh rfl rfl rfl rfl rfl
  case savePrepared =>
    obtain ⟨after,ok,rfl⟩ := performed
    obtain rfl := savePrepared_ok ok
    exact .quiet rfl rfl rfl
  case planReady =>
    obtain ⟨⟨after,plan⟩,ok,rfl⟩ := performed
    obtain rfl | ⟨_,old,found,pending,settles,rfl⟩ := planReady_ok ok
    · exact .quiet rfl rfl rfl
    · exact .planSettled _ old plan found pending settles rfl rfl rfl
  case planFailed =>
    obtain ⟨⟨after,plan⟩,ok,rfl⟩ := performed
    obtain rfl | ⟨_,old,found,pending,settles,rfl⟩ := planFailed_ok ok
    · exact .quiet rfl rfl rfl
    · exact .planSettled _ old plan found pending settles rfl rfl rfl
  case approvePlan =>
    obtain ⟨⟨after,generation⟩,ok,rfl⟩ := performed
    obtain rfl | ⟨_,made,rfl⟩ := approvePlan_ok ok
    · exact .quiet rfl rfl rfl
    · exact .generationAdded _ generation made rfl rfl rfl
  case generationReady =>
    obtain ⟨⟨after,generation⟩,ok,rfl⟩ := performed
    exact generationStep_effect ok
  case activateGeneration =>
    obtain ⟨⟨after,generation⟩,ok,rfl⟩ := performed
    exact generationStep_effect ok
  case degradeGeneration =>
    obtain ⟨⟨after,generation⟩,ok,rfl⟩ := performed
    exact generationStep_effect ok
  case discardMoveGeneration =>
    subst performed
    exact .generationsDropped _ _ rfl rfl
  case prefetchError =>
    obtain ⟨after,ok,rfl⟩ := performed
    obtain rfl | ⟨old,found,waits,rfl⟩ := prefetchError_ok ok
    · exact .quiet rfl rfl rfl
    · exact .generationNoted _ _ old found waits rfl rfl rfl
  case install =>
    obtain ⟨result,ok,rfl⟩ := performed
    exact install_effect ok
  case setPins =>
    obtain ⟨⟨after,changed⟩,ok,rfl⟩ := performed
    obtain ⟨_,_,_,⟨rfl,_⟩ | rfl⟩ := writePins_ok ok <;> exact .quiet rfl rfl rfl
  case remotePins =>
    obtain ⟨after,ok,rfl⟩ := performed
    obtain ⟨_,_,rfl⟩ := restorePins_ok ok
    exact .quiet rfl rfl rfl
  case writeStatuses =>
    subst performed
    exact writeStatuses_effect _
  case setAgent =>
    subst performed
    exact .quiet rfl rfl rfl
  case insertGrant =>
    obtain ⟨⟨permissions,_⟩,_,performed⟩ := bind_ok performed
    cases performed
    exact .quiet rfl rfl rfl
  case revokeGrant =>
    subst performed
    exact .quiet rfl rfl rfl

end Effects

/-- The order in which a generation moves. -/
def GenerationState.rank : GenerationState → Nat
  | .installed => 0
  | .approved => 0
  | .ready => 1
  | .active => 2
  | .degraded => 3
  | .superseded => 4

/-- A later row of the same generation. -/
structure Follows (old new : CatalogGeneration) : Prop where
  agentId : new.agentId = old.agentId
  planId : new.planId = old.planId
  closure : new.closure = old.closure
  pinDigest : new.pinDigest = old.pinDigest
  onward : new.state = old.state ∨ old.state.rank < new.state.rank

namespace Follows

theorem refl (row : CatalogGeneration) : Follows row row := ⟨rfl,rfl,rfl,rfl,.inl rfl⟩

theorem trans {a b c : CatalogGeneration} (first : Follows a b) (second : Follows b c) : Follows a c where
  agentId := second.agentId.trans first.agentId
  planId := second.planId.trans first.planId
  closure := second.closure.trans first.closure
  pinDigest := second.pinDigest.trans first.pinDigest
  onward := by
    rcases first.onward with same | less <;> rcases second.onward with same' | less'
    · exact .inl (same'.trans same)
    · exact .inr (same ▸ less')
    · exact .inr (same' ▸ less)
    · exact .inr (less.trans less')

/-- What was replaced stays replaced. -/
theorem superseded {old new : CatalogGeneration} (follows : Follows old new)
    (replaced : old.state = .superseded) : new.state = .superseded := by
  rcases follows.onward with same | less
  · exact same.trans replaced
  · rw [replaced] at less
    cases state : new.state <;> simp [state,GenerationState.rank] at less

theorem supersede (row : CatalogGeneration) (agent : String) :
    Follows row (if row.agentId == agent && row.state.current then { row with state := .superseded }
      else row) := by
  split
  next now =>
    refine ⟨rfl,rfl,rfl,rfl,.inr ?_⟩
    cases state : row.state <;> simp [state,GenerationState.current,GenerationState.rank] at now ⊢
  next => exact refl row

theorem stepped (row : CatalogGeneration) {step : GenerationStep} (now : Int)
    (allowed : step.allowed row.state = true) : Follows row (row.stepped step now) := by
  cases step <;> refine ⟨rfl,rfl,rfl,rfl,.inr ?_⟩ <;> cases state : row.state <;>
    simp [GenerationStep.allowed,CatalogGeneration.stepped,GenerationState.rank,state] at allowed ⊢

theorem statusEffect (statuses : Statuses) (row : CatalogGeneration) :
    Follows row (statusEffect statuses row) := by
  rw [Catalog.statusEffect]
  split
  next now =>
    split
    next =>
      refine ⟨rfl,rfl,rfl,rfl,?_⟩
      cases state : row.state <;> simp [state,GenerationState.current,GenerationState.rank] at now ⊢
    next => exact refl row
  next => exact refl row

end Follows

/-- A plan keeps what it was created from, and after it was settled it keeps everything. -/
structure PlanFollows (old new : CatalogPlan) : Prop where
  agentId : new.agentId = old.agentId
  operation : new.operation = old.operation
  spec : new.spec = old.spec
  base : new.basePinDigest = old.basePinDigest
  settled : old.state ≠ .pending → new = old

namespace PlanFollows

theorem refl (row : CatalogPlan) : PlanFollows row row := ⟨rfl,rfl,rfl,rfl,fun _ => rfl⟩

theorem trans {a b c : CatalogPlan} (first : PlanFollows a b) (second : PlanFollows b c) : PlanFollows a c where
  agentId := second.agentId.trans first.agentId
  operation := second.operation.trans first.operation
  spec := second.spec.trans first.spec
  base := second.base.trans first.base
  settled := by
    intro done
    have same := first.settled done
    rw [second.settled (same ▸ done),same]

theorem settles {rules : Rules} {store : CatalogStore} {old new : CatalogPlan} (pending : old.state = .pending)
    (settled : Settles rules store old new) : PlanFollows old new := by
  cases settled <;> exact ⟨rfl,rfl,rfl,rfl,fun done => absurd pending done⟩

end PlanFollows

section Steps

variable {rules : Rules} {store done : CatalogStore} {call : Call}

theorem Effect.plan (effect : Effect rules store call done) {id : String} {plan : CatalogPlan}
    (found : store.plans.get? id = some plan) :
    ∃ later, done.plans.get? id = some later ∧ PlanFollows plan later := by
  have same : done.plans = store.plans → ∃ later, done.plans.get? id = some later ∧ PlanFollows plan later := by
    intro same
    exact ⟨plan,by rw [same,found],.refl plan⟩
  cases effect with
  | quiet plans => exact same plans
  | planAdded other row fresh _ _ plans =>
    have apart : id ≠ other := by
      rintro rfl
      rw [found] at fresh
      cases fresh
    exact ⟨plan,by simp [plans,apart,found],.refl plan⟩
  | planSettled other old row present pending settles plans =>
    by_cases here : id = other
    · subst here
      cases present.symm.trans found
      exact ⟨row,by simp [plans],.settles pending settles⟩
    · exact ⟨plan,by simp [plans,here,found],.refl plan⟩
  | generationAdded _ _ _ plans => exact same plans
  | generationNoted _ _ _ _ _ plans => exact same plans
  | generationStepped _ _ _ _ _ _ _ plans => exact same plans
  | generationsDropped _ _ _ dropped => exact same (by rw [dropped]; rfl)
  | statusesWritten _ _ plans => exact same plans

/-- A generation goes on, or it is one that had not become active and is discarded. -/
theorem Effect.generation (effect : Effect rules store call done) {id : String} {row : CatalogGeneration}
    (found : store.generations.get? id = some row) :
    (∃ later, done.generations.get? id = some later ∧ Follows row later) ∨
      (row.state.rank < 2 ∧
        ∃ cut, id = s!"generation:move:{cut}" ∧ call = .discardMoveGeneration cut row.agentId) := by
  have same : done.generations = store.generations →
      ∃ later, done.generations.get? id = some later ∧ Follows row later := by
    intro same
    exact ⟨row,by rw [same,found],.refl row⟩
  cases effect with
  | quiet _ generations => exact .inl (same generations)
  | planAdded _ _ _ _ _ _ generations => exact .inl (same generations)
  | planSettled _ _ _ _ _ _ _ generations => exact .inl (same generations)
  | generationAdded other generation made _ generations =>
    have apart : id ≠ other := by
      rintro rfl
      have fresh := made.fresh
      rw [found] at fresh
      cases fresh
    exact .inl ⟨row,by simp [generations,apart,found],.refl row⟩
  | generationNoted other error old present _ _ generations =>
    by_cases here : id = other
    · subst here
      cases present.symm.trans found
      exact .inl ⟨{ row with error := some (.given error) },by simp [generations],rfl,rfl,rfl,rfl,.inl rfl⟩
    · exact .inl ⟨row,by simp [generations,here,found],.refl row⟩
  | generationStepped other step now old present allowed _ _ generations =>
    by_cases here : id = other
    · subst here
      cases present.symm.trans found
      exact .inl ⟨_,by simp [generations],.stepped row now allowed⟩
    · refine .inl ?_
      by_cases active : step = .active
      · exact ⟨_,by simp [generations,here,active,supersede,found],.supersede row old.agentId⟩
      · exact ⟨row,by simp [generations,here,active,found],.refl row⟩
  | generationsDropped cut agent called dropped =>
    subst dropped
    by_cases hit : (id == s!"generation:move:{cut}" && row.agentId == agent &&
        (row.state.waiting || row.state == .ready)) = true
    · refine .inr ?_
      simp only [Bool.and_eq_true,beq_iff_eq] at hit
      obtain ⟨⟨named,owned⟩,early⟩ := hit
      refine ⟨?_,cut,named,by rw [owned,called]⟩
      cases state : row.state <;> simp [state,GenerationState.waiting,GenerationState.rank] at early ⊢
    · refine .inl ⟨row,?_,.refl row⟩
      rw [catalogDiscardMoveGeneration,Table.get?_filter,found]
      simp only [Option.filter,hit]
      rfl
  | statusesWritten _ _ _ _ generations =>
    exact .inl ⟨_,by simp [generations,found],.statusEffect done.statuses row⟩

end Steps

end Entorhinal.Catalog
