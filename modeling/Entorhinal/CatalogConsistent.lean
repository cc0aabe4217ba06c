import Entorhinal.CatalogGenerations

/-! The tables of plans and generations stay consistent with each other and with the
statuses. -/
namespace Entorhinal.Catalog

/-- The records of a status table lie under their own name and version. -/
def Statuses.Named (statuses : Statuses) : Prop :=
  ∀ name version status, (statuses.get? name).bind (·.get? version) = some status →
    status.name = name ∧ status.version = version

/-- No skill of an active generation is blocked; a degraded one whose skills are blocked
says so, and a status error names a skill of the closure. -/
structure Clear (statuses : Statuses) (row : CatalogGeneration) : Prop where
  unblocked : row.state = .active → blockedStatus statuses (skills row.closure) = none
  degraded : ∀ status, row.state = .degraded → blockedStatus statuses (skills row.closure) = some status →
    row.error = some (statusError status)
  pinned : ∀ code name version reason, row.error = some (.pinned code name version reason) →
    ∃ pin ∈ row.closure, pin.kind = .skill ∧ pin.name = name ∧ pin.version = version

structure Consistent (store : CatalogStore) : Prop where
  closed : ∀ id plan, store.plans.get? id = some plan → (plan.closure.isSome = true ↔ plan.state = .ready)
  /-- A generation has the closure of its plan. -/
  planned : ∀ id row, store.generations.get? id = some row → ∃ plan,
    store.plans.get? row.planId = some plan ∧ plan.state = .ready ∧ plan.agentId = row.agentId ∧
      plan.closure = some row.closure
  single : ∀ id id' row row', store.generations.get? id = some row →
    store.generations.get? id' = some row' → row.planId = row'.planId → id = id'
  current : ∀ id id' row row', store.generations.get? id = some row →
    store.generations.get? id' = some row' → row.state.current = true → row'.state.current = true →
      row.agentId = row'.agentId → id = id'
  named : store.statuses.Named
  clear : ∀ id row, store.generations.get? id = some row → Clear store.statuses row

theorem mem_skills {pin : CatalogPin} {pins : List CatalogPin} :
    pin ∈ skills pins ↔ pin ∈ pins ∧ pin.kind = .skill := by simp [skills]

theorem Statuses.Named.put {statuses : Statuses} (named : statuses.Named) (record : StatusRecord) :
    (statuses.put record).Named := by
  intro name version status found
  rw [Statuses.put,Table.get?_insert] at found
  split at found
  next here =>
    subst here
    rw [Option.bind_some,Table.get?_insert] at found
    split at found
    next same => cases found; exact ⟨rfl,same.symm⟩
    next =>
      cases rows : statuses.get? record.name with
      | none => simp [rows] at found
      | some versions => exact named _ _ _ (by simpa [rows] using found)
  next => exact named _ _ _ found

theorem Statuses.Named.fold {records : List StatusRecord} {statuses : Statuses} (named : statuses.Named) :
    (records.foldl Statuses.put statuses).Named := by
  induction records generalizing statuses with
  | nil => exact named
  | cons record rest ih => exact ih (named.put record)

theorem statusError_pinned {statuses : Statuses} (named : statuses.Named) {pins : List CatalogPin}
    {status : StatusRecord} (blocked : blockedStatus statuses (skills pins) = some status) :
    ∃ pin ∈ pins, pin.kind = .skill ∧ pin.name = status.name ∧ pin.version = status.version := by
  obtain ⟨pin,member,found,_⟩ := blockedStatus_some blocked
  obtain ⟨inside,skill⟩ := mem_skills.mp member
  obtain ⟨name,version⟩ := named _ _ _ found
  exact ⟨pin,inside,skill,name.symm,version.symm⟩

/-- A row that is not current after a status update is the row it was; a current one is
degraded for a status that blocks it, or no skill of it is blocked. -/
theorem statusEffect_cases (statuses : Statuses) (row : CatalogGeneration) :
    (row.state.current = false ∧ statusEffect statuses row = row) ∨
      (row.state.current = true ∧ blockedStatus statuses (skills row.closure) = none ∧
        statusEffect statuses row = row) ∨
      (row.state.current = true ∧ ∃ status, blockedStatus statuses (skills row.closure) = some status ∧
        statusEffect statuses row = { row with state := .degraded, error := some (statusError status) }) := by
  rw [statusEffect]
  split
  next now =>
    split
    next status blocked => exact .inr (.inr ⟨now,status,blocked,rfl⟩)
    next unblocked => exact .inr (.inl ⟨now,unblocked,rfl⟩)
  next idle => exact .inl ⟨by simpa using idle,rfl⟩

section Steps

variable {rules : Rules} {store done : CatalogStore} {call : Call}

/-- Where a generation row comes from. -/
theorem Effect.origin (effect : Effect rules store call done) {id : String} {row : CatalogGeneration}
    (found : done.generations.get? id = some row) :
    (∃ old, store.generations.get? id = some old ∧ Follows old row) ∨
      (Made store id row ∧ done.generations = store.generations.insert id row) := by
  have same : done.generations = store.generations →
      (∃ old, store.generations.get? id = some old ∧ Follows old row) ∨
        (Made store id row ∧ done.generations = store.generations.insert id row) := by
    intro same
    exact .inl ⟨row,same ▸ found,.refl row⟩
  cases effect with
  | quiet _ generations => exact same generations
  | planAdded _ _ _ _ _ _ generations => exact same generations
  | planSettled _ _ _ _ _ _ _ generations => exact same generations
  | generationAdded other generation made _ generations =>
    rw [generations,Table.get?_insert] at found
    split at found
    next here => cases found; subst here; exact .inr ⟨made,generations⟩
    next => exact .inl ⟨row,found,.refl row⟩
  | generationNoted other error old present waits _ generations =>
    rw [generations,Table.get?_insert] at found
    split at found
    next here => cases found; subst here; exact .inl ⟨old,present,rfl,rfl,rfl,rfl,.inl rfl⟩
    next => exact .inl ⟨row,found,.refl row⟩
  | generationStepped other step now old present allowed _ _ generations =>
    rw [generations,Table.get?_insert] at found
    split at found
    next here => cases found; subst here; exact .inl ⟨old,present,.stepped old now allowed⟩
    next =>
      split at found
      next =>
        rw [supersede,Table.get?_update,Option.map_eq_some_iff] at found
        obtain ⟨before,held,rfl⟩ := found
        exact .inl ⟨before,held,.supersede before old.agentId⟩
      next => exact .inl ⟨row,found,.refl row⟩
  | generationsDropped cut agent _ dropped =>
    subst dropped
    rw [catalogDiscardMoveGeneration,Table.get?_filter] at found
    exact .inl ⟨row,(Option.filter_eq_some_iff.mp found).1,.refl row⟩
  | statusesWritten _ _ _ _ generations =>
    rw [generations,Table.get?_update,Option.map_eq_some_iff] at found
    obtain ⟨before,held,rfl⟩ := found
    exact .inl ⟨before,held,.statusEffect done.statuses before⟩

theorem Consistent.closed_kept (sound : Consistent store) (effect : Effect rules store call done) (id : String)
    (plan : CatalogPlan) (found : done.plans.get? id = some plan) :
    plan.closure.isSome = true ↔ plan.state = .ready := by
  cases effect with
  | quiet plans => exact sound.closed id plan (plans ▸ found)
  | planAdded other row _ pending unclosed plans =>
    rw [plans,Table.get?_insert] at found
    split at found
    next => cases found; simp [pending,unclosed]
    next => exact sound.closed id plan found
  | planSettled other old row present pending settles plans =>
    rw [plans,Table.get?_insert] at found
    split at found
    next =>
      cases found
      have before := sound.closed other old present
      cases settles with
      | ready => simp
      | failed => simpa [pending] using before
    next => exact sound.closed id plan found
  | generationAdded _ _ _ plans => exact sound.closed id plan (plans ▸ found)
  | generationNoted _ _ _ _ _ plans => exact sound.closed id plan (plans ▸ found)
  | generationStepped _ _ _ _ _ _ _ plans => exact sound.closed id plan (plans ▸ found)
  | generationsDropped _ _ _ dropped => exact sound.closed id plan (by subst dropped; exact found)
  | statusesWritten _ _ plans => exact sound.closed id plan (plans ▸ found)

theorem Consistent.planned_kept (sound : Consistent store) (effect : Effect rules store call done) (id : String)
    (row : CatalogGeneration) (found : done.generations.get? id = some row) :
    ∃ plan, done.plans.get? row.planId = some plan ∧ plan.state = .ready ∧ plan.agentId = row.agentId ∧
      plan.closure = some row.closure := by
  have before : ∃ plan, store.plans.get? row.planId = some plan ∧ plan.state = .ready ∧
      plan.agentId = row.agentId ∧ plan.closure = some row.closure := by
    obtain ⟨old,held,follows⟩ | ⟨made,_⟩ := effect.origin found
    · obtain ⟨plan,planned⟩ := sound.planned id old held
      exact ⟨plan,by simpa [follows.planId,follows.agentId,follows.closure] using planned⟩
    · exact made.planned
  obtain ⟨plan,held,ready,rest⟩ := before
  obtain ⟨later,found,follows⟩ := effect.plan held
  have same : later = plan := follows.settled (by simp [ready])
  exact ⟨plan,same ▸ found,ready,rest⟩

theorem Consistent.single_kept (sound : Consistent store) (effect : Effect rules store call done) (id id' : String)
    (row row' : CatalogGeneration) (found : done.generations.get? id = some row)
    (found' : done.generations.get? id' = some row') (same : row.planId = row'.planId) : id = id' := by
  rcases effect.origin found with ⟨old,held,follows⟩ | ⟨made,added⟩ <;>
    rcases effect.origin found' with ⟨old',held',follows'⟩ | ⟨made',_⟩
  · exact sound.single id id' old old' held held' (follows.planId ▸ follows'.planId ▸ same)
  · exact absurd (follows.planId ▸ same) (made'.single id old held)
  · exact absurd (follows'.planId ▸ same).symm (made.single id' old' held')
  · -- one call makes one generation
    rw [added,Table.get?_insert] at found'
    split at found'
    next here => exact here.symm
    next => rw [made'.fresh] at found'; cases found'

/-- Activating a generation leaves no other of its agent current. -/
theorem superseded_others {id id' : String} {row row' : CatalogGeneration}
    (activated : done.generations = (supersede store row.agentId).generations.insert id row)
    (found : done.generations.get? id' = some row') (now : row'.state.current = true)
    (same : row'.agentId = row.agentId) : id = id' := by
  rw [activated,Table.get?_insert] at found
  split at found
  next here => exact here.symm
  next =>
    rw [supersede,Table.get?_update,Option.map_eq_some_iff] at found
    obtain ⟨before,_,rfl⟩ := found
    have owned : before.agentId = row.agentId := (Follows.supersede before row.agentId).agentId ▸ same
    by_cases early : before.state.current = true
    · rw [owned,early,beq_self_eq_true,Bool.and_self,if_pos rfl] at now
      cases now
    · simp [early] at now

/-- The rows that a step leaves current were current, except for the one it activates. -/
theorem Effect.current (effect : Effect rules store call done) {id : String} {row : CatalogGeneration}
    (found : done.generations.get? id = some row) (now : row.state.current = true) :
    ∃ old, store.generations.get? id = some old ∧ old.agentId = row.agentId ∧
      (old.state.current = true ∨ old.state = .ready ∧
        done.generations = (supersede store row.agentId).generations.insert id row) := by
  have same : done.generations = store.generations → ∃ old, store.generations.get? id = some old ∧
      old.agentId = row.agentId ∧ (old.state.current = true ∨ old.state = .ready ∧
        done.generations = (supersede store row.agentId).generations.insert id row) := by
    intro same
    exact ⟨row,same ▸ found,rfl,.inl now⟩
  cases effect with
  | quiet _ generations => exact same generations
  | planAdded _ _ _ _ _ _ generations => exact same generations
  | planSettled _ _ _ _ _ _ _ generations => exact same generations
  | generationAdded other generation made _ generations =>
    rw [generations,Table.get?_insert] at found
    split at found
    next => cases found; simp [made.approved,GenerationState.current] at now
    next => exact ⟨row,found,rfl,.inl now⟩
  | generationNoted other error old present waits _ generations =>
    rw [generations,Table.get?_insert] at found
    split at found
    next here => cases found; subst here; exact ⟨old,present,rfl,.inl now⟩
    next => exact ⟨row,found,rfl,.inl now⟩
  | generationStepped other step time old present allowed _ _ generations =>
    have made := generations
    rw [generations,Table.get?_insert] at found
    split at found
    next here =>
      cases found
      subst here
      refine ⟨old,present,by cases step <;> rfl,?_⟩
      cases step with
      | approve => simp [GenerationStep.allowed] at allowed
      | ready => simp [CatalogGeneration.stepped,GenerationState.current] at now
      | active =>
        have ready : old.state = .ready := by simpa [GenerationStep.allowed] using allowed
        exact .inr ⟨ready,made⟩
      | degraded error =>
        have active : old.state = .active := by simpa [GenerationStep.allowed] using allowed
        exact .inl (by simp [active,GenerationState.current])
    next =>
      split at found
      next =>
        rw [supersede,Table.get?_update,Option.map_eq_some_iff] at found
        obtain ⟨before,held,rfl⟩ := found
        split at now
        next => simp [GenerationState.current] at now
        next apart => exact ⟨before,held,by rw [if_neg apart],.inl now⟩
      next => exact ⟨row,found,rfl,.inl now⟩
  | generationsDropped cut agent _ dropped =>
    subst dropped
    rw [catalogDiscardMoveGeneration,Table.get?_filter] at found
    exact ⟨row,(Option.filter_eq_some_iff.mp found).1,rfl,.inl now⟩
  | statusesWritten _ _ _ _ generations =>
    rw [generations,Table.get?_update,Option.map_eq_some_iff] at found
    obtain ⟨before,held,rfl⟩ := found
    refine ⟨before,held,(Follows.statusEffect done.statuses before).agentId.symm,.inl ?_⟩
    rcases statusEffect_cases done.statuses before with ⟨_,same⟩ | ⟨current,_⟩ | ⟨current,_⟩
    · rwa [same] at now
    · exact current
    · exact current

theorem Consistent.current_kept (sound : Consistent store) (effect : Effect rules store call done) (id id' : String)
    (row row' : CatalogGeneration) (found : done.generations.get? id = some row)
    (found' : done.generations.get? id' = some row') (now : row.state.current = true)
    (now' : row'.state.current = true) (same : row.agentId = row'.agentId) : id = id' := by
  obtain ⟨old,held,owned,early | ⟨_,activated⟩⟩ := effect.current found now
  · obtain ⟨old',held',owned',early' | ⟨_,activated'⟩⟩ := effect.current found' now'
    · exact sound.current id id' old old' held held' early early' (owned.trans (same.trans owned'.symm))
    · exact (superseded_others activated' found now same).symm
  · exact superseded_others activated found' now' same.symm

theorem Clear.idle {statuses : Statuses} {row : CatalogGeneration} (idle : row.state.current = false)
    (pinned : ∀ code name version reason, row.error ≠ some (.pinned code name version reason)) :
    Clear statuses row where
  unblocked := by intro active; simp [active,GenerationState.current] at idle
  degraded := by intro _ degraded; simp [degraded,GenerationState.current] at idle
  pinned := by intro code name version reason error; exact absurd error (pinned code name version reason)

theorem Clear.supersede {statuses : Statuses} {row : CatalogGeneration} (clear : Clear statuses row)
    (agent : String) : Clear statuses
      (if row.agentId == agent && row.state.current then { row with state := .superseded } else row) := by
  split
  next => exact ⟨nofun,fun _ => nofun,clear.pinned⟩
  next => exact clear

theorem Clear.statusEffect {statuses : Statuses} {row : CatalogGeneration} (named : statuses.Named)
    (pinned : ∀ code name version reason, row.error = some (.pinned code name version reason) →
      ∃ pin ∈ row.closure, pin.kind = .skill ∧ pin.name = name ∧ pin.version = version) :
    Clear statuses (statusEffect statuses row) := by
  rcases statusEffect_cases statuses row with ⟨idle,same⟩ | ⟨_,unblocked,same⟩ | ⟨_,status,blocked,same⟩ <;>
    rw [same]
  · refine ⟨?_,?_,pinned⟩
    · intro active; simp [active,GenerationState.current] at idle
    · intro _ degraded; simp [degraded,GenerationState.current] at idle
  · refine ⟨fun _ => unblocked,?_,pinned⟩
    intro status _ blocked
    rw [unblocked] at blocked
    cases blocked
  · refine ⟨fun active => (by cases active),?_,?_⟩
    · intro other _ found
      cases blocked.symm.trans found
      rfl
    · intro code name version reason error
      cases error
      exact statusError_pinned named blocked

theorem Clear.stepped {statuses : Statuses} {row : CatalogGeneration} {step : GenerationStep} (now : Int)
    (clear : Clear statuses row) (allowed : step.allowed row.state = true)
    (unblocked : step = .active → blockedStatus statuses row.closure = none) :
    Clear statuses (row.stepped step now) := by
  cases step with
  | approve => simp [GenerationStep.allowed] at allowed
  | ready => exact .idle rfl (by simp [CatalogGeneration.stepped])
  | active =>
    have none_blocked : blockedStatus statuses (skills row.closure) = none :=
      blockedStatus_none (List.filter_subset_self _) (unblocked rfl)
    exact ⟨fun _ => none_blocked,fun _ degraded => (by cases degraded),by simp [CatalogGeneration.stepped]⟩
  | degraded error =>
    have active : row.state = .active := by simpa [GenerationStep.allowed] using allowed
    refine ⟨fun active => (by cases active),?_,by simp [CatalogGeneration.stepped]⟩
    intro status _ blocked
    have none_blocked := clear.unblocked active
    rw [show (row.stepped (.degraded error) now).closure = row.closure from rfl,none_blocked] at blocked
    cases blocked

theorem Consistent.named_kept (sound : Consistent store) (effect : Effect rules store call done) :
    done.statuses.Named := by
  cases effect with
  | quiet _ _ statuses => exact statuses ▸ sound.named
  | planAdded _ _ _ _ _ _ _ statuses => exact statuses ▸ sound.named
  | planSettled _ _ _ _ _ _ _ _ statuses => exact statuses ▸ sound.named
  | generationAdded _ _ _ _ _ statuses => exact statuses ▸ sound.named
  | generationNoted _ _ _ _ _ _ _ statuses => exact statuses ▸ sound.named
  | generationStepped _ _ _ _ _ _ _ _ _ statuses => exact statuses ▸ sound.named
  | generationsDropped _ _ _ dropped => subst dropped; exact sound.named
  | statusesWritten _ _ _ statuses => exact statuses ▸ sound.named.fold

theorem Consistent.clear_kept (sound : Consistent store) (effect : Effect rules store call done) (id : String)
    (row : CatalogGeneration) (found : done.generations.get? id = some row) : Clear done.statuses row := by
  have same : done.generations = store.generations → done.statuses = store.statuses →
      Clear done.statuses row := by
    intro generations statuses
    exact statuses ▸ sound.clear id row (generations ▸ found)
  have named := sound.named_kept effect
  cases effect with
  | quiet _ generations statuses => exact same generations statuses
  | planAdded _ _ _ _ _ _ generations statuses => exact same generations statuses
  | planSettled _ _ _ _ _ _ _ generations statuses => exact same generations statuses
  | generationAdded other generation made _ generations statuses =>
    rw [generations,Table.get?_insert] at found
    split at found
    next =>
      cases found
      exact .idle (by simp [made.approved,GenerationState.current]) (by simp [made.clean])
    next => exact statuses ▸ sound.clear id row found
  | generationNoted other error old present waits _ generations statuses =>
    rw [generations,Table.get?_insert] at found
    split at found
    next =>
      cases found
      refine .idle ?_ (by simp)
      cases state : old.state <;> simp [state,GenerationState.waiting,GenerationState.current] at waits ⊢
    next => exact statuses ▸ sound.clear id row found
  | generationStepped other step now old present allowed unblocked _ generations statuses =>
    rw [generations,Table.get?_insert] at found
    rw [statuses]
    split at found
    next => cases found; exact (sound.clear other old present).stepped now allowed unblocked
    next =>
      split at found
      next =>
        rw [supersede,Table.get?_update,Option.map_eq_some_iff] at found
        obtain ⟨before,held,rfl⟩ := found
        exact (sound.clear id before held).supersede old.agentId
      next => exact sound.clear id row found
  | generationsDropped cut agent _ dropped =>
    subst dropped
    rw [catalogDiscardMoveGeneration,Table.get?_filter] at found
    exact sound.clear id row (Option.filter_eq_some_iff.mp found).1
  | statusesWritten _ _ _ statuses generations =>
    rw [generations,Table.get?_update,Option.map_eq_some_iff] at found
    obtain ⟨before,held,rfl⟩ := found
    exact .statusEffect named (sound.clear id before held).pinned

theorem Consistent.kept (sound : Consistent store) (effect : Effect rules store call done) : Consistent done where
  closed := sound.closed_kept effect
  planned := sound.planned_kept effect
  single := sound.single_kept effect
  current := sound.current_kept effect
  named := sound.named_kept effect
  clear := sound.clear_kept effect

end Steps

theorem Consistent.start : Consistent ∅ where
  closed := by intro id plan found; cases found
  planned := by intro id row found; cases found
  single := by intro id id' row row' found; cases found
  current := by intro id id' row row' found; cases found
  named := by intro name version status found; cases found
  clear := by intro id row found; cases found

theorem next_effect {rules : Rules} {world after : World} {call : Call}
    (taken : next rules world call = some after) : Effect rules world.store call after.store := by
  rw [next] at taken
  split at taken
  next done performed =>
    cases taken
    exact perform_effect performed
  next =>
    cases taken
    exact .quiet rfl rfl rfl

theorem reached_consistent {rules : Rules} {world : World} (reached : Reached rules world) :
    Consistent world.store :=
  reached.invariant (fun world => Consistent world.store) Consistent.start
    fun _ _ _ sound _ taken => sound.kept (next_effect taken)
end Entorhinal.Catalog
