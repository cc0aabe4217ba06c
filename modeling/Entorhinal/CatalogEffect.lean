import Entorhinal.CatalogWorld

/-! What an accepted call does to the store. -/
namespace Entorhinal.Catalog

variable {rules : Rules} {store done : CatalogStore} {id caller agent : String} {now : Int}

@[simp] theorem refuse_ok {code : String} {when : Bool} {u : Unit} :
    refuse code when = .ok u ↔ when = false := by
  cases when <;> simp [refuse]

@[simp] theorem reject_ok {code message : String} {when : Bool} {u : Unit} :
    reject code message when = .ok u ↔ when = false := by
  cases when <;> simp [reject]

@[simp] theorem required_ok {α : Type} {row : Option α} {value : α} :
    required row = .ok value ↔ row = some value := by
  cases row <;> simp [required]

@[simp] theorem live_ok {u : Unit} : live store agent = .ok u ↔ isLive store.agents agent = true := by
  simp [live]

@[simp] theorem owner_ok {u : Unit} : owner agent caller = .ok u ↔ agent = caller := by
  simp [owner]

@[simp] theorem lift_ok {α : Type} {result : Except CatalogWriteError α} {value : α} :
    lift result = .ok value ↔ result = .ok value := by
  cases result <;> simp [lift,Except.mapError]

theorem toOption_some {ε α : Type} {result : Except ε α} {value : α} :
    result.toOption = some value ↔ result = .ok value := by
  cases result <;> simp [Except.toOption]

/-- A transition answers a saved result and changes nothing, or it performs the step. -/
theorem transition_ok {α ρ : Type} [DecidableEq α] {name : α → String} {rows : List (Saved α ρ)}
    {step : α} {canonical : Bool} {action : Except CatalogWriteError (CatalogStore × ρ)}
    {save : CatalogStore → Saved α ρ → CatalogStore} {result : ρ}
    (ok : transition name rows store id step canonical action save = .ok (done,result)) :
    done = store ∨ ∃ made, action = .ok (made,result) ∧ done = save made ⟨id,step,result⟩ := by
  obtain ⟨_,_,ok⟩ := bind_ok ok
  split at ok
  next row _ =>
    obtain ⟨_,_,ok⟩ := bind_ok ok
    cases ok
    exact .inl rfl
  next =>
    obtain ⟨⟨made,answer⟩,acted,ok⟩ := bind_ok ok
    cases ok
    exact .inr ⟨made,acted,rfl⟩

theorem insertGeneration_ok {generation : CatalogGeneration}
    (ok : insertGeneration store id generation = .ok done) :
    store.generations.get? id = none ∧
      (∀ other row, store.generations.get? other = some row → row.planId ≠ generation.planId) ∧
      done = store.putGeneration id generation := by
  simp only [insertGeneration] at ok
  split at ok
  next => cases ok
  next free =>
    cases ok
    simp only [Bool.or_eq_true,not_or,Table.has,Option.isSome_iff_ne_none,not_not,Table.any_eq_true,
      beq_iff_eq,not_exists,not_and] at free
    exact ⟨free.1,free.2,rfl⟩

theorem stale_ok {plan : CatalogPlan} (fresh : stale rules store plan = .ok false) :
    currentDigest rules store plan.agentId = .ok plan.basePinDigest ∧
      plan.statusSnapshot = some (statusSnapshot store.statuses (plan.closure.getD [])) := by
  obtain ⟨digest,current,fresh⟩ := bind_ok fresh
  obtain ⟨saved,found,fresh⟩ := bind_ok fresh
  have same : (digest != plan.basePinDigest ||
      saved != statusSnapshot store.statuses (plan.closure.getD [])) = false := Except.ok.inj fresh
  rw [Bool.or_eq_false_iff,bne_eq_false_iff_eq,bne_eq_false_iff_eq] at same
  rw [required_ok] at found
  exact ⟨same.1 ▸ current,same.2 ▸ found⟩

theorem restorePins_ok {pins : List CatalogPin} {digest : PinDigest}
    (ok : restorePins rules store agent pins digest = .ok done) :
    pinDigest rules pins = .ok digest ∧ isLive store.agents agent = true ∧
      done = { store with pins := store.pins.insert agent (sortPins pins) } := by
  obtain ⟨expected,computed,ok⟩ := bind_ok ok
  split at ok
  next => cases ok
  next same =>
    split at ok
    next => cases ok
    next lives =>
      cases ok
      rw [not_not] at same
      exact ⟨same ▸ computed,by simpa using lives,rfl⟩

theorem writePins_ok {pins : List CatalogPin} {changed : Bool}
    (ok : writePins rules store agent pins = .ok (done,changed)) :
    ∃ digest, pinDigest rules pins = .ok digest ∧ isLive store.agents agent = true ∧
      (done = store ∧ readPins store agent = pins ∨
        done = { store with pins := store.pins.insert agent (sortPins pins) }) := by
  obtain ⟨digest,computed,ok⟩ := bind_ok ok
  split at ok
  next => cases ok
  next lives =>
    have lives : isLive store.agents agent = true := by simpa using lives
    split at ok
    next same =>
      cases ok
      simp only [Bool.and_eq_true,decide_eq_true_eq] at same
      exact ⟨digest,computed,lives,.inl ⟨rfl,same.1⟩⟩
    next =>
      obtain ⟨written,restored,ok⟩ := bind_ok ok
      cases ok
      exact ⟨digest,computed,lives,.inr (restorePins_ok restored).2.2⟩

theorem createPlan_ok {target : CatalogTarget} {operation : String} {spec : CatalogSpec}
    {plan : CatalogPlan}
    (ok : catalogCreatePlan rules store id caller target operation spec now = .ok (done,plan)) :
    done = store ∨ ∃ step base, store.plans.get? id = none ∧
      currentDigest rules store caller = .ok base ∧
      plan = ⟨caller,operation,spec,.pending,none,none,base,none,now,none⟩ ∧
      done = (store.putPlan id plan).savePlanStep ⟨id,step,plan⟩ := by
  obtain ⟨_,_,ok⟩ := bind_ok ok
  cases target with
  | tier tier => cases ok
  | agent agent =>
    dsimp only at ok
    obtain ⟨_,owned,owns⟩ := bind_ok ok
    obtain ⟨_,_,stepped⟩ := bind_ok owns
    rw [owner_ok] at owned
    subst owned
    refine (transition_ok stepped).imp_right ?_
    rintro ⟨made,acted,rfl⟩
    obtain ⟨_,_,acted⟩ := bind_ok acted
    obtain ⟨base,current,acted⟩ := bind_ok acted
    split at acted
    next => cases acted
    next fresh =>
      cases acted
      exact ⟨_,base,by simpa [Table.has] using fresh,current,rfl,rfl⟩

theorem savePrepared_ok {detail : PreparedPlan}
    (ok : catalogSavePrepared store id caller detail = .ok done) :
    done = { store with prepared := store.prepared.insert id detail } := by
  obtain ⟨plan,_,ok⟩ := bind_ok ok
  obtain ⟨_,_,ok⟩ := bind_ok ok
  obtain ⟨_,_,ok⟩ := bind_ok ok
  cases ok
  rfl

/-- A pending plan is settled: ready with a closure of skills made from the pins the plan
was created from, or failed. -/
inductive Settles (rules : Rules) (store : CatalogStore) (old : CatalogPlan) : CatalogPlan → Prop
  | ready (pins : List CatalogPin) (now : Int) (skills : ∀ pin ∈ pins, pin.kind = .skill)
      (valid : validatePins rules pins = .ok ())
      (base : currentDigest rules store old.agentId = .ok old.basePinDigest) :
      Settles rules store old { old with
        state := .ready, closure := some pins, readyAtMs := some now
        statusSnapshot := some (statusSnapshot store.statuses pins) }
  | failed (refusal : PlanRefusal) :
      Settles rules store old { old with state := .failed, refusal := some refusal }

theorem planReady_ok {pins : List CatalogPin} {plan : CatalogPlan}
    (ok : catalogPlanReady rules store id caller pins now = .ok (done,plan)) :
    done = store ∨ ∃ step old, store.plans.get? id = some old ∧ old.state = .pending ∧
      Settles rules store old plan ∧ done = (store.putPlan id plan).savePlanStep ⟨id,step,plan⟩ := by
  obtain ⟨old,found,ok⟩ := bind_ok ok
  obtain ⟨_,owned,ok⟩ := bind_ok ok
  refine (transition_ok ok).imp_right ?_
  rintro ⟨made,acted,rfl⟩
  obtain ⟨_,_,acted⟩ := bind_ok acted
  obtain ⟨_,pending,acted⟩ := bind_ok acted
  obtain ⟨_,valid,acted⟩ := bind_ok acted
  rw [readPlan,required_ok] at found
  rw [refuse_ok,bne_eq_false_iff_eq] at pending
  split at acted
  next pin other =>
    cases acted
    exact ⟨_,old,found,pending,.failed _,rfl⟩
  next allSkills =>
    obtain ⟨digest,current,acted⟩ := bind_ok acted
    obtain ⟨_,fresh,acted⟩ := bind_ok acted
    cases acted
    rw [refuse_ok,bne_eq_false_iff_eq] at fresh
    subst fresh
    have skills : ∀ pin ∈ sortPins pins, pin.kind = .skill := by simpa using allSkills
    exact ⟨_,old,found,pending,.ready (sortPins pins) now skills valid current,rfl⟩

theorem planFailed_ok {refusal : String} {plan : CatalogPlan}
    (ok : catalogPlanFailed rules store id caller refusal = .ok (done,plan)) :
    done = store ∨ ∃ step old, store.plans.get? id = some old ∧ old.state = .pending ∧
      Settles rules store old plan ∧ done = (store.putPlan id plan).savePlanStep ⟨id,step,plan⟩ := by
  obtain ⟨old,found,ok⟩ := bind_ok ok
  obtain ⟨_,_,ok⟩ := bind_ok ok
  refine (transition_ok ok).imp_right ?_
  rintro ⟨made,acted,rfl⟩
  obtain ⟨_,pending,acted⟩ := bind_ok acted
  cases acted
  rw [readPlan,required_ok] at found
  rw [refuse_ok,bne_eq_false_iff_eq] at pending
  exact ⟨_,old,found,pending,.failed _,rfl⟩

/-- A generation made from a ready plan: its id and its plan had none. -/
structure Made (store : CatalogStore) (id : String) (generation : CatalogGeneration) : Prop where
  fresh : store.generations.get? id = none
  single : ∀ other row, store.generations.get? other = some row → row.planId ≠ generation.planId
  planned : ∃ plan, store.plans.get? generation.planId = some plan ∧ plan.state = .ready ∧
    plan.agentId = generation.agentId ∧ plan.closure = some generation.closure
  approved : generation.state = .approved
  clean : generation.error = none

theorem approvePlan_ok {planId generationId : String} {generation : CatalogGeneration}
    (ok : catalogApprovePlan rules store planId caller generationId now = .ok (done,generation)) :
    done = store ∨ ∃ step, Made store generationId generation ∧
      done = (store.putGeneration generationId generation).saveGenerationStep ⟨generationId,step,generation⟩ := by
  obtain ⟨plan,found,ok⟩ := bind_ok ok
  obtain ⟨_,_,ok⟩ := bind_ok ok
  refine (transition_ok ok).imp_right ?_
  rintro ⟨made,acted,rfl⟩
  obtain ⟨_,_,acted⟩ := bind_ok acted
  obtain ⟨_,ready,acted⟩ := bind_ok acted
  rw [readPlan,required_ok] at found
  rw [refuse_ok,bne_eq_false_iff_eq] at ready
  split at acted
  next => cases acted
  next pins closed =>
    obtain ⟨old,_,acted⟩ := bind_ok acted
    obtain ⟨_,_,acted⟩ := bind_ok acted
    obtain ⟨_,_,acted⟩ := bind_ok acted
    obtain ⟨digest,_,acted⟩ := bind_ok acted
    obtain ⟨inserted,placed,acted⟩ := bind_ok acted
    cases acted
    obtain ⟨fresh,single,rfl⟩ := insertGeneration_ok placed
    exact ⟨_,⟨fresh,single,⟨plan,found,ready,rfl,closed⟩,rfl,rfl⟩,rfl⟩

theorem generationStep_ok {step : GenerationStep} {generation : CatalogGeneration}
    (ok : catalogGenerationStep rules store id caller step now = .ok (done,generation)) :
    done = store ∨ ∃ old, store.generations.get? id = some old ∧ step.allowed old.state = true ∧
      (step = .active → blockedStatus store.statuses old.closure = none) ∧
      generation = old.stepped step now ∧
      done = ((if step = .active then supersede store old.agentId else store).putGeneration id
        generation).saveGenerationStep ⟨id,step,generation⟩ := by
  obtain ⟨old,found,ok⟩ := bind_ok ok
  obtain ⟨_,_,ok⟩ := bind_ok ok
  obtain ⟨_,unblocked,ok⟩ := bind_ok ok
  refine (transition_ok ok).imp_right ?_
  rintro ⟨made,acted,rfl⟩
  obtain ⟨_,_,acted⟩ := bind_ok acted
  obtain ⟨_,allowed,acted⟩ := bind_ok acted
  rw [readGeneration,required_ok] at found
  rw [refuse_ok] at unblocked allowed
  generalize named : (if step = .active then supersede store old.agentId else store) = base at acted
  dsimp only at acted
  split at acted
  next => cases acted
  next =>
    cases acted
    refine ⟨old,found,by simpa using allowed,?_,rfl,by rw [named]⟩
    intro active
    simpa [active] using unblocked

theorem prefetchError_ok {error : String} (ok : catalogPrefetchError store id caller error = .ok done) :
    done = store ∨ ∃ old, store.generations.get? id = some old ∧ old.state.waiting = true ∧
      done = store.putGeneration id { old with error := some (.given error) } := by
  obtain ⟨old,found,ok⟩ := bind_ok ok
  obtain ⟨_,_,ok⟩ := bind_ok ok
  rw [readGeneration,required_ok] at found
  split at ok
  next waits =>
    cases ok
    exact .inr ⟨old,found,waits,rfl⟩
  next =>
    cases ok
    exact .inl rfl

theorem installable_ok {plan : CatalogPlan} (ok : installable rules store id caller = .ok plan) :
    store.plans.get? id = some plan ∧ plan.agentId = caller ∧ isLive store.agents caller = true ∧
      plan.state = .ready ∧ stale rules store plan = .ok false := by
  obtain ⟨row,found,ok⟩ := bind_ok ok
  obtain ⟨_,owned,ok⟩ := bind_ok ok
  obtain ⟨_,lives,ok⟩ := bind_ok ok
  rw [readPlan,required_ok] at found
  rw [owner_ok] at owned
  rw [live_ok] at lives
  split at ok
  next => cases ok
  next => cases ok
  next ready =>
    obtain ⟨old,checked,ok⟩ := bind_ok ok
    obtain ⟨_,fresh,ok⟩ := bind_ok ok
    cases ok
    rw [refuse_ok] at fresh
    exact ⟨found,owned,lives,ready,fresh ▸ checked⟩

/-- What an accepted install read and wrote. -/
structure Installs (rules : Rules) (store : CatalogStore) (consent : ConsentCommit)
    (planId principal : String) (now : Int) (plan : CatalogPlan) (detail : PreparedPlan)
    (generation : CatalogGeneration) (permissions : Permissions) (result : Installed) : Prop where
  planned : store.plans.get? planId = some plan
  ready : plan.state = .ready
  owned : plan.agentId = consent.agentId
  lives : isLive store.agents consent.agentId = true
  fresh : stale rules store plan = .ok false
  detailed : store.prepared.get? planId = some detail
  closed : plan.closure = some (detail.packages.map (·.pin))
  made : Made store s!"generation:{planId}" generation
  closure : generation.closure = detail.packages.map (·.pin)
  authorized : ∃ always, authorizeInstall store consent
    (authorizationOperation plan.operation (readPins store consent.agentId) (detail.packages.map (·.pin)))
    detail = .ok always ∧
    result.granted = if always then publisherGrants consent planId detail.packages now else []
  put : putGrants store.permissions result.granted principal = .ok permissions
  written : ∃ changed, writePins rules
    { store.putGeneration s!"generation:{planId}" generation with permissions := permissions }
    consent.agentId (detail.packages.map (·.pin)) = .ok (result.store,changed)

theorem install_ok {commit : Option ConsentCommit} {planId principal : String} {result : Installed}
    (ok : catalogInstall rules store commit planId principal now = .ok result) :
    ∃ consent plan detail generation permissions, commit = some consent ∧
      Installs rules store consent planId principal now plan detail generation permissions result := by
  rcases commit with _ | consent
  · cases ok
  · obtain ⟨candidate,_,ok⟩ := bind_ok ok
    obtain ⟨_,_,ok⟩ := bind_ok ok
    obtain ⟨_,_,ok⟩ := bind_ok ok
    obtain ⟨_,_,ok⟩ := bind_ok ok
    obtain ⟨plan,chosen,ok⟩ := bind_ok ok
    obtain ⟨detail,detailed,ok⟩ := bind_ok ok
    obtain ⟨_,_,ok⟩ := bind_ok ok
    obtain ⟨always,authorized,ok⟩ := bind_ok ok
    rw [lift_ok] at chosen detailed
    obtain ⟨planned,owned,lives,ready,fresh⟩ := installable_ok chosen
    split at ok
    next => cases ok
    next pins closed =>
      obtain ⟨_,checked,ok⟩ := bind_ok ok
      obtain ⟨digest,_,ok⟩ := bind_ok ok
      obtain ⟨inserted,placed,ok⟩ := bind_ok ok
      obtain ⟨permissions,put,ok⟩ := bind_ok ok
      obtain ⟨⟨written,changed⟩,wrote,ok⟩ := bind_ok ok
      cases ok
      rw [reject_ok,bne_eq_false_iff_eq] at checked
      subst checked
      rw [lift_ok] at placed put wrote
      obtain ⟨free,single,rfl⟩ := insertGeneration_ok placed
      rw [closed] at authorized
      exact ⟨consent,plan,detail,_,permissions,rfl,planned,ready,owned,lives,fresh,
        required_ok.mp detailed,closed,⟨free,single,⟨plan,planned,ready,owned,closed⟩,rfl,rfl⟩,rfl,
        ⟨always,authorized,rfl⟩,put,⟨changed,wrote⟩⟩

end Entorhinal.Catalog
