import Entorhinal.CatalogConsistent

/-! Pins and generations over runs of calls: plans and generations only move on, and a
plan installs only from the pins it was created from. -/
namespace Entorhinal.Catalog

theorem validatePins_sort (rules : Rules) (pins : List CatalogPin) :
    validatePins rules (sortPins pins) = validatePins rules pins := by
  have permuted : (sortPins pins).Perm pins := List.perm_insertionSort _ pins
  have names : ((sortPins pins).map (·.name)).Nodup ↔ (pins.map (·.name)).Nodup :=
    (permuted.map (·.name)).nodup_iff
  have valid : (sortPins pins).all (validPin rules) = pins.all (validPin rules) := permuted.all_eq
  simp only [validatePins,names,valid]

theorem pinDigest_sort (rules : Rules) (pins : List CatalogPin) :
    pinDigest rules (sortPins pins) = pinDigest rules pins := by
  have ordered : sortPins (sortPins pins) = sortPins pins :=
    (List.pairwise_insertionSort (fun a b : CatalogPin => a.name ≤ b.name) pins).insertionSort_eq
  rw [pinDigest,pinDigest,validatePins_sort,ordered]

theorem currentDigest_congr {rules : Rules} {store done : CatalogStore} {agent : String}
    (same : done.pins.get? agent = store.pins.get? agent) :
    currentDigest rules done agent = currentDigest rules store agent := by
  rw [currentDigest,currentDigest,readPins,readPins,same]

theorem writePins_digest {rules : Rules} {store done : CatalogStore} {agent : String} {pins : List CatalogPin}
    {changed : Bool} (ok : writePins rules store agent pins = .ok (done,changed)) :
    currentDigest rules done agent = pinDigest rules pins := by
  obtain ⟨_,_,_,⟨rfl,same⟩ | rfl⟩ := writePins_ok ok
  · rw [currentDigest,same]
  · rw [currentDigest,readPins,Table.get?_insert,if_pos rfl,Option.getD_some,pinDigest_sort]

/-- The calls that may replace an agent's pins. -/
def Call.writesPins (call : Call) (agent : String) : Bool :=
  match call with
  | .setPins written _ => written == agent
  | .remotePins written _ _ => written == agent
  | .install (some consent) _ _ _ => consent.agentId == agent
  | _ => false

section Steps

variable {rules : Rules} {store done : CatalogStore} {id caller agent : String} {now : Int}

theorem generationStep_pins {step : GenerationStep} {generation : CatalogGeneration}
    (ok : catalogGenerationStep rules store id caller step now = .ok (done,generation)) :
    done.pins = store.pins := by
  obtain rfl | ⟨old,_,_,_,_,rfl⟩ := generationStep_ok ok
  · rfl
  · split <;> rfl

theorem writePins_others {pins : List CatalogPin} {written : String} {changed : Bool}
    (ok : writePins rules store written pins = .ok (done,changed)) (other : written ≠ agent) :
    done.pins.get? agent = store.pins.get? agent := by
  obtain ⟨_,_,_,⟨rfl,_⟩ | rfl⟩ := writePins_ok ok
  · rfl
  · simp [Ne.symm other]

theorem perform_pins {call : Call} {outcome : Outcome} (performed : perform rules store call = some outcome)
    (unwritten : call.writesPins agent = false) :
    outcome.store.pins.get? agent = store.pins.get? agent := by
  cases call <;> simp only [perform,Option.map_eq_some_iff,toOption_some,Option.some.injEq] at performed
  case createPlan =>
    obtain ⟨⟨after,plan⟩,ok,rfl⟩ := performed
    obtain rfl | ⟨_,_,_,_,_,rfl⟩ := createPlan_ok ok <;> rfl
  case savePrepared =>
    obtain ⟨after,ok,rfl⟩ := performed
    obtain rfl := savePrepared_ok ok
    rfl
  case planReady =>
    obtain ⟨⟨after,plan⟩,ok,rfl⟩ := performed
    obtain rfl | ⟨_,_,_,_,_,rfl⟩ := planReady_ok ok <;> rfl
  case planFailed =>
    obtain ⟨⟨after,plan⟩,ok,rfl⟩ := performed
    obtain rfl | ⟨_,_,_,_,_,rfl⟩ := planFailed_ok ok <;> rfl
  case approvePlan =>
    obtain ⟨⟨after,generation⟩,ok,rfl⟩ := performed
    obtain rfl | ⟨_,_,rfl⟩ := approvePlan_ok ok <;> rfl
  case generationReady =>
    obtain ⟨⟨after,generation⟩,ok,rfl⟩ := performed
    exact congrArg (·.get? agent) (generationStep_pins ok)
  case activateGeneration =>
    obtain ⟨⟨after,generation⟩,ok,rfl⟩ := performed
    exact congrArg (·.get? agent) (generationStep_pins ok)
  case degradeGeneration =>
    obtain ⟨⟨after,generation⟩,ok,rfl⟩ := performed
    exact congrArg (·.get? agent) (generationStep_pins ok)
  case discardMoveGeneration => subst performed; rfl
  case prefetchError =>
    obtain ⟨after,ok,rfl⟩ := performed
    obtain rfl | ⟨_,_,_,rfl⟩ := prefetchError_ok ok <;> rfl
  case install =>
    obtain ⟨result,ok,rfl⟩ := performed
    obtain ⟨consent,_,_,_,_,rfl,installs⟩ := install_ok ok
    obtain ⟨_,written⟩ := installs.written
    have other : consent.agentId ≠ agent := by simpa [Call.writesPins] using unwritten
    have kept := writePins_others written other
    exact kept
  case setPins written pins =>
    obtain ⟨⟨after,changed⟩,ok,rfl⟩ := performed
    have other : written ≠ agent := by simpa [Call.writesPins] using unwritten
    exact writePins_others ok other
  case remotePins written pins digest =>
    obtain ⟨after,ok,rfl⟩ := performed
    obtain ⟨_,_,rfl⟩ := restorePins_ok ok
    have other : written ≠ agent := by simpa [Call.writesPins] using unwritten
    simp [Outcome.quiet,Ne.symm other]
  case writeStatuses records =>
    subst performed
    cases records <;> rfl
  case setAgent => subst performed; rfl
  case insertGrant =>
    obtain ⟨⟨permissions,_⟩,_,performed⟩ := bind_ok performed
    cases performed
    rfl
  case revokeGrant => subst performed; rfl

/-- An accepted install starts from the pins the plan was created from and ends with the
pins of its closure. -/
theorem install_fresh {commit : Option ConsentCommit} {planId principal : String} {result : Installed}
    {plan : CatalogPlan} (found : store.plans.get? planId = some plan)
    (ok : catalogInstall rules store commit planId principal now = .ok result) :
    currentDigest rules store plan.agentId = .ok plan.basePinDigest ∧
      ∃ pins, plan.closure = some pins ∧ currentDigest rules result.store plan.agentId = pinDigest rules pins := by
  obtain ⟨consent,_,_,_,_,_,installs⟩ := install_ok ok
  cases found.symm.trans installs.planned
  obtain ⟨_,written⟩ := installs.written
  refine ⟨(stale_ok installs.fresh).1,_,installs.closed,?_⟩
  rw [installs.owned]
  exact writePins_digest written

theorem bind_of_ok {ε α β : Type} {first : Except ε α} {value : α} (ok : first = .ok value)
    (rest : α → Except ε β) : (first >>= rest) = rest value := by
  rw [ok]
  rfl

/-- A ready plan whose pins have changed is refused as stale. -/
theorem install_stale {consent : ConsentCommit} {planId principal : String} {plan : CatalogPlan}
    {digest : PinDigest} (found : store.plans.get? planId = some plan) (ready : plan.state = .ready)
    (snapshot : plan.statusSnapshot.isSome = true) (owned : plan.agentId = consent.agentId)
    (lives : isLive store.agents consent.agentId = true)
    (free : slotConflict store plan consent.agentId = none)
    (current : currentDigest rules store plan.agentId = .ok digest) (moved : digest ≠ plan.basePinDigest) :
    catalogInstall rules store (some consent) planId principal now =
      .error (.domain "plan_stale" "plan_stale" none) := by
  obtain ⟨saved,snapped⟩ := Option.isSome_iff_exists.mp snapshot
  have read : readPlan store planId = .ok plan := required_ok.mpr found
  have owns : owner plan.agentId consent.agentId = .ok () := owner_ok.mpr owned
  have alive : live store consent.agentId = .ok () := live_ok.mpr lives
  have unconflicted : rejectConflict (slotConflict store plan consent.agentId) = .ok () := by rw [free]; rfl
  have old : stale rules store plan = .ok true := by
    refine (bind_of_ok current _).trans ?_
    refine (bind_of_ok (required_ok.mpr snapped) _).trans ?_
    simp only [bne_iff_ne.mpr moved,Bool.true_or]
    rfl
  have refused : installable rules store planId consent.agentId = .error (.refused "plan_stale") := by
    refine (bind_of_ok read _).trans ?_
    refine (bind_of_ok owns _).trans ?_
    refine (bind_of_ok alive _).trans ?_
    rw [ready]
    exact (bind_of_ok old _).trans rfl
  refine (bind_of_ok (lift_ok.mpr read) _).trans ?_
  refine (bind_of_ok (lift_ok.mpr owns) _).trans ?_
  refine (bind_of_ok (lift_ok.mpr alive) _).trans ?_
  refine (bind_of_ok unconflicted _).trans ?_
  dsimp only
  rw [refused]
  rfl

end Steps

section Runs

variable {rules : Rules} {world world' : World}

theorem run_plan {allow : World → Call → Prop} (run : Transition.Reach (next rules) allow world world')
    {id : String} {plan : CatalogPlan} (found : world.store.plans.get? id = some plan) :
    ∃ later, world'.store.plans.get? id = some later ∧ PlanFollows plan later := by
  refine run.invariant (fun world => ∃ later, world.store.plans.get? id = some later ∧ PlanFollows plan later)
    ⟨plan,found,.refl plan⟩ ?_
  rintro before call after ⟨middle,held,follows⟩ _ taken
  obtain ⟨later,held,onward⟩ := (next_effect taken).plan held
  exact ⟨later,held,follows.trans onward⟩

/-- A generation that was activated stays. -/
theorem run_activated {allow : World → Call → Prop} (run : Transition.Reach (next rules) allow world world')
    {id : String} {row : CatalogGeneration} (found : world.store.generations.get? id = some row)
    (activated : 2 ≤ row.state.rank) :
    ∃ later, world'.store.generations.get? id = some later ∧ Follows row later := by
  refine run.invariant (fun world => ∃ later, world.store.generations.get? id = some later ∧ Follows row later)
    ⟨row,found,.refl row⟩ ?_
  rintro before call after ⟨middle,held,follows⟩ _ taken
  obtain ⟨later,held,onward⟩ | ⟨early,_⟩ := (next_effect taken).generation held
  · exact ⟨later,held,follows.trans onward⟩
  · have rank : row.state.rank ≤ middle.state.rank := by
      rcases follows.onward with same | less
      · rw [same]
      · exact less.le
    omega

/-- The calls that do not discard a generation. -/
def Spares (id : String) : World → Call → Prop :=
  fun _ call => ∀ cut agent, call = .discardMoveGeneration cut agent → id ≠ s!"generation:move:{cut}"

theorem next_generation {id : String} {call : Call} (spared : Spares id world call)
    (taken : next rules world call = some world') {row : CatalogGeneration}
    (found : world.store.generations.get? id = some row) :
    ∃ later, world'.store.generations.get? id = some later ∧ Follows row later := by
  rcases (next_effect taken).generation found with kept | ⟨_,cut,named,called⟩
  · exact kept
  · exact absurd named (spared cut row.agentId called)

theorem run_generation {id : String} (run : Transition.Reach (next rules) (Spares id) world world')
    {row : CatalogGeneration} (found : world.store.generations.get? id = some row) :
    ∃ later, world'.store.generations.get? id = some later ∧ Follows row later := by
  refine run.invariant (fun world => ∃ later, world.store.generations.get? id = some later ∧ Follows row later)
    ⟨row,found,.refl row⟩ ?_
  rintro before call after ⟨middle,held,follows⟩ spared taken
  obtain ⟨later,held,onward⟩ := next_generation spared taken held
  exact ⟨later,held,follows.trans onward⟩

/-- An agent's pins are the same while no call may write them. -/
theorem run_pins {agent : String}
    (run : Transition.Reach (next rules) (fun _ call => call.writesPins agent = false) world world') :
    currentDigest rules world'.store agent = currentDigest rules world.store agent := by
  refine run.invariant
    (fun after => currentDigest rules after.store agent = currentDigest rules world.store agent) rfl ?_
  intro before call after same unwritten taken
  rw [next] at taken
  split at taken
  next done performed =>
    cases taken
    exact (currentDigest_congr (perform_pins performed unwritten)).trans same
  next => cases taken; exact same

end Runs

/-- Activating a ready generation supersedes the agent's current one and nothing else. -/
def Activates (store done : CatalogStore) (id : String) (now : Int) : Prop :=
  ∃ old, store.generations.get? id = some old ∧ old.state = .ready ∧
    blockedStatus store.statuses old.closure = none ∧
    done.generations.get? id = some { old with state := .active, error := none, activatedAtMs := some now } ∧
    ∀ other, other ≠ id → done.generations.get? other = (store.generations.get? other).map fun row =>
      if row.agentId == old.agentId && row.state.current then { row with state := .superseded } else row

theorem activate_ok {rules : Rules} {store done : CatalogStore} {id caller : String} {now : Int}
    {result : CatalogGeneration}
    (ok : catalogActivateGeneration rules store id caller now = .ok (done,result)) :
    done = store ∨ Activates store done id now := by
  obtain rfl | ⟨old,found,allowed,unblocked,rfl,rfl⟩ := generationStep_ok ok
  · exact .inl rfl
  · have ready : old.state = .ready := by simpa [GenerationStep.allowed] using allowed
    refine .inr ⟨old,found,ready,unblocked rfl,?_,?_⟩
    · simp [CatalogStore.saveGenerationStep,CatalogStore.putGeneration,CatalogGeneration.stepped]
    · intro other apart
      simp [CatalogStore.saveGenerationStep,CatalogStore.putGeneration,supersede,apart]

/-- What every reachable catalog keeps, for all calls in any order, repeated or not. -/
theorem generations_law {rules : Rules} {world : World} (reached : Reached rules world) :
    (∀ id id' row row', world.store.generations.get? id = some row →
      world.store.generations.get? id' = some row' → row.state.current = true → row'.state.current = true →
        row.agentId = row'.agentId → id = id') ∧
    (∀ id caller now done result,
      catalogActivateGeneration rules world.store id caller now = .ok (done,result) →
        done = world.store ∨ Activates world.store done id now) ∧
    (∀ world', Transition.Reach (next rules) Transition.Free world world' →
      (∀ id plan, world.store.plans.get? id = some plan →
        ∃ later, world'.store.plans.get? id = some later ∧ PlanFollows plan later) ∧
      (∀ id row, world.store.generations.get? id = some row → 2 ≤ row.state.rank →
        ∃ later, world'.store.generations.get? id = some later ∧ Follows row later ∧
          (row.state = .superseded → later.state = .superseded))) ∧
    (∀ id row, world.store.generations.get? id = some row →
      (∃ plan, world.store.plans.get? row.planId = some plan ∧ plan.state = .ready ∧
        plan.agentId = row.agentId ∧ plan.closure = some row.closure) ∧
      (∀ id' row', world.store.generations.get? id' = some row' → row.planId = row'.planId → id = id') ∧
      ∀ world', Transition.Reach (next rules) (Spares id) world world' →
        ∃ later, world'.store.generations.get? id = some later ∧ Follows row later) ∧
    (∀ planId plan, world.store.plans.get? planId = some plan →
      (∀ commit principal now result,
        catalogInstall rules world.store commit planId principal now = .ok result →
          currentDigest rules world.store plan.agentId = .ok plan.basePinDigest ∧
          ∃ pins, plan.closure = some pins ∧
            currentDigest rules result.store plan.agentId = pinDigest rules pins) ∧
      (currentDigest rules world.store plan.agentId ≠ .ok plan.basePinDigest →
        ∀ commit principal now, next rules world (.install commit planId principal now) = some world) ∧
      (∀ consent principal now digest, plan.state = .ready → plan.statusSnapshot.isSome = true →
        plan.agentId = consent.agentId → isLive world.store.agents consent.agentId = true →
        slotConflict world.store plan consent.agentId = none →
        currentDigest rules world.store plan.agentId = .ok digest → digest ≠ plan.basePinDigest →
          catalogInstall rules world.store (some consent) planId principal now =
            .error (.domain "plan_stale" "plan_stale" none))) ∧
    (∀ agent world',
      Transition.Reach (next rules) (fun _ call => call.writesPins agent = false) world world' →
        currentDigest rules world'.store agent = currentDigest rules world.store agent) ∧
    (∀ id row, world.store.generations.get? id = some row → Clear world.store.statuses row) := by
  have sound := reached_consistent reached
  refine ⟨sound.current,?_,?_,?_,?_,?_,sound.clear⟩
  · intro id caller now done result ok
    exact activate_ok ok
  · intro world' run
    refine ⟨fun id plan found => run_plan run found,?_⟩
    intro id row found activated
    obtain ⟨later,held,follows⟩ := run_activated run found activated
    exact ⟨later,held,follows,follows.superseded⟩
  · intro id row found
    exact ⟨sound.planned id row found,fun id' row' found' => sound.single id id' row row' found found',
      fun world' run => run_generation run found⟩
  · intro planId plan found
    refine ⟨fun commit principal now result ok => install_fresh found ok,?_,?_⟩
    · intro moved commit principal now
      rw [next,perform]
      cases refused : catalogInstall rules world.store commit planId principal now with
      | error e => rfl
      | ok result => exact absurd (install_fresh found refused).1 moved
    · intro consent principal now digest ready snapshot owned lives free current moved
      exact install_stale found ready snapshot owned lives free current moved
  · intro agent world' run
    exact run_pins run

namespace Repeated

def anyRules : Rules := ⟨fun _ => true,fun _ => true,fun _ => true,fun _ => true⟩

def hash : String := String.ofList (List.replicate 64 'a')

def pin : CatalogPin := ⟨"@example/tool","1.0.0",.skill,hash,hash,hash,true,some "*"⟩

def detail : PreparedPlan := ⟨[⟨pin,"pinned",[],false,false⟩],"",[]⟩

def plan (id : String) : List Call :=
  [.createPlan id "agent" (.agent "agent") "install" ⟨"@example/tool","*"⟩ 0,
    .savePrepared id "agent" detail,.planReady id "agent" [pin] 1]

def consent (planId : String) : ConsentCommit :=
  ⟨"agent",none,some ⟨"answered",some "approve_once","card"⟩,.card "card" "approve_once","catalog_install",
    some ⟨planId,[pin.identity],detail⟩⟩

def install (planId : String) : Call := .install (some (consent planId)) planId "presence" 2

/-- Two plans are made from the same pins, each with the closure the agent holds. -/
def calls : List Call := [.setAgent "agent" .live,.setPins "agent" [pin]] ++ plan "p1" ++ plan "p2"

def world : World := (Transition.exec (next anyRules) World.start calls).getD World.start

def once : World := (next anyRules world (install "p1")).getD world

/-- The pins are replaced before the second plan installs. -/
def moved : World := (next anyRules once (.setPins "agent" [])).getD once

/-- The calls run, both plans are ready for the same pins and install one after the other, and the second one is stale
where the pins are replaced. -/
theorem computed : (Transition.exec (next anyRules) World.start calls).isSome = true ∧
    ((world.store.plans.get? "p1").isSome = true ∧ (world.store.plans.get? "p2").isSome = true ∧
      (world.store.plans.get? "p1").map (fun plan => (plan.agentId,plan.basePinDigest)) =
        (world.store.plans.get? "p2").map (fun plan => (plan.agentId,plan.basePinDigest)) ∧
      (catalogInstall anyRules world.store (some (consent "p1")) "p1" "presence" 2).toOption.any
        (fun result =>
          (catalogInstall anyRules result.store (some (consent "p2")) "p2" "presence" 2).isOk) = true) ∧
    (moved.store.plans.get? "p2").map (fun plan => (plan.agentId,plan.basePinDigest)) = some ("agent",[pin.identity]) ∧
    currentDigest anyRules moved.store "agent" ≠ .ok [pin.identity] := by
  decide +kernel

theorem reached : Reached anyRules world := by
  suffices ran : Transition.exec (next anyRules) World.start calls = some world from Transition.exec_reach ran
  rw [world]
  cases run : Transition.exec (next anyRules) World.start calls with
  | some after => rfl
  | none =>
    have enabled := computed.1
    simp [run] at enabled

theorem reached_once : Reached anyRules once := by
  apply reached.step (install "p1") trivial
  rw [once]
  cases taken : next anyRules world (install "p1") with
  | some after => rfl
  | none => rw [next] at taken; split at taken <;> cases taken

/-- Both plans install: the first one left the pins as they were. -/
theorem both_install : ¬ ∀ world, Reached anyRules world → ∀ p q plan plan', p ≠ q →
    world.store.plans.get? p = some plan → world.store.plans.get? q = some plan' →
      plan.agentId = plan'.agentId → plan.basePinDigest = plan'.basePinDigest →
        ∀ commit commit' principal principal' now now' result result',
          catalogInstall anyRules world.store commit p principal now = .ok result →
            catalogInstall anyRules result.store commit' q principal' now' ≠ .ok result' := by
  intro law
  have facts := computed.2.1
  obtain ⟨plan,found⟩ := Option.isSome_iff_exists.mp facts.1
  obtain ⟨plan',found'⟩ := Option.isSome_iff_exists.mp facts.2.1
  have same := facts.2.2.1
  rw [found,found'] at same
  injection same with same
  injection same with agents bases
  have second : (catalogInstall anyRules world.store (some (consent "p1")) "p1" "presence" 2).toOption.any
      (fun result =>
        (catalogInstall anyRules result.store (some (consent "p2")) "p2" "presence" 2).isOk) = true := facts.2.2.2
  cases installed : catalogInstall anyRules world.store (some (consent "p1")) "p1" "presence" 2 with
  | error e =>
    rw [installed] at second
    cases second
  | ok result =>
    simp only [installed,Except.toOption,Option.any_some] at second
    cases again : catalogInstall anyRules result.store (some (consent "p2")) "p2" "presence" 2 with
    | error e => simp [again,Except.isOk,Except.toBool] at second
    | ok result' =>
      exact law world reached "p1" "p2" plan plan' (by decide) found found' agents bases _ _ _ _ _ _ result
        result' installed again

theorem reached_moved : Reached anyRules moved := by
  apply reached_once.step (.setPins "agent" []) trivial
  rw [moved]
  cases taken : next anyRules once (.setPins "agent" []) with
  | some after => rfl
  | none => rw [next] at taken; split at taken <;> cases taken

theorem moved_stale : next anyRules moved (install "p2") = some moved := by
  have planned := computed.2.2
  obtain ⟨plan,found,same⟩ := Option.map_eq_some_iff.mp planned.1
  injection same with agent base
  have differs : currentDigest anyRules moved.store plan.agentId ≠ .ok plan.basePinDigest := by
    rw [agent,base]
    exact planned.2
  exact ((generations_law reached_moved).2.2.2.2.1 "p2" plan found).2.1 differs _ _ _

end Repeated

end Entorhinal.Catalog
