import Entorhinal.SessionRuns

/-! The session set of a moving agent, from the commit of its admission until
the source's checkpoint is terminal, under every order of session calls, other
moves and the drivers' checkpoints. -/
namespace Entorhinal.SessionFreeze
open Session Transition
open SessionRuns (Call CallLaw CallEffect Outcome Fresh perform)

/-- The steps a checkpoint of a side goes through. -/
def sideSteps : MoveSide → List MoveStep
  | .source => [.preparing,.exported,.sealed,.published,.releasing,.released,.aborted]
  | .receiver => [.pickedUp,.imported,.staged,.claimed,.activating,.activated,.done,.takenOver,.aborted]

/-- A driver's checkpoint of an open move keeps its agent, side and plan.
Activation has a transaction of its own. -/
def advanceMove (store : SessionStore) (cutId : String) (step : MoveStep) : Option SessionStore :=
  match store.moves.get? cutId with
  | none => none
  | some m =>
    if !m.step.isTerminal && (sideSteps m.side).contains step &&
        (step != .activated || m.step == .activated) then
      some { store with moves := store.moves.insert cutId { m with step := step } }
    else none

inductive Label
  | call (call : Call)
  | admitting (admission : Admission) (pinsSame : Bool)
  | receive (cutId : String) (row : OpenMove)
  | advance (cutId : String) (step : MoveStep)
  | outside (cutOver : Bool) (agents : Table String AgentPresence)
      (claims : Table String ClaimCache.CachedClaim) (self : Option String)
      (memberName : Table String String) (origin : Option String)

/-- What a transaction leaves: its result, or the store as it was. -/
def settle (store : SessionStore) : Except AgentMutationError SessionStore → SessionStore
  | .ok store' => store'
  | .error _ => store

def next (store : SessionStore) : Label → Option SessionStore
  | .call call => (perform store call).map (settle store)
  | .admitting admission pinsSame => some (settle store (admitMove store admission pinsSame))
  | .receive cutId row => some (settle store (admitReceivedMove store cutId row))
  | .advance cutId step => advanceMove store cutId step
  | .outside cutOver agents claims self memberName origin => some { store with
      cutOver := cutOver
      agents := agents
      claims := claims
      selfAuthor := self
      memberName := memberName
      storeOrigin := origin }

def Allowed (store : SessionStore) : Label → Prop
  | .call call => call.Real store
  | _ => True

/-- What the source promises of a move while it is open: the planned bindings are
there and the agent's, no live binding of the agent is outside the plan, and
the export finds them so. -/
structure Frozen (store : SessionStore) (cutId : String) (m : OpenMove) : Prop where
  planned : ∀ ref ∈ planBindingRefs m, ∃ row, store.bindings.get? ref = some row ∧
    row.agentId = m.agentId
  live : ∀ key row, store.bindings.get? key = some row → row.agentId = m.agentId →
    row.endedAtMs = none → key ∈ planBindingRefs m
  exported : exportSessionBindings store cutId m.agentId ≠ bindingsDiffer

section Admissions

variable {store store' : SessionStore} {cutId : String} {row : OpenMove}

theorem insertMove_ok (ok : store.insertMove cutId row = .ok store') :
    store.moves.has cutId = false ∧ store' = { store with moves := store.moves.insert cutId row } := by
  unfold SessionStore.insertMove SessionStore.writeMove at ok
  split at ok
  next => cases ok
  next absent =>
    split at ok
    next => cases ok
    next => cases ok; exact ⟨by simpa using absent,rfl⟩

theorem checkMoveSlot_ok {agentId : String} (ok : checkMoveSlot store agentId = .ok ()) {cut : String}
    {m : OpenMove} (found : store.moves.get? cut = some m) (isOpen : m.step.isTerminal = false) :
    m.agentId ≠ agentId := by
  unfold checkMoveSlot at ok
  split at ok
  next => cases ok
  next alone =>
    intro same
    have member : (cut,m) ∈ store.openMoves :=
      List.mem_filter.mpr ⟨Table.mem_rows.mpr found,by simp [isOpen]⟩
    simpa [same] using List.find?_eq_none.mp alone (cut,m) member

theorem oneOpen_insert {moves : Table String OpenMove} (oneOpen : OneOpen moves)
    (alone : row.step.isTerminal = false → ∀ other m, moves.get? other = some m → other ≠ cutId →
      m.step.isTerminal = false → m.agentId ≠ row.agentId) : OneOpen (moves.insert cutId row) := by
  intro a b left right atA atB openA openB same
  simp only [Table.get?_insert] at atA atB
  split at atA <;> split at atB
  next sameA sameB => exact sameA.trans sameB.symm
  next sameA sameB => cases atA; exact absurd same.symm (alone openA b right atB sameB openB)
  next sameA sameB => cases atB; exact absurd same (alone openB a left atA sameA openA)
  next => exact oneOpen a b left right atA atB openA openB same

/-- A committed admission: the live references were still those it read, and its
row is the agent's only open move. -/
theorem admitAgentMove_ok {checkedRefs : List RefKey} {pinsSame : Bool}
    (ok : admitAgentMove store cutId row checkedRefs pinsSame = .ok store') :
    row.side = .source ∧ row.step = .preparing ∧ boundRefs store row.agentId = checkedRefs ∧
      checkMoveSlot store row.agentId = .ok () ∧ store.insertMove cutId row = .ok store' := by
  unfold admitAgentMove at ok
  split at ok
  next => cases ok
  next shape =>
  split at ok
  next => cases ok
  next same =>
  split at ok
  next => cases ok
  split at ok
  next => cases ok
  obtain ⟨_,slot,inserted⟩ := bind_ok ok
  simp only [not_or,not_not] at shape same
  exact ⟨shape.1,shape.2,same,slot,inserted⟩

theorem refSet_mem {refs : List RefKey} {ref : RefKey} : ref ∈ refSet refs ↔ ref ∈ refs := by
  have general : ∀ set : Table RefKey Unit,
      (refs.foldl (fun (set : Table RefKey Unit) ref => set.insert ref ()) set).has ref = true ↔
        ref ∈ refs ∨ set.has ref = true := by
    induction refs with
    | nil => simp
    | cons first rest ih =>
      intro set
      rw [List.foldl_cons,ih,Table.has_insert,List.mem_cons]
      simp only [Bool.or_eq_true,decide_eq_true_eq]
      tauto
  rw [refSet,Table.mem_keys,general]
  simp [Table.has]

/-- A plan routes exactly the references it was made for. -/
theorem planParticipants_mem {described : List (String × List String)} {refs : List RefKey}
    {plan : List (String × List RefKey)} (ok : planParticipants described refs = .ok plan)
    {ref : RefKey} : ref ∈ plan.flatMap (·.2) ↔ ref ∈ refs := by
  unfold planParticipants at ok
  simp only at ok
  split at ok
  next => cases ok
  next covered =>
    cases ok
    constructor
    · intro member
      obtain ⟨p,inside,routed⟩ := List.mem_flatMap.mp member
      obtain ⟨d,_,rfl⟩ := List.mem_map.mp inside
      exact refSet_mem.mp (List.mem_filter.mp routed).1
    · intro member
      have uncovered := List.find?_eq_none.mp covered ref (refSet_mem.mpr member)
      simp only [Bool.not_eq_true,Bool.not_eq_false'] at uncovered
      obtain ⟨p,inside,routed⟩ := List.any_eq_true.mp uncovered
      exact List.mem_flatMap.mpr ⟨p,inside,List.contains_iff_mem.mp routed⟩

/-- Of the references a move is planned over, those of binding kinds are live
bindings it read; the reserved ones are its own. -/
theorem wireRefs_binding {a : Admission} {ref : RefKey} (kind : isBindingRefKind (kindOf ref) = true) :
    ref ∈ a.wireRefs ↔ ref ∈ a.refs := by
  have reserved : ∀ kind' : String, isBindingRefKind kind' = false → ref ≠ toLex (kind',a.agentId) := by
    rintro kind' not rfl
    have same : kindOf (toLex (kind',a.agentId)) = kind' := rfl
    rw [same,not] at kind
    cases kind
  have closure := reserved packageClosureKind (by decide)
  have bindings := reserved sessionBindingsKind (by decide)
  have whole := reserved "agent" (by decide)
  simp only [Admission.wireRefs,List.mem_append]
  constructor
  · rintro (((read | rest) | rest) | rest)
    · exact read
    all_goals
      split at rest
      next => simp_all
      next => cases rest
  · exact fun read => .inl (.inl (.inl read))

theorem boundRefs_mem {agentId : String} {ref : RefKey} : ref ∈ boundRefs store agentId ↔
    ∃ row, store.bindings.get? ref = some row ∧ row.agentId = agentId ∧ row.endedAtMs = none := by
  simp only [boundRefs,Table.mem_keys,Table.has_iff,Table.get?_filter,Option.filter_eq_some_iff,
    Bool.and_eq_true,beq_iff_eq,Option.isNone_iff_eq_none]

/-- The planned bindings of an admitted move are the live ones of a binding kind. -/
theorem admitMove_ok {a : Admission} {pinsSame : Bool} (ok : admitMove store a pinsSame = .ok store') :
    ∃ m : OpenMove, m.agentId = a.agentId ∧ m.side = .source ∧ m.step = .preparing ∧
      checkMoveSlot store a.agentId = .ok () ∧ store.insertMove a.cutId m = .ok store' ∧
      ∀ ref, ref ∈ planBindingRefs m ↔
        ref ∈ boundRefs store a.agentId ∧ isBindingRefKind (kindOf ref) = true := by
  obtain ⟨plan,planned,ok⟩ := bind_ok ok
  obtain ⟨_,_,ok⟩ := bind_ok ok
  obtain ⟨side,step,same,slot,inserted⟩ := admitAgentMove_ok ok
  refine ⟨_,rfl,side,step,slot,inserted,fun ref => ?_⟩
  rw [planBindingRefs,List.mem_filter,planParticipants_mem planned]
  constructor
  · rintro ⟨wired,kind⟩
    exact ⟨by rw [same]; exact (wireRefs_binding kind).mp wired,kind⟩
  · rintro ⟨live,kind⟩
    exact ⟨(wireRefs_binding kind).mpr (same ▸ live),kind⟩

/-- A received move is inserted once. -/
theorem admitReceivedMove_ok (ok : admitReceivedMove store cutId row = .ok store') :
    row.side = .receiver ∧ (row.step = .pickedUp ∨ row.step = .aborted) ∧
      (store.moves.has cutId = true ∧ store' = store ∨
        checkMoveSlot store row.agentId = .ok () ∧ store.insertMove cutId row = .ok store') := by
  unfold admitReceivedMove at ok
  split at ok
  next => cases ok
  next shape =>
  simp only [not_or,not_and_or,not_not] at shape
  refine ⟨shape.1,shape.2,?_⟩
  split at ok
  next has => cases ok; exact .inl ⟨has,rfl⟩
  next =>
    obtain ⟨_,slot,inserted⟩ := bind_ok ok
    exact .inr ⟨slot,inserted⟩

theorem checkMoving_ok {request : SessionRegistration}
    (ok : checkMovingRegistration store request = .ok ()) {cut : String} {m : OpenMove}
    (found : store.moves.get? cut = some m) (isOpen : m.step.isTerminal = false) :
    movesAgainst request m = false := by
  unfold checkMovingRegistration at ok
  split at ok
  next => cases ok
  next clear =>
    have member : (cut,m) ∈ store.openMoves :=
      List.mem_filter.mpr ⟨Table.mem_rows.mpr found,by simp [isOpen]⟩
    simpa using List.find?_eq_none.mp clear (cut,m) member

end Admissions

section Steps

variable {store store' : SessionStore} {label : Label} {cutId : String}

theorem settle_cases (store : SessionStore) (result : Except AgentMutationError SessionStore) :
    settle store result = store ∨ ∃ store', result = .ok store' ∧ settle store result = store' := by
  cases result with
  | error e => exact .inl rfl
  | ok store' => exact .inr ⟨store',rfl,rfl⟩

/-- What a step does besides a session call: it writes the checkpoint of one move
or a table the sessions only read. -/
theorem next_cases (coherent : Coherent store) (oneOpen : OneOpen store.moves)
    (allowed : Allowed store label) (taken : next store label = some store') :
    store' = store ∨
    (∃ call, label = .call call ∧ Coherent store' ∧ CallLaw store call store' ∧
      CallEffect store call store' ∧ OneOpen store'.moves) ∨
    (store'.bindings = store.bindings ∧ store'.network = store.network ∧
      (store'.moves = store.moves ∨
        (∃ cut m, store.moves.get? cut = none ∧ store'.moves = store.moves.insert cut m ∧
          m.step ∈ sideSteps m.side ∧
          (m.step.isTerminal = false → checkMoveSlot store m.agentId = .ok ())) ∨
        (∃ cut m step, store.moves.get? cut = some m ∧ m.step.isTerminal = false ∧
          step ∈ sideSteps m.side ∧ (step = .activated → m.step = .activated) ∧
          store'.moves = store.moves.insert cut { m with step := step }))) := by
  have inserts : ∀ cut m, store.insertMove cut m = .ok store' → m.step ∈ sideSteps m.side →
      checkMoveSlot store m.agentId = .ok () →
      store'.bindings = store.bindings ∧ store'.network = store.network ∧
        ∃ cut m, store.moves.get? cut = none ∧ store'.moves = store.moves.insert cut m ∧
          m.step ∈ sideSteps m.side ∧
          (m.step.isTerminal = false → checkMoveSlot store m.agentId = .ok ()) := by
    intro cut m inserted proper slot
    obtain ⟨absent,rfl⟩ := insertMove_ok inserted
    exact ⟨rfl,rfl,cut,m,by simpa [Table.has] using absent,rfl,proper,fun _ => slot⟩
  cases label with
  | call call =>
    obtain ⟨result,performed,rfl⟩ := Option.map_eq_some_iff.mp taken
    cases SessionRuns.perform_outcome coherent oneOpen allowed performed with
    | refused e other => exact .inl rfl
    | failed exhausted => exact .inl rfl
    | done store' coherent' law effect moves =>
      exact .inr (.inl ⟨call,rfl,coherent',law,effect,moves⟩)
  | admitting a pinsSame =>
    obtain rfl := Option.some.inj taken
    rcases settle_cases store (admitMove store a pinsSame) with same | ⟨store',ok,same⟩
    · exact .inl same
    · obtain ⟨m,agent,side,step,slot,inserted,_⟩ := admitMove_ok ok
      rw [same] at inserts ⊢
      obtain ⟨bindings,network,written⟩ := inserts a.cutId m inserted
        (by rw [side,step]; decide) (agent ▸ slot)
      exact .inr (.inr ⟨bindings,network,.inr (.inl written)⟩)
  | receive cut row =>
    obtain rfl := Option.some.inj taken
    rcases settle_cases store (admitReceivedMove store cut row) with same | ⟨store',ok,same⟩
    · exact .inl same
    · rw [same] at inserts ⊢
      obtain ⟨side,steps,⟨_,rfl⟩ | ⟨slot,inserted⟩⟩ := admitReceivedMove_ok ok
      · exact .inl rfl
      · obtain ⟨bindings,network,written⟩ := inserts cut row inserted
          (by rcases steps with step | step <;> rw [side,step] <;> decide) slot
        exact .inr (.inr ⟨bindings,network,.inr (.inl written)⟩)
  | advance cut step =>
    simp only [next,advanceMove] at taken
    split at taken
    next => cases taken
    next m found =>
      split at taken
      next legal =>
        cases taken
        simp only [Bool.and_eq_true,Bool.not_eq_true',List.contains_iff_mem,Bool.or_eq_true,
          bne_iff_ne,beq_iff_eq] at legal
        exact .inr (.inr ⟨rfl,rfl,.inr (.inr ⟨cut,m,step,found,legal.1.1,legal.1.2,
          fun same => legal.2.resolve_left (not_not.mpr same),rfl⟩)⟩)
      next => cases taken
  | outside cutOver agents claims self memberName origin =>
    cases taken
    exact .inr (.inr ⟨rfl,rfl,.inl rfl⟩)

theorem coherent_step (coherent : Coherent store) (oneOpen : OneOpen store.moves)
    (allowed : Allowed store label) (taken : next store label = some store') :
    Coherent store' ∧ OneOpen store'.moves := by
  rcases next_cases coherent oneOpen allowed taken with rfl | ⟨call,rfl,coherent',_,_,moves⟩ |
    ⟨bindings,network,moves⟩
  · exact ⟨coherent,oneOpen⟩
  · exact ⟨coherent',moves⟩
  · constructor
    · exact ⟨bindings ▸ coherent.indexed,bindings ▸ coherent.held,
        by rw [bindings,network]; exact coherent.bound,
        by simp only [SessionStore.historyOf,network]; exact coherent.rising⟩
    · rcases moves with same | ⟨cut,m,absent,written,_,slot⟩ | ⟨cut,m,step,found,isOpen,_,_,written⟩
      · rw [same]; exact oneOpen
      · rw [written]
        exact oneOpen_insert oneOpen fun open_ other m' found _ => checkMoveSlot_ok (slot open_) found
      · rw [written]
        refine oneOpen_insert oneOpen fun _ other m' found' away open_ same => away ?_
        exact oneOpen other cut m' m found' found open_ isOpen same

theorem coherent_reach {start : SessionStore} (fresh : Fresh start)
    (reached : Reach next Allowed start store) : Coherent store ∧ OneOpen store.moves := by
  refine reached.invariant (fun store => Coherent store ∧ OneOpen store.moves) ?_
    fun _ _ _ holds allowed taken => coherent_step holds.1 holds.2 allowed taken
  exact SessionRuns.coherent_reach fresh .refl

/-- The row of a cut, with the agent, side and plan it was admitted with. -/
def Holds (cutId : String) (m : OpenMove) (store : SessionStore) : Prop :=
  ∃ current, store.moves.get? cutId = some current ∧ current.agentId = m.agentId ∧
    current.side = m.side ∧ current.planRefs = m.planRefs ∧ current.step ∈ sideSteps m.side

/-- A cut's row keeps its agent, side and plan; a terminal one stays terminal,
and only the activation itself activates. -/
theorem holds_step (coherent : Coherent store) (oneOpen : OneOpen store.moves)
    (allowed : Allowed store label) (taken : next store label = some store') {m : OpenMove}
    (holds : Holds cutId m store) : Holds cutId m store' ∧
      ∀ current later, store.moves.get? cutId = some current → store'.moves.get? cutId = some later →
        current.step.isTerminal = true → later.step.isTerminal = true := by
  obtain ⟨current,found,agent,side,plan,proper⟩ := holds
  have still : store'.moves.get? cutId = some current → Holds cutId m store' ∧
      ∀ now later, store.moves.get? cutId = some now → store'.moves.get? cutId = some later →
        now.step.isTerminal = true → later.step.isTerminal = true := by
    intro same
    refine ⟨⟨current,same,agent,side,plan,proper⟩,fun now later before after terminal => ?_⟩
    rw [found] at before
    rw [same] at after
    cases before; cases after
    exact terminal
  rcases next_cases coherent oneOpen allowed taken with rfl | ⟨call,rfl,_,_,effect,_⟩ | ⟨_,_,moves⟩
  · exact still found
  · rcases effect.moves with same | ⟨cut,row,_,_,_,activating,rfl,present,receiver,step,activated,written⟩
    · exact still (by rw [same]; exact found)
    · by_cases here : cutId = cut
      · subst here
        obtain rfl : current = activating := Option.some.inj (found.symm.trans present)
        have ours : row = { current with step := row.step } := allowed.2 current present
        rw [ours,activated] at written
        refine ⟨⟨{ current with step := .activated },by rw [written,Table.get?_insert,if_pos rfl],agent,
          side,plan,?_⟩,?_⟩
        · show MoveStep.activated ∈ sideSteps m.side
          rw [← side,receiver]
          decide
        · intro now later before after terminal
          rw [found] at before
          cases before
          rw [step] at terminal
          cases terminal
      · exact still (by rw [written,Table.get?_insert,if_neg here]; exact found)
  · rcases moves with same | ⟨cut,row,absent,written,_,_⟩ | ⟨cut,row,step,present,isOpen,steps,_,written⟩
    · exact still (by rw [same]; exact found)
    · have away : cutId ≠ cut := by
        rintro rfl
        rw [absent] at found
        cases found
      exact still (by rw [written,Table.get?_insert,if_neg away]; exact found)
    · by_cases here : cutId = cut
      · subst here
        obtain rfl : current = row := Option.some.inj (found.symm.trans present)
        refine ⟨⟨{ current with step := step },by rw [written,Table.get?_insert,if_pos rfl],agent,side,
          plan,side ▸ steps⟩,?_⟩
        intro now later before after terminal
        rw [found] at before
        cases before
        rw [isOpen] at terminal
        cases terminal
      · exact still (by rw [written,Table.get?_insert,if_neg here]; exact found)

/-- The source's guard: as long as the cut is open, the references that were live
at its admission are bound to the agent, and no other one of it is live. -/
def Guarded (cutId : String) (m : OpenMove) (live : List RefKey) (store : SessionStore) : Prop :=
  Holds cutId m store ∧ ∀ current, store.moves.get? cutId = some current →
    current.step.isTerminal = false →
    (∀ ref ∈ live, ∃ row, store.bindings.get? ref = some row ∧ row.agentId = m.agentId) ∧
    (∀ key row, store.bindings.get? key = some row → row.agentId = m.agentId →
      row.endedAtMs = none → key ∈ live)

/-- While a source move of the agent is open, no registration of the agent is
accepted. -/
theorem fenced {request : SessionRegistration} (ok : checkMovingRegistration store request = .ok ())
    {current : OpenMove} (found : store.moves.get? cutId = some current)
    (isOpen : current.step.isTerminal = false) (side : current.side = .source) :
    request.agentId ≠ current.agentId := by
  intro same
  have clear := checkMoving_ok ok found isOpen
  simp [movesAgainst,same,side] at clear

theorem guarded_step {m : OpenMove} {live : List RefKey} (source : m.side = .source)
    (coherent : Coherent store) (oneOpen : OneOpen store.moves) (allowed : Allowed store label)
    (taken : next store label = some store') (guarded : Guarded cutId m live store) :
    Guarded cutId m live store' := by
  obtain ⟨holds,set⟩ := guarded
  obtain ⟨holds',terminal⟩ := holds_step coherent oneOpen allowed taken holds
  refine ⟨holds',fun later after open_ => ?_⟩
  obtain ⟨current,found,agent,side,_,_⟩ := holds
  have isOpen : current.step.isTerminal = false := by
    by_contra closed
    rw [terminal current later found after (Bool.not_eq_false _ ▸ closed)] at open_
    cases open_
  obtain ⟨bound,alive⟩ := set current found isOpen
  rcases next_cases coherent oneOpen allowed taken with rfl | ⟨call,rfl,_,law,effect,_⟩ |
    ⟨bindings,_,_⟩
  · exact ⟨bound,alive⟩
  · have registers : ∀ request commitMs, call = .register request commitMs →
        request.agentId ≠ m.agentId := by
      intro request commitMs same
      exact agent ▸ fenced (effect.fenced request commitMs same) found isOpen (side.trans source)
    have activates : ∀ cut row activatedAtMs refs carried,
        call = .activate cut row activatedAtMs refs carried → row.agentId ≠ m.agentId := by
      rintro cut row activatedAtMs refs carried rfl same
      obtain ⟨activating,present,receiver,step⟩ := effect.activates _ _ _ _ _ rfl
      obtain ⟨_,ours⟩ := allowed
      have theirs : row.agentId = activating.agentId := by rw [ours activating present]
      have here := oneOpen cutId cut current activating found present isOpen (by rw [step]; rfl)
        (agent.trans (same.symm.trans theirs))
      subst here
      obtain rfl : current = activating := Option.some.inj (found.symm.trans present)
      rw [side,source] at receiver
      cases receiver
    constructor
    · intro ref member
      obtain ⟨row,present,ours⟩ := bound ref member
      rcases law.owners ref row present with ⟨row',there,same⟩ |
        ⟨nowMs,selected,rfl,expired,_⟩
      · have here : call.keyAfter ref row = ref := by
          cases call with
          | register request commitMs =>
            simp only [Call.keyAfter]
            split
            next about =>
              have registered := law.registers request commitMs rfl
              obtain ⟨own,opened,_,_,_,owner⟩ := registered.one
              rw [Call.keyAfter,if_pos about] at there
              obtain rfl : own = row' := Option.some.inj (opened.symm.trans there)
              exact absurd (owner.symm.trans (same.trans ours)) (registers request commitMs rfl)
            next => rfl
          | _ => rfl
        rw [here] at there
        exact ⟨row',there,same.trans ours⟩
      · have kept : store.openMoveOf row.agentId = true :=
          Table.any_eq_true.mpr ⟨cutId,current,found,by simp [agent,ours,isOpen]⟩
        simp [SessionStore.expired,kept] at expired
    · intro key row' there ours ended
      rcases effect.origins key row' there with ⟨row,before,same,live⟩ |
        ⟨request,commitMs,rfl,_,same⟩ | ⟨cut,row,activatedAtMs,refs,carried,rfl,same⟩
      · exact alive key row before (same.symm.trans ours) (live ended)
      · exact absurd (same.symm.trans ours) (registers request commitMs rfl)
      · exact absurd (same.symm.trans ours) (activates cut row activatedAtMs refs carried rfl)
  · rw [bindings]
    exact ⟨bound,alive⟩

theorem guarded_reach {start : SessionStore} (fresh : Fresh start)
    (before : Reach next Allowed start store) {m : OpenMove} {live : List RefKey}
    (source : m.side = .source) (guarded : Guarded cutId m live store)
    (reached : Reach next Allowed store store') : Guarded cutId m live store' := by
  have holds : ∀ later, Reach next Allowed store later →
      Guarded cutId m live later := by
    intro later reached
    induction reached with
    | refl => exact guarded
    | step label first allowed taken ih =>
      obtain ⟨coherent,oneOpen⟩ := coherent_reach fresh (before.trans first)
      exact guarded_step source coherent oneOpen allowed taken ih
  exact holds store' reached

theorem holds_reach {start : SessionStore} (fresh : Fresh start)
    (before : Reach next Allowed start store) {m : OpenMove} (holds : Holds cutId m store)
    (reached : Reach next Allowed store store') : Holds cutId m store' := by
  induction reached with
  | refl => exact holds
  | step label first allowed taken ih =>
    obtain ⟨coherent,oneOpen⟩ := coherent_reach fresh (before.trans first)
    exact (holds_step coherent oneOpen allowed taken ih).1

theorem carriedRows_mem {agentId : String} {b : CarriedBinding} (member : b ∈ carriedRows store agentId) :
    ∃ key row, store.bindings.get? key = some row ∧ row.agentId = agentId ∧ b.key = key ∧
      b.endedAtMs = row.endedAtMs := by
  obtain ⟨⟨key,row⟩,inside,rfl⟩ := List.mem_map.mp member
  have kept := Table.mem_rows.mp inside
  rw [Table.get?_filter] at kept
  obtain ⟨found,ours⟩ := Option.filter_eq_some_iff.mp kept
  exact ⟨key,row,found,beq_iff_eq.mp ours,rfl,rfl⟩

theorem carriedRows_key {agentId : String} {key : RefKey} {row : SessionBinding}
    (found : store.bindings.get? key = some row) (ours : row.agentId = agentId) :
    key ∈ (carriedRows store agentId).map (·.key) := by
  have inside : (key,row) ∈ (store.bindings.filter fun _ row => row.agentId == agentId).rows :=
    Table.mem_rows.mpr (by rw [Table.get?_filter,found]; simp [ours])
  exact List.mem_map.mpr ⟨_,List.mem_map.mpr ⟨(key,row),inside,rfl⟩,rfl⟩

/-- The export of a plan that matches the bindings does not find them changed. -/
theorem export_matches {m : OpenMove} (found : store.moves.get? cutId = some m)
    (planned : ∀ ref ∈ planBindingRefs m, ∃ row, store.bindings.get? ref = some row ∧
      row.agentId = m.agentId)
    (live : ∀ key row, store.bindings.get? key = some row → row.agentId = m.agentId →
      row.endedAtMs = none → key ∈ planBindingRefs m) :
    exportSessionBindings store cutId m.agentId ≠ bindingsDiffer := by
  intro differ
  unfold exportSessionBindings at differ
  simp only [found] at differ
  split at differ
  next => simp [refuse,bindingsDiffer] at differ
  next row open_ =>
    obtain rfl : m = row := Option.some.inj (Option.filter_eq_some_iff.mp open_).1
    split at differ
    next changed =>
      simp only [Bool.or_eq_true,Bool.not_eq_true',List.all_eq_false,List.any_eq_true,
        Bool.and_eq_true,List.contains_iff_mem] at changed
      rcases changed with ⟨ref,member,absent⟩ | ⟨b,member,ended,outside⟩
      · obtain ⟨row,there,ours⟩ := planned ref member
        exact absent (carriedRows_key there ours)
      · obtain ⟨key,row,there,ours,same,ends⟩ := carriedRows_mem member
        have inside := live key row there ours (by rw [← ends]; simpa using ended)
        rw [same,List.contains_iff_mem.mpr inside] at outside
        cases outside
    next =>
      obtain ⟨b,_,failed⟩ := mapM_error differ
      unfold nameHolder at failed
      split at failed
      next => split at failed <;> simp [refuse] at failed
      next => cases failed

/-- The fence of a receiver's plan: none of its references becomes another
agent's by a registration. -/
theorem reserved {request : SessionRegistration} {commitMs : Int} (coherent : Coherent store)
    (clock : inI64 commitMs = true) (ok : registerSession store request commitMs = .ok store')
    {m : OpenMove} (found : store.moves.get? cutId = some m) (side : m.side = .receiver)
    (proper : m.step ∈ sideSteps m.side) (isOpen : m.step.isTerminal = false)
    (waiting : m.step ≠ .activated) {ref : RefKey} (planned : ref ∈ m.planRefs)
    {bound : SessionBinding} (there : store'.bindings.get? ref = some bound)
    (theirs : bound.agentId ≠ m.agentId) : store.bindings.get? ref = some bound := by
  have step : m.step.beforeBoundary .receiver = true ∨ m.step = .activating := by
    rw [side] at proper
    revert proper isOpen waiting
    cases m.step <;> decide
  rcases registerSession_cases store request commitMs with ⟨e,refused,_⟩ | ⟨route,plan,passes⟩
  · rw [refused] at ok; cases ok
  · rcases passes.takes coherent (of_decide_eq_true clock).2 with ⟨_,_,failed⟩ |
      ⟨_,final,done,takes,_,grown⟩
    · rw [failed] at ok; cases ok
    · obtain rfl := Except.ok.inj (done.symm.trans ok)
      have registered := SessionRuns.takes_registered takes grown
      by_cases here : ref = request.key
      · subst here
        obtain ⟨own,opened,_,_,_,agent⟩ := registered.one
        obtain rfl : own = bound := Option.some.inj (opened.symm.trans there)
        have clear := checkMoving_ok passes.moving found isOpen
        have other : m.agentId ≠ request.agentId := fun same => theirs (agent.trans same.symm)
        rcases step with before | activating
        · simp [movesAgainst,side,before,other,planned] at clear
        · simp [movesAgainst,side,activating,other,planned] at clear
      · exact registered.fresh ref bound there here

end Steps

/-- From the commit of a source's admission on, as long as the move is open, the
bindings its plan names are there and the agent's. The plan covers the agent's
live bindings and the export finds them unchanged, in every state of every run,
exactly when no live binding of the agent was of a reserved kind at the
admission. And while a received move waits for its activation, no registration
gives a reference of its plan to another agent. -/
theorem moving_sessions_frozen {start store store₁ : SessionStore} (fresh : Fresh start)
    (reached : Reach next Allowed start store) :
    (∀ a pinsSame, admitMove store a pinsSame = .ok store₁ →
      (∀ store₂, Reach next Allowed store₁ store₂ → ∀ m, store₂.moves.get? a.cutId = some m →
        m.step.isTerminal = false → m.agentId = a.agentId ∧ ∀ ref ∈ planBindingRefs m,
          ∃ row, store₂.bindings.get? ref = some row ∧ row.agentId = m.agentId) ∧
      ((∀ store₂, Reach next Allowed store₁ store₂ → ∀ m, store₂.moves.get? a.cutId = some m →
        m.step.isTerminal = false → Frozen store₂ a.cutId m) ↔
        ∀ key row, store.bindings.get? key = some row → row.agentId = a.agentId →
          row.endedAtMs = none → isBindingRefKind (kindOf key) = true)) ∧
    (∀ cutId row, store.moves.has cutId = false → admitReceivedMove store cutId row = .ok store₁ →
      ∀ store₂, Reach next Allowed store₁ store₂ → ∃ m, store₂.moves.get? cutId = some m ∧
        m.agentId = row.agentId ∧ m.planRefs = row.planRefs ∧
        (m.step.isTerminal = false → m.step ≠ .activated → ∀ request commitMs store₃,
          inI64 commitMs = true → registerSession store₂ request commitMs = .ok store₃ →
          ∀ ref ∈ m.planRefs, ∀ bound, store₃.bindings.get? ref = some bound →
            bound.agentId ≠ m.agentId → store₂.bindings.get? ref = some bound)) := by
  constructor
  · intro a pinsSame admitted
    have taken : next store (.admitting a pinsSame) = some store₁ := by simp [next,settle,admitted]
    have before : Reach next Allowed start store₁ := .step (.admitting a pinsSame) reached trivial taken
    obtain ⟨m₀,agent,side,step,_,inserted,planned⟩ := admitMove_ok admitted
    obtain ⟨absent,rfl⟩ := insertMove_ok inserted
    have written : ({ store with moves := store.moves.insert a.cutId m₀ } : SessionStore).moves.get?
        a.cutId = some m₀ := by simp
    have holds : Holds a.cutId m₀ { store with moves := store.moves.insert a.cutId m₀ } :=
      ⟨m₀,written,rfl,rfl,rfl,by rw [side,step]; decide⟩
    have guarded : Guarded a.cutId m₀ (boundRefs store a.agentId)
        { store with moves := store.moves.insert a.cutId m₀ } := by
      refine ⟨holds,fun current _ _ => ⟨fun ref member => ?_,fun key row found ours ended => ?_⟩⟩
      · obtain ⟨row,found,ours,_⟩ := boundRefs_mem.mp member
        exact ⟨row,found,ours.trans agent.symm⟩
      · exact boundRefs_mem.mpr ⟨row,found,ours.trans agent,ended⟩
    have plan : ∀ m : OpenMove, m.planRefs = m₀.planRefs → ∀ ref, ref ∈ planBindingRefs m ↔
        ref ∈ boundRefs store a.agentId ∧ isBindingRefKind (kindOf ref) = true := by
      intro m same ref
      rw [← planned ref,planBindingRefs,planBindingRefs,same]
    have kept : ∀ store₂, Reach next Allowed { store with
        moves := store.moves.insert a.cutId m₀ } store₂ → ∀ m, store₂.moves.get? a.cutId = some m →
        m.step.isTerminal = false → m.agentId = a.agentId ∧ m.planRefs = m₀.planRefs ∧
          (∀ ref ∈ boundRefs store a.agentId, ∃ row, store₂.bindings.get? ref = some row ∧
            row.agentId = m.agentId) ∧
          (∀ key row, store₂.bindings.get? key = some row → row.agentId = m.agentId →
            row.endedAtMs = none → key ∈ boundRefs store a.agentId) := by
      intro store₂ later m found isOpen
      obtain ⟨⟨current,present,same,_,samePlan,_⟩,set⟩ :=
        guarded_reach fresh before side guarded later
      obtain rfl : m = current := Option.some.inj (found.symm.trans present)
      obtain ⟨bound,alive⟩ := set m found isOpen
      exact ⟨same.trans agent,samePlan,by rw [same]; exact bound,by rw [same]; exact alive⟩
    refine ⟨fun store₂ later m found isOpen => ?_,fun frozen key row found ours ended => ?_,
      fun kinds store₂ later m found isOpen => ?_⟩
    · obtain ⟨ours,samePlan,bound,_⟩ := kept store₂ later m found isOpen
      exact ⟨ours,fun ref member => bound ref ((plan m samePlan ref).mp member).1⟩
    · have atCommit := frozen _ .refl m₀ written (by rw [step]; rfl)
      exact ((plan m₀ rfl key).mp (atCommit.live key _ found (ours.trans agent.symm) ended)).2
    · obtain ⟨ours,samePlan,bound,alive⟩ := kept store₂ later m found isOpen
      have named : ∀ ref ∈ planBindingRefs m, ∃ row, store₂.bindings.get? ref = some row ∧
          row.agentId = m.agentId := fun ref member => bound ref ((plan m samePlan ref).mp member).1
      have covered : ∀ key row, store₂.bindings.get? key = some row → row.agentId = m.agentId →
          row.endedAtMs = none → key ∈ planBindingRefs m := by
        intro key row there agent' ended
        have member := alive key row there agent' ended
        obtain ⟨first,was,owner,live⟩ := boundRefs_mem.mp member
        exact (plan m samePlan key).mpr ⟨member,kinds key first was owner live⟩
      exact ⟨named,covered,export_matches found named covered⟩
  · intro cutId row absent admitted store₂ later
    have taken : next store (.receive cutId row) = some store₁ := by simp [next,settle,admitted]
    have before : Reach next Allowed start store₁ := .step (.receive cutId row) reached trivial taken
    obtain ⟨side,steps,⟨has,_⟩ | ⟨_,inserted⟩⟩ := admitReceivedMove_ok admitted
    · rw [absent] at has; cases has
    obtain ⟨_,rfl⟩ := insertMove_ok inserted
    have holds : Holds cutId row { store with moves := store.moves.insert cutId row } := by
      refine ⟨row,by simp,rfl,rfl,rfl,?_⟩
      rcases steps with step | step <;> rw [side,step] <;> decide
    obtain ⟨m,found,agent,sameSide,plan,proper⟩ := holds_reach fresh before holds later
    have receiver : m.side = .receiver := sameSide.trans side
    refine ⟨m,found,agent,plan,fun isOpen waiting request commitMs store₃ clock ok ref member bound
      there theirs => ?_⟩
    exact reserved (coherent_reach fresh (before.trans later)).1 clock ok found receiver
      (sameSide ▸ proper) isOpen waiting member there theirs

namespace Notes

def start : SessionStore where
  cutOver := true
  agents := Table.insert ∅ "agent_1" ⟨none⟩
  moves := ∅
  claims := ∅
  selfAuthor := none
  memberName := ∅
  bindings := ∅
  network := ∅

/-- A session bound under a reference of this kind. -/
def opening (kind : String) : Call :=
  .register ⟨"agent_1",kind,"notes","omp","s1",none,"host",none,none,7⟩ 8

def admission (kind : String) : Admission where
  cutId := "cut_1"
  agentId := "agent_1"
  refs := [toLex (kind,"notes")]
  pinned := false
  carryBindings := true
  described := [("broca",["session","agent"]),("entorhinal",[packageClosureKind,sessionBindingsKind])]

def opened (kind : String) : SessionStore := (next start (.call (opening kind))).getD start

def admittedStore (kind : String) : SessionStore := settle (opened kind) (admitMove (opened kind) (admission kind) true)

theorem start_fresh : Fresh start := ⟨rfl,rfl,nofun⟩

theorem opened_reached (kind : String) (some : (next start (.call (opening kind))).isSome = true) :
    Reach next Allowed start (opened kind) := by
  obtain ⟨store,taken⟩ := Option.isSome_iff_exists.mp some
  have same : opened kind = store := by simp [opened,taken]
  rw [same]
  exact .step (.call (opening kind)) .refl (show inI64 8 = true by decide) taken

/-- With a session of an ordinary kind the set stays frozen for the whole move. -/
theorem session_stays_frozen : admitMove (opened "session") (admission "session") true =
      .ok (admittedStore "session") ∧
    ∀ store₂, Reach next Allowed (admittedStore "session") store₂ →
      ∀ m, store₂.moves.get? "cut_1" = some m → m.step.isTerminal = false → Frozen store₂ "cut_1" m := by
  have admitted : admitMove (opened "session") (admission "session") true =
      .ok (admittedStore "session") := by decide +kernel
  have kinds : (opened "session").bindings.rows.all (fun x => isBindingRefKind (kindOf x.1)) = true := by
    decide +kernel
  refine ⟨admitted,((moving_sessions_frozen start_fresh (opened_reached "session" (by decide +kernel))).1
    (admission "session") true admitted).2.mpr fun key row found _ _ => ?_⟩
  exact List.all_eq_true.mp kinds (key,row) (Table.mem_rows.mpr found)

/-- A live binding of the kind `agent` is in the admitted plan and yet not among
its session bindings: the export refuses. -/
theorem agent_kind_refused : ¬ ∀ (start store store₁ : SessionStore) (a : Admission) (pinsSame : Bool)
    (m : OpenMove), Fresh start → Reach next Allowed start store →
    admitMove store a pinsSame = .ok store₁ → store₁.moves.get? a.cutId = some m →
    exportSessionBindings store₁ a.cutId m.agentId ≠ bindingsDiffer := by
  intro law
  have admitted : admitMove (opened "agent") (admission "agent") true =
      .ok (admittedStore "agent") := by decide +kernel
  have differs : (admittedStore "agent").moves.get? "cut_1" =
      some ⟨"agent_1",.source,.preparing,
        [toLex ("agent","agent_1"),toLex ("agent","notes"),toLex (sessionBindingsKind,"agent_1")]⟩ ∧
      exportSessionBindings (admittedStore "agent") "cut_1" "agent_1" = bindingsDiffer := by
    decide +kernel
  exact law start _ _ (admission "agent") true _ start_fresh (opened_reached "agent" (by decide +kernel))
    admitted differs.1 differs.2

end Notes
end Entorhinal.SessionFreeze
