import Entorhinal.SharedWriteRuns

/-! The agreement of any number of machines with one identity log, in every
state reached and by every step. -/
namespace Entorhinal.IdentityLog
open AppendLog Transition

variable {ν σ ω : Type}

/-- Every machine's store is the log up to its applied position: each entry took
effect once, a report of success names a position the entry stands at, a failed
write left nothing behind, and a pending row stands exactly while its slot is
open. -/
structure Agreement (registry : Registry ν σ ω) (starts : ν → σ) (w : World ν σ ω) : Prop where
  applied : ∀ m, (w.machines m).store.lastAppliedPosition ≤ w.network.log.length ∧
    (w.machines m).store.applied =
      (numbered w.network.log).take (w.machines m).store.lastAppliedPosition
  once : ∀ m, ((w.machines m).store.applied.map (·.1.id)).Nodup
  effects : ∀ m, (w.machines m).store.tables =
    (w.machines m).store.journal.foldl registry.effect (starts m)
  done : ∀ rep ∈ w.network.reports, ∀ position, rep.result = .done position →
    ∃ row ∈ (w.machines rep.machine).store.journal, ∃ op entry, row.change = .here op ∧
      row.logged = some (entry,position) ∧ entry.id = rep.entryId ∧
      w.network.log[position - 1]? = some entry
  failed : ∀ rep ∈ w.network.reports, (∀ position, rep.result ≠ .done position) →
    ∀ i entry, w.network.log[i]? = some entry → entry.id = rep.entryId →
      (w.machines rep.machine).store.lastAppliedPosition ≤ i ∨
      ∃ row ∈ (w.machines rep.machine).store.journal, row.logged = some (entry,i + 1) ∧
        ∀ op, row.change ≠ .here op
  unlogged : ∀ rep ∈ w.network.reports, rep.result = .unlogged → ∀ e ∈ w.network.log, e.id ≠ rep.entryId
  kept : ∀ q ∈ w.network.flights,
    (w.machines q.entry.body.author).store.lastAppliedPosition ≤ q.expectedHead →
    (w.machines q.entry.body.author).store.pendingEntry.get? q.entry.id = some q.expectedHead
  removed : ∀ m id head, (w.machines m).store.pendingEntry.get? id = some head →
    head = (w.machines m).store.lastAppliedPosition

/-- What one step does: the log only grows, no applied position goes back, and a
write is done only when the bytes its own transaction captured stand at the
position behind the head it expected. -/
structure LogStep (registry : Registry ν σ ω) (w w' : World ν σ ω) (label : Label ν ω) : Prop where
  grows : w.network.log <+: w'.network.log
  forward : ∀ m, (w.machines m).store.lastAppliedPosition ≤ (w'.machines m).store.lastAppliedPosition
  commits : ∀ rep ∈ w'.network.reports, rep ∉ w.network.reports → ∀ position,
    rep.result = .done position → ∃ attempt data tables, label = .finish rep.machine true ∧
      (w.machines rep.machine).task = .decided attempt data tables (.commit position) ∧
      registry.operate attempt.op (w.machines rep.machine).store.tables = .shared tables data ∧
      rep.entryId = attempt.id ∧ position = attempt.head + 1 ∧
      w.network.log[attempt.head]? = some (attempt.entry rep.machine data)

/-- An empty log and machines that have applied nothing. -/
structure Initial (starts : ν → σ) (w : World ν σ ω) : Prop where
  network : w.network = ⟨[],[],[],[],[]⟩
  machines : ∀ m, (w.machines m).task = .idle ∧ (w.machines m).store.lastAppliedPosition = 0 ∧
    (w.machines m).store.pendingEntry = ∅ ∧ (w.machines m).store.journal = [] ∧
    (w.machines m).store.tables = starts m

variable {registry : Registry ν σ ω} {starts : ν → σ} {network network' : Network ν} {m : ν}
variable {machine machine' : Machine ν σ ω} {label : Label ν ω} {w w₀ w' : World ν σ ω}

theorem Initial.coherent (initial : Initial starts w) : Coherent registry starts w := by
  obtain ⟨network,machines⟩ := w
  obtain ⟨rfl,fresh⟩ := initial
  refine ⟨by constructor <;> simp [Distinct],fun m => ?_,?_⟩
  · obtain ⟨task,position,pending,journal,tables⟩ := fresh m
    refine ⟨?_,by rw [task]; trivial⟩
    constructor <;> simp_all [Store.applied]
  · have idle : ∀ m (a : Attempt ω), (machines m).task.attempt ≠ some a := by
      intro m a now
      rw [(fresh m).1] at now
      cases now
    exact ⟨fun m a now => absurd now (idle m a),fun m a now => absurd now (idle m a),
      fun m _ a _ now => absurd now (idle m a)⟩

theorem operate_position (attempt : Attempt ω) :
    (machine.operate registry attempt).1.store.lastAppliedPosition =
      machine.store.lastAppliedPosition := by
  unfold Machine.operate
  split
  · rfl
  · rfl
  · rfl
  · rfl
  · split <;> rfl

theorem startRun_store (write : Option (ω × Nat)) :
    (machine.startRun write).store = machine.store := by
  unfold Machine.startRun
  split <;> rfl

theorem finish_forward {attempt : Attempt ω} {data : List UInt8} {tables : σ} {decision : Decision}
    (held : Held machine.store attempt) (settled : decision.Sound network m attempt data)
    (stored : Bool) : machine.store.lastAppliedPosition ≤
      (machine.finish m attempt data tables stored decision).1.store.lastAppliedPosition := by
  cases decision with
  | commit position =>
    have head := held.1
    have slot := settled.1
    cases stored with
    | true =>
      show machine.store.lastAppliedPosition ≤ position
      omega
    | false => exact le_refl _
  | rollback sent code =>
    have same : (if sent then { machine with task := .idle } else
        machine.forget attempt.id).store.lastAppliedPosition = machine.store.lastAppliedPosition := by
      cases sent <;> rfl
    simp only [Machine.finish]
    split
    · split
      · exact same.ge
      · rw [startRun_store]; exact same.ge
    · exact same.ge

theorem writeLocal_position {op : ω} (written : machine.writeLocal registry op = some machine') :
    machine'.store.lastAppliedPosition = machine.store.lastAppliedPosition := by
  unfold Machine.writeLocal at written
  split at written
  next => cases written
  next => cases written
  next => cases written; rfl
  next =>
    split at written
    next => cases written; rfl
    next => cases written
  next => cases written

/-- What an action does to a machine: nothing to its journal, a step of its run, an own write, or the end of one. -/
inductive Acts [DecidableEq ν] (registry : Registry ν σ ω) (network : Network ν) (m : ν) (machine machine' : Machine ν σ ω) :
    Prop
  | still (position : machine'.store.lastAppliedPosition = machine.store.lastAppliedPosition)
      (journal : machine'.store.journal = machine.store.journal)
  | read {run : CatchUp ν} {write : Option (ω × Nat)} {head count : Nat}
      (advances : Advances registry network m machine machine')
      (is : machine' = machine.readPage run write network.log head count)
  | took {run : CatchUp ν} {page : Page ν} {write : Option (ω × Nat)} {entry : LogEntry ν} {position : Nat}
      (advances : Advances registry network m machine machine')
      (is : machine' = machine.takeEntry registry run page write network.log entry position)
  | ended {run : CatchUp ν} {page : Page ν} {write : Option (ω × Nat)}
      (advances : Advances registry network m machine machine') (is : machine' = machine.endPage run page write)
  | operated (attempt : Attempt ω) (is : machine' = (machine.operate registry attempt).1)
  | finished {attempt : Attempt ω} {data : List UInt8} {tables : σ} {decision : Decision} (stored : Bool)
      (sound : TaskSound registry network m machine.store (.decided attempt data tables decision))
      (is : machine' = (machine.finish m attempt data tables stored decision).1)
  | wrote {op : ω} (done : machine.writeLocal registry op = some machine')

theorem act_cases [DecidableEq ν] (ledger : Ledger network)
    (holds : MachineSound registry (starts m) network m machine)
    (acted : machine.act registry network m label = some (network',machine')) :
    Acts registry network m machine machine' := by
  obtain ⟨sound,tasked⟩ := holds
  unfold Machine.act at acted
  split at acted
  next =>
    split at acted
    next => cases acted
    next => cases acted; exact .still (by rw [startRun_store]) (by rw [startRun_store])
  next =>
    split at acted
    next => cases acted
    next => cases acted; exact .still (by rw [startRun_store]) (by rw [startRun_store])
  next head count run write task =>
    rw [task] at tasked
    split at acted
    next => cases acted; exact .read (readPage_advances tasked _ _) rfl
    next => cases acted
  next run write task =>
    rw [task] at tasked
    obtain ⟨page,shown,acted⟩ := Option.bind_eq_some_iff.mp acted
    obtain ⟨x,head,same⟩ := Option.map_eq_some_iff.mp acted
    cases same
    exact .took (takeEntry_advances sound ledger.distinct tasked shown head) rfl
  next run write task =>
    rw [task] at tasked
    obtain ⟨page,shown,acted⟩ := Option.bind_eq_some_iff.mp acted
    split at acted
    next => cases acted; exact .ended (endPage_advances tasked) rfl
    next => cases acted
  next => cases acted; exact .still rfl rfl
  next => cases acted; exact .still rfl rfl
  next =>
    split at acted
    next => cases acted
    next => cases acted; exact .still rfl rfl
  next attempt _ => cases acted; exact .operated attempt rfl
  next => cases acted; exact .still rfl rfl
  next =>
    split at acted
    next => cases acted; exact .still rfl rfl
    next => cases acted
  next => cases acted; exact .still rfl rfl
  next => cases acted; exact .still rfl rfl
  next => cases acted; exact .still rfl rfl
  next stored attempt data tables decision task =>
    rw [task] at tasked
    cases acted
    exact .finished stored tasked rfl
  next => cases acted; exact .still rfl rfl
  next =>
    obtain ⟨written,done,same⟩ := Option.map_eq_some_iff.mp acted
    cases same
    exact .wrote done
  next => cases acted

theorem act_forward [DecidableEq ν] (ledger : Ledger network)
    (holds : MachineSound registry (starts m) network m machine)
    (acted : machine.act registry network m label = some (network',machine')) :
    machine.store.lastAppliedPosition ≤ machine'.store.lastAppliedPosition := by
  cases act_cases ledger holds acted with
  | still position _ => exact position.ge
  | read advances _ | took advances _ | ended advances _ => exact advances.forward
  | operated attempt is => exact is ▸ (operate_position attempt).ge
  | finished stored sound is => exact is ▸ finish_forward sound.1.1 sound.2 stored
  | wrote done => exact (writeLocal_position done).ge

theorem operate_undone (attempt : Attempt ω) (position : Nat) :
    (machine.operate registry attempt).2 ≠ some (.done position) := by
  unfold Machine.operate
  split
  · simp
  · simp
  · simp
  · simp
  · split <;> simp

theorem finish_done {attempt : Attempt ω} {data : List UInt8} {tables : σ} {decision : Decision}
    {stored : Bool} {position : Nat}
    (done : (machine.finish m attempt data tables stored decision).2 = .done position) :
    decision = .commit position ∧ stored = true := by
  cases decision with
  | commit landed =>
    cases stored with
    | true => cases done; exact ⟨rfl,rfl⟩
    | false => cases done
  | rollback sent code =>
    simp only [Machine.finish] at done
    split at done
    · split at done <;> cases done
    · cases done

/-- A success is reported by the end of a transaction that committed. -/
theorem act_done [DecidableEq ν]
    (acted : machine.act registry network m label = some (network',machine')) {rep : Report ν}
    (told : rep ∈ network'.reports) (new : rep ∉ network.reports) {position : Nat}
    (done : rep.result = .done position) : rep.machine = m ∧ ∃ attempt data tables,
      (∃ x, label = .finish x true) ∧ machine.task = .decided attempt data tables (.commit position) ∧
      rep.entryId = attempt.id := by
  -- only the end of a write adds a report
  unfold Machine.act at acted
  split at acted
  next =>
    split at acted
    next => cases acted
    next => cases acted; exact absurd told new
  next =>
    split at acted
    next => cases acted
    next => cases acted; exact absurd told new
  next =>
    split at acted
    next => cases acted; exact absurd told new
    next => cases acted
  next =>
    obtain ⟨page,_,acted⟩ := Option.bind_eq_some_iff.mp acted
    obtain ⟨x,_,same⟩ := Option.map_eq_some_iff.mp acted
    cases same; exact absurd told new
  next =>
    obtain ⟨page,_,acted⟩ := Option.bind_eq_some_iff.mp acted
    split at acted
    next => cases acted; exact absurd told new
    next => cases acted
  next => cases acted; exact absurd told new
  next => cases acted; exact absurd told new
  next =>
    split at acted
    next => cases acted
    next => cases acted; exact absurd told new
  next attempt _ =>
    cases acted
    cases ended : (machine.operate registry attempt).2 with
    | none => rw [ended] at told; exact absurd told new
    | some result =>
      rw [ended] at told
      obtain rfl := (List.mem_cons.mp told).resolve_right new
      exact absurd (ended.trans (congrArg some done)) (operate_undone attempt position)
  next => cases acted; exact absurd told new
  next =>
    split at acted
    next => cases acted; exact absurd told new
    next => cases acted
  next => cases acted; exact absurd told new
  next => cases acted; exact absurd told new
  next => cases acted; exact absurd told new
  next x stored attempt data tables decision task =>
    cases acted
    obtain rfl := (List.mem_cons.mp told).resolve_right new
    obtain ⟨rfl,rfl⟩ := finish_done done
    exact ⟨rfl,attempt,data,tables,⟨x,rfl⟩,task,rfl⟩
  next => cases acted; exact absurd told new
  next =>
    obtain ⟨written,_,same⟩ := Option.map_eq_some_iff.mp acted
    cases same; exact absurd told new
  next => cases acted

theorem Coherent.agreement (holds : Coherent registry starts w) : Agreement registry starts w := by
  have sound := fun m => (holds.machines m).1
  have row_of : ∀ m i entry, w.network.log[i]? = some entry →
      i < (w.machines m).store.lastAppliedPosition →
      ∃ row ∈ (w.machines m).store.journal, row.logged = some (entry,i + 1) := by
    intro m i entry found below
    have inside : (entry,i + 1) ∈ (w.machines m).store.applied := by
      rw [(sound m).applied]
      have numbered_at : (numbered w.network.log)[i]? = some (entry,i + 1) := numbered_get.mpr ⟨found,rfl⟩
      obtain ⟨bound,value⟩ := List.getElem?_eq_some_iff.mp numbered_at
      exact List.mem_take_iff_getElem.mpr ⟨i,by omega,value⟩
    exact List.mem_filterMap.mp inside
  have row_at : ∀ m, ∀ row ∈ (w.machines m).store.journal, ∀ entry position,
      row.logged = some (entry,position) → w.network.log[position - 1]? = some entry := by
    intro m row member entry position logged
    have inside : (entry,position) ∈ (w.machines m).store.applied :=
      List.mem_filterMap.mpr ⟨row,member,logged⟩
    rw [(sound m).applied] at inside
    obtain ⟨i,found⟩ := List.mem_iff_getElem?.mp (List.mem_of_mem_take inside)
    obtain ⟨landed,rfl⟩ := numbered_get.mp found
    exact landed
  refine ⟨fun m => ⟨(sound m).bound,(sound m).applied⟩,fun m => ?_,fun m => (sound m).effects,?_,?_,
    fun rep told quiet => (holds.ledger.unlogged rep told quiet).2,
    fun q flown behind => (sound _).kept q flown rfl behind,fun m => (sound m).pending⟩
  · rw [(sound m).applied,List.map_take]
    have ids : (numbered w.network.log).map (·.1.id) = w.network.log.map (·.id) := by
      apply List.ext_getElem?
      intro i
      simp only [numbered,List.getElem?_map,List.getElem?_zipIdx]
      cases w.network.log[i]? <;> rfl
    rw [ids]
    exact holds.ledger.distinct.sublist (List.take_sublist _ _)
  · intro rep told position done
    obtain ⟨row,member,op,entry,here,logged,same⟩ := (sound rep.machine).done rep told rfl position done
    exact ⟨row,member,op,entry,here,logged,same,row_at _ row member entry position logged⟩
  · intro rep told undone i entry found same
    by_cases below : i < (w.machines rep.machine).store.lastAppliedPosition
    · obtain ⟨row,member,logged⟩ := row_of rep.machine i entry found below
      refine .inr ⟨row,member,logged,fun op here => ?_⟩
      -- a write of its own would have been reported as done
      have own := (sound rep.machine).owned row member op _ here logged
      have one := holds.ledger.reported rep told _ own same.symm
      rw [one] at undone
      exact undone (i + 1) rfl
    · exact .inl (Nat.le_of_not_lt below)

theorem Coherent.logStep [DecidableEq ν] (holds : Coherent registry starts w)
    (taken : next registry w label = some w') : LogStep registry w w' label := by
  unfold next at taken
  split at taken
  next m actor =>
    obtain ⟨⟨network',machine'⟩,acted,rfl⟩ := Option.map_eq_some_iff.mp taken
    refine ⟨?_,fun m' => ?_,?_⟩
    · cases act_acted holds.ledger (holds.machines m) acted <;> exact List.prefix_rfl
    · simp only
      by_cases same : m' = m
      · subst same
        rw [Function.update_self]
        exact act_forward holds.ledger (holds.machines m') acted
      · rw [Function.update_of_ne same]
    · intro rep told new position done
      obtain ⟨rfl,attempt,data,tables,⟨x,rfl⟩,task,same⟩ := act_done acted told new done
      cases actor
      have tasked := (holds.machines rep.machine).2
      rw [task] at tasked
      obtain ⟨slot,landed⟩ := tasked.2
      exact ⟨attempt,data,tables,rfl,task,tasked.1.2.1,same,slot,landed⟩
  next =>
    obtain ⟨network',acted,rfl⟩ := Option.map_eq_some_iff.mp taken
    unfold Network.act at acted
    split at acted
    next =>
      obtain ⟨request,_,rfl⟩ := Option.map_eq_some_iff.mp acted
      exact ⟨append_extends _ _,fun _ => le_refl _,fun rep told new => absurd told new⟩
    next =>
      split at acted
      next => cases acted
      next =>
        cases acted
        exact ⟨List.prefix_append _ _,fun _ => le_refl _,fun rep told new => absurd told new⟩
    next => cases acted

/-- In every interleaving, every machine agrees with the log and every step keeps
to it. -/
theorem log_agreement [DecidableEq ν] (initial : Initial starts w₀)
    (reached : Reach (next registry) Free w₀ w) :
    Agreement registry starts w ∧
      ∀ label w', next registry w label = some w' → LogStep registry w w' label := by
  have holds : Coherent registry starts w :=
    reached.invariant (Coherent registry starts) initial.coherent fun _ _ _ holds _ taken => holds.step taken
  exact ⟨holds.agreement,fun label w' taken => holds.logStep taken⟩

namespace Resent

/-- Writes append one byte, and every machine keeps the bytes it applied. -/
def bytes : Registry Bool (List UInt8) UInt8 where
  operate op tables := .shared (tables ++ [op]) [op]
  decodePart _ := .error "no snapshot"
  validate _ _ := .ok ()
  restore entry tables := .ok (tables ++ entry.body.data)
  install _ _ tables := .ok tables
  referencesHold _ := true

def fresh : World Bool (List UInt8) UInt8 where
  network := ⟨[],[],[],[],[]⟩
  machines _ := ⟨⟨.enabled,0,0,∅,[],[]⟩,.idle,false⟩

theorem fresh_initial : Initial (fun _ => []) fresh := by
  constructor <;> simp [fresh]

/-- A write whose first answer is lost and whose append arrives twice, beside
one that loses the slot and is tried again. -/
def resentRun : List (Label Bool UInt8) :=
  [.start true (some 7),.page true 0 0,.pageEnd true,.prepare true "a",.operate true,.send true,
    .start false (some 9),.page false 0 0,.pageEnd false,.prepare false "b",.operate false,.send false,
    .deliver 1,.noAnswer true,.send true,.deliver 0,.receive true (.receipt 1),.finish true true,
    .deliver 1,.receive false .headMoved,.finish false true,
    .page false 1 1,.entry false,.pageEnd false,.prepare false "c",.operate false,.send false,
    .deliver 0,.cancel false,.finish false true,.start false none,.page false 2 1,.entry false,
    .pageEnd false]

theorem resentRun_agreement : ∃ w, exec (next bytes) fresh resentRun = some w ∧
    (w.machines true).store.tables = [7] ∧ (w.machines false).store.tables = [7,9] ∧
    Agreement bytes (fun _ => []) w ∧
    ∀ label w', next bytes w label = some w' → LogStep bytes w w' label := by
  have run : (exec (next bytes) fresh resentRun).map (fun w =>
      ((w.machines true).store.tables,(w.machines false).store.tables)) = some ([7],[7,9]) := by
    decide +kernel
  obtain ⟨w,done,shown⟩ := Option.map_eq_some_iff.mp run
  obtain ⟨first,second⟩ := Prod.mk.injEq _ _ _ _ ▸ shown
  exact ⟨w,done,first,second,log_agreement fresh_initial (exec_reach done)⟩

end Resent

end Entorhinal.IdentityLog
