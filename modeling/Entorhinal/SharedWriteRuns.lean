import Entorhinal.LogAgreement

/-! Agreement over every run: each action of a machine keeps its own store and
task in order, and leaves the other machines what they rely on. -/
namespace Entorhinal.IdentityLog
open AppendLog Transition

variable {ν σ ω : Type} {registry : Registry ν σ ω} {start : σ} {network network' : Network ν} {m : ν}
variable {store : Store ν σ ω} {machine : Machine ν σ ω}

/-- The appends, answers and reports against the log. -/
structure Ledger (network : Network ν) : Prop where
  distinct : Distinct network.log
  drawnLog : ∀ e ∈ network.log, e.id ∈ network.drawn
  drawnFlights : ∀ q ∈ network.flights, q.entry.id ∈ network.drawn
  only : ∀ q ∈ network.flights, OnlyIn network.log q
  unique : ∀ q ∈ network.flights, ∀ q' ∈ network.flights, q.entry.id = q'.entry.id → q = q'
  replies : ∀ q position, (q,.receipt position) ∈ network.replies →
    position = q.expectedHead + 1 ∧ network.log[q.expectedHead]? = some q.entry
  drawnReports : ∀ rep ∈ network.reports, rep.entryId ∈ network.drawn
  reported : ∀ rep ∈ network.reports, ∀ rep' ∈ network.reports,
    rep.entryId = rep'.entryId → rep = rep'
  unlogged : ∀ rep ∈ network.reports, rep.result = .unlogged → Unsent network rep.entryId

theorem Ledger.unsent (ledger : Ledger network) {id : String} (fresh : id ∉ network.drawn) :
    Unsent network id :=
  ⟨fun q member same => fresh (same ▸ ledger.drawnFlights q member),
    fun e member same => fresh (same ▸ ledger.drawnLog e member)⟩

section Store

/-- A report that is no receipt. -/
theorem StoreSound.report (holds : StoreSound registry start network m store) {id : String}
    {result : Result} (undone : ∀ position, result ≠ .done position) :
    StoreSound registry start (network.report m id (some result)) m store := by
  refine ⟨holds.bound,holds.applied,holds.effects,holds.pending,holds.kept,?_,?_⟩
  · intro row member op x here logged
    exact List.mem_cons_of_mem _ (holds.owned row member op x here logged)
  · intro rep member own position done
    rcases List.mem_cons.mp member with rfl | before
    · exact absurd done (undone position)
    · exact holds.done rep before own position done

/-- A pending row goes when nothing was sent under its id. -/
theorem StoreSound.forget (holds : StoreSound registry start network m store) {id : String}
    (unsent : Unsent network id) :
    StoreSound registry start network m
      { store with pendingEntry := store.pendingEntry.erase id } := by
  refine ⟨holds.bound,holds.applied,holds.effects,?_,?_,holds.owned,holds.done⟩
  · intro other head found
    rw [Table.get?_erase] at found
    split at found
    · cases found
    · exact holds.pending other head found
  · intro q member own behind
    rw [Table.get?_erase,if_neg (unsent.1 q member)]
    exact holds.kept q member own behind

theorem StoreSound.local (holds : StoreSound registry start network m store) {op : ω} {tables : σ}
    (made : registry.effect store.tables ⟨.here op,none⟩ = tables) :
    StoreSound registry start network m
      { store with journal := store.journal ++ [⟨.here op,none⟩], tables := tables } := by
  refine ⟨holds.bound,?_,?_,holds.pending,holds.kept,?_,?_⟩
  · have := holds.applied
    simpa [Store.applied] using this
  · simp only [List.foldl_append,← holds.effects]
    exact made.symm
  · intro row member op' x here logged
    rcases List.mem_append.mp member with before | new
    · exact holds.owned row before op' x here logged
    · obtain rfl := List.mem_singleton.mp new
      cases logged
  · intro rep member own position done
    obtain ⟨row,inside,rest⟩ := holds.done rep member own position done
    exact ⟨row,List.mem_append_left _ inside,rest⟩

/-- The write commits on the receipt of its own entry. -/
theorem StoreSound.commitOwn (holds : StoreSound registry start network m store) {attempt : Attempt ω}
    {data : List UInt8} {tables : σ} (parked : Parked registry network m store attempt data tables)
    (landed : network.log[attempt.head]? = some (attempt.entry m data)) :
    StoreSound registry start
      (network.report m attempt.id (some (.done (attempt.head + 1)))) m
      (store.commitOwn attempt.op tables (attempt.entry m data) (attempt.head + 1)) := by
  obtain ⟨⟨head,_⟩,made,_⟩ := parked
  obtain ⟨bound,_⟩ := List.getElem?_eq_some_iff.mp landed
  refine ⟨bound,?_,?_,?_,?_,?_,?_⟩
  · have entry : (numbered network.log)[attempt.head]? =
        some (attempt.entry m data,attempt.head + 1) := numbered_get.mpr ⟨landed,rfl⟩
    have before := holds.applied
    rw [← head] at before
    simp only [Store.applied,Store.commitOwn,List.filterMap_append] at before ⊢
    rw [before,List.take_add_one,Network.report,entry]
    rfl
  · simp only [Store.commitOwn,List.foldl_append,← holds.effects,List.foldl_cons,List.foldl_nil]
    simp [Registry.effect,made]
  · intro id other found
    simp only [Store.commitOwn,Table.get?_erase,Table.get?_filter] at found
    split at found
    · cases found
    · obtain ⟨stored,behind⟩ := Option.filter_eq_some_iff.mp found
      have := holds.pending id other stored
      simp only [decide_eq_true_eq] at behind
      omega
  · intro q member own behind
    have expected := holds.kept q member own (by simp only [Store.commitOwn] at behind; omega)
    have := holds.pending _ _ expected
    simp only [Store.commitOwn] at behind
    omega
  · intro row member op x here logged
    rcases List.mem_append.mp member with before | new
    · exact List.mem_cons_of_mem _ (holds.owned row before op x here logged)
    · obtain rfl := List.mem_singleton.mp new
      cases logged
      exact List.mem_cons_self
  · intro rep member own position done
    rcases List.mem_cons.mp member with rfl | before
    · cases done
      exact ⟨_,List.mem_append_right _ List.mem_cons_self,attempt.op,_,rfl,rfl,rfl⟩
    · obtain ⟨row,inside,rest⟩ := holds.done rep before own position done
      exact ⟨row,List.mem_append_left _ inside,rest⟩

end Store

/-- What one action of a machine leaves behind: nothing but its own state, a
drawn id with its pending row, the report of its attempt, or an append. -/
inductive Acted (registry : Registry ν σ ω) (start : σ) (network : Network ν) (m : ν)
    (machine machine' : Machine ν σ ω) : Network ν → Prop
  | quiet (holds : MachineSound registry start network m machine')
      (attempt : machine'.task.attempt = none ∨ machine'.task.attempt = machine.task.attempt) :
      Acted registry start network m machine machine' network
  | drew (id : String) (fresh : id ∉ network.drawn)
      (holds : MachineSound registry start network m machine')
      (attempt : ∀ a, machine'.task.attempt = some a → a.id = id) :
      Acted registry start network m machine machine' { network with drawn := id :: network.drawn }
  | ended (a : Attempt ω) (was : machine.task.attempt = some a) (result : Result)
      (holds : MachineSound registry start (network.report m a.id (some result)) m machine')
      (attempt : machine'.task.attempt = none)
      (unlogged : result = .unlogged → Unsent network a.id) :
      Acted registry start network m machine machine' (network.report m a.id (some result))
  | sent (a : Attempt ω) (data : List UInt8)
      (was : machine.task.attempt = some a) (attempt : machine'.task.attempt = some a)
      (holds : MachineSound registry start
        { network with flights := a.request m data :: network.flights } m machine')
      (sole : Sole network (a.request m data)) (only : OnlyIn network.log (a.request m data)) :
      Acted registry start network m machine machine'
        { network with flights := a.request m data :: network.flights }

section Actions

theorem prepare_sound (ledger : Ledger network)
    (holds : StoreSound registry start network m machine.store) {op : ω} {retry : Nat} {id : String}
    (fresh : id ∉ network.drawn) :
    MachineSound registry start network m (machine.prepare op retry id) := by
  refine ⟨⟨holds.bound,holds.applied,holds.effects,?_,?_,holds.owned,holds.done⟩,⟨rfl,?_⟩,
    ledger.unsent fresh⟩
  · intro other head found
    simp only [Machine.prepare,Table.get?_insert] at found
    split at found
    · cases found; rfl
    · exact holds.pending other head found
  · intro q member own behind
    simp only [Machine.prepare,Table.get?_insert]
    rw [if_neg ((ledger.unsent fresh).1 q member)]
    exact holds.kept q member own behind
  · simp [Machine.prepare]

/-- The write ran: it is over, or it is parked with its entry. -/
theorem operate_acted (holds : StoreSound registry start network m machine.store)
    {attempt : Attempt ω} (prepared : machine.task = .prepared attempt)
    (held : Held machine.store attempt) (unsent : Unsent network attempt.id) :
    Acted registry start network m machine (machine.operate registry attempt).1
      (network.report m attempt.id (machine.operate registry attempt).2) := by
  have was : machine.task.attempt = some attempt := by rw [prepared]; rfl
  unfold Machine.operate
  split
  next code refused =>
    exact .ended attempt was _ ⟨(holds.forget unsent).report (by simp),trivial⟩ rfl (by simp)
  next => exact .ended attempt was _ ⟨holds.report (by simp),trivial⟩ rfl fun _ => unsent
  next => exact .ended attempt was _ ⟨(holds.forget unsent).report (by simp),trivial⟩ rfl fun _ => unsent
  next tables made =>
    have effect : registry.effect machine.store.tables ⟨.here attempt.op,none⟩ = tables := by
      simp [Registry.effect,made]
    have written := holds.local effect
    exact .ended attempt was _ ⟨(written.forget unsent).report (by simp),trivial⟩ rfl fun _ => unsent
  next tables data made =>
    split
    next => exact .ended attempt was _ ⟨(holds.forget unsent).report (by simp),trivial⟩ rfl (by simp)
    next =>
      refine .quiet ⟨holds,⟨held,made,?_⟩,unsent⟩ (.inr was.symm)
      intro q member same
      exact absurd same (unsent.1 q member)

theorem finish_acted (holds : StoreSound registry start network m machine.store)
    {attempt : Attempt ω} {data : List UInt8} {tables : σ} {decision : Decision}
    (decided : machine.task = .decided attempt data tables decision)
    (parked : Parked registry network m machine.store attempt data tables)
    (settled : decision.Sound network m attempt data) (stored : Bool) :
    Acted registry start network m machine (machine.finish m attempt data tables stored decision).1
      (network.report m attempt.id
        (some (machine.finish m attempt data tables stored decision).2)) := by
  have was : machine.task.attempt = some attempt := by rw [decided]; rfl
  cases decision with
  | commit position =>
    obtain ⟨rfl,landed⟩ := settled
    cases stored with
    | true => exact .ended attempt was _ ⟨holds.commitOwn parked landed,trivial⟩ rfl (by simp [Machine.finish])
    | false =>
      exact .ended attempt was _ ⟨holds.report (by simp [Machine.finish]),trivial⟩ rfl
        (by simp [Machine.finish])
  | rollback sent code =>
    have kept : StoreSound registry start network m
        (if sent then { machine with task := .idle } else machine.forget attempt.id).store := by
      cases sent with
      | true => exact holds
      | false => exact holds.forget (settled rfl)
    have idle : (if sent then { machine with task := .idle } else machine.forget attempt.id).task = .idle := by
      cases sent <;> rfl
    simp only [Machine.finish]
    split
    next =>
      split
      next =>
        refine .ended attempt was _ ⟨kept.report (by simp),?_⟩ (by rw [idle]; rfl) (by simp)
        rw [idle]; trivial
      next =>
        have again : Advances registry (network.report m attempt.id (some (.failed code))) m _
            ((if sent then { machine with task := .idle } else machine.forget attempt.id).startRun
              (some (attempt.op,attempt.retry + 1))) := startRun_advances
        exact .ended attempt was _ (again.sound (kept.report (by simp))) again.attempt (by simp)
    next =>
      refine .ended attempt was _ ⟨kept.report (by simp),?_⟩ (by rw [idle]; rfl) (by simp)
      rw [idle]; trivial

theorem send_acted (ledger : Ledger network)
    (holds : StoreSound registry start network m machine.store)
    {attempt : Attempt ω} {data : List UInt8} {tables : σ} {sent waiting : Bool}
    (task : machine.task = .parked attempt data tables sent waiting)
    (parked : Parked registry network m machine.store attempt data tables)
    (before : if sent then attempt.request m data ∈ network.flights else Unsent network attempt.id) :
    Acted registry start network m machine
      { machine with task := .parked attempt data tables true true }
      { network with flights := attempt.request m data :: network.flights } := by
  obtain ⟨⟨head,pending⟩,made,sole⟩ := parked
  refine .sent attempt data (by rw [task]; rfl) rfl ⟨?_,⟨⟨head,pending⟩,made,?_⟩,?_⟩ sole ?_
  · refine ⟨holds.bound,holds.applied,holds.effects,holds.pending,?_,holds.owned,holds.done⟩
    intro q member own behind
    rcases List.mem_cons.mp member with rfl | inside
    · simp only [Attempt.request,Attempt.entry,head]
      exact pending
    · exact holds.kept q inside own behind
  · intro q member same
    rcases List.mem_cons.mp member with rfl | inside
    · rfl
    · exact sole q inside same
  · exact List.mem_cons_self
  · cases sent with
    | true => exact ledger.only _ before
    | false => exact OnlyIn.absent before.2

theorem settle_sound (ledger : Ledger network) {attempt : Attempt ω} {data : List UInt8}
    {reply : Reply} (answered : (attempt.request m data,reply) ∈ network.replies) :
    (Machine.settle attempt reply).Sound network m attempt data := by
  cases reply with
  | receipt position =>
    simp only [Machine.settle]
    obtain ⟨position_eq,landed⟩ : position = attempt.head + 1 ∧
        network.log[attempt.head]? = some (attempt.entry m data) := ledger.replies _ _ answered
    rw [if_pos position_eq]
    exact ⟨position_eq,landed⟩
  | headMoved => simp [Machine.settle,Decision.Sound]
  | idReused => simp [Machine.settle,Decision.Sound]

/-- A local write leaves what a task without an open transaction relies on. -/
theorem TaskSound.local {task : Task ν σ ω} (holds : TaskSound registry network m store task)
    (unparked : ∀ a data tables sent waiting, task ≠ .parked a data tables sent waiting)
    (undecided : ∀ a data tables decision, task ≠ .decided a data tables decision)
    {journal : List (JournalRow ν ω)} {tables : σ} :
    TaskSound registry network m { store with journal := journal, tables := tables } task := by
  cases task with
  | idle => trivial
  | ready => trivial
  | catchUp run write => exact ⟨holds.after,holds.parts,holds.page⟩
  | prepared attempt => exact holds
  | parked a data tables sent waiting => exact absurd rfl (unparked a data tables sent waiting)
  | decided a data tables decision => exact absurd rfl (undecided a data tables decision)

theorem writeLocal_acted (holds : MachineSound registry start network m machine) {op : ω}
    {machine' : Machine ν σ ω} (written : machine.writeLocal registry op = some machine') :
    Acted registry start network m machine machine' network := by
  have commit : ∀ tables, registry.effect machine.store.tables ⟨.here op,none⟩ = tables →
      (∀ a data tables sent waiting, machine.task ≠ .parked a data tables sent waiting) →
      (∀ a data tables decision, machine.task ≠ .decided a data tables decision) →
      Acted registry start network m machine { machine with store := { machine.store with
        journal := machine.store.journal ++ [⟨.here op,none⟩], tables := tables } } network :=
    fun _ made unparked undecided =>
      .quiet ⟨holds.1.local made,holds.2.local unparked undecided⟩ (.inr rfl)
  unfold Machine.writeLocal at written
  split at written
  next => cases written
  next => cases written
  next tables made unparked undecided =>
    cases written
    exact commit tables (by simp [Registry.effect,made]) unparked undecided
  next tables data made unparked undecided =>
    split at written
    next => cases written; exact commit tables (by simp [Registry.effect,made]) unparked undecided
    next => cases written
  next => cases written

/-- Every action of a machine that is in order. -/
theorem act_acted [DecidableEq ν] (ledger : Ledger network)
    (holds : MachineSound registry start network m machine) {label : Label ν ω}
    {machine' : Machine ν σ ω}
    (acted : machine.act registry network m label = some (network',machine')) :
    Acted registry start network m machine machine' network' := by
  obtain ⟨sound,tasked⟩ := holds
  have advance : ∀ {machine' : Machine ν σ ω}, Advances registry network m machine machine' →
      Acted registry start network m machine machine' network :=
    fun advances => .quiet (advances.sound sound) (.inl advances.attempt)
  unfold Machine.act at acted
  split at acted
  next =>
    split at acted
    next => cases acted
    next => cases acted; exact advance startRun_advances
  next =>
    split at acted
    next => cases acted
    next => cases acted; exact advance startRun_advances
  next head count run write task =>
    rw [task] at tasked
    split at acted
    next => cases acted; exact advance (readPage_advances tasked _ _)
    next => cases acted
  next run write task =>
    rw [task] at tasked
    obtain ⟨page,shown,acted⟩ := Option.bind_eq_some_iff.mp acted
    obtain ⟨x,head,same⟩ := Option.map_eq_some_iff.mp acted
    cases same
    exact advance (takeEntry_advances sound ledger.distinct tasked shown head)
  next run write task =>
    rw [task] at tasked
    obtain ⟨page,shown,acted⟩ := Option.bind_eq_some_iff.mp acted
    split at acted
    next => cases acted; exact advance (endPage_advances tasked)
    next => cases acted
  next => cases acted; exact advance (.ends rfl rfl)
  next => cases acted; exact advance (.ends rfl rfl)
  next id op retry task =>
    split at acted
    next => cases acted
    next fresh =>
      cases acted
      exact .drew id fresh (prepare_sound ledger sound fresh) (by rintro a ⟨⟩; rfl)
  next attempt task =>
    rw [task] at tasked
    cases acted
    exact operate_acted sound task tasked.1 tasked.2
  next attempt data tables sent task =>
    rw [task] at tasked
    cases acted
    exact send_acted ledger sound task tasked.1 tasked.2
  next reply attempt data tables sent task =>
    rw [task] at tasked
    split at acted
    next answered =>
      cases acted
      exact .quiet ⟨sound,tasked.1,settle_sound ledger answered⟩ (.inr (by rw [task]; rfl))
    next => cases acted
  next attempt data tables sent task =>
    rw [task] at tasked
    cases acted
    exact .quiet ⟨sound,tasked⟩ (.inr (by rw [task]; rfl))
  next attempt data tables sent task =>
    rw [task] at tasked
    cases acted
    refine .quiet ⟨sound,tasked.1,?_⟩ (.inr (by rw [task]; rfl))
    rintro rfl
    exact tasked.2
  next attempt data tables sent waiting task =>
    rw [task] at tasked
    cases acted
    exact .quiet ⟨sound,tasked.1,by simp [Decision.Sound]⟩ (.inr (by rw [task]; rfl))
  next stored attempt data tables decision task =>
    rw [task] at tasked
    cases acted
    exact finish_acted sound task tasked.1 tasked.2 stored
  next => cases acted; exact advance (.ends rfl rfl)
  next op _ =>
    obtain ⟨written,done,same⟩ := Option.map_eq_some_iff.mp acted
    cases same
    exact writeLocal_acted ⟨sound,tasked⟩ done
  next => cases acted

end Actions

/-- What a machine that does not act notices of a step. -/
structure Beside (m : ν) (machine : Machine ν σ ω) (network network' : Network ν) : Prop where
  log : network.log <+: network'.log
  entries : ∀ e ∈ network'.log, e ∈ network.log ∨ (∃ q ∈ network.flights, q.entry = e) ∨
    e.id ∉ network.drawn
  flights : ∀ q ∈ network'.flights, q ∈ network.flights ∨
    (q.entry.body.author ≠ m ∧ ∀ a, machine.task.attempt = some a → q.entry.id ≠ a.id)
  kept : ∀ q ∈ network.flights, q ∈ network'.flights
  reports : ∀ rep ∈ network'.reports, rep ∈ network.reports ∨ rep.machine ≠ m
  told : ∀ rep ∈ network.reports, rep ∈ network'.reports

section Frame

theorem Beside.unsent (beside : Beside m machine network network') {id : String}
    (drawn : id ∈ network.drawn) (apart : ∀ q ∈ network'.flights, q ∈ network.flights ∨ q.entry.id ≠ id)
    (unsent : Unsent network id) : Unsent network' id := by
  refine ⟨fun q member same => ?_,fun e member same => ?_⟩
  · rcases apart q member with before | other
    · exact unsent.1 q before same
    · exact other same
  · rcases beside.entries e member with before | ⟨q,flown,rfl⟩ | new
    · exact unsent.2 e before same
    · exact unsent.1 q flown same
    · exact new (same ▸ drawn)

theorem StoreSound.beside (holds : StoreSound registry start network m store)
    (beside : Beside m machine network network') : StoreSound registry start network' m store := by
  obtain ⟨rest,grown⟩ := beside.log
  refine ⟨?_,?_,holds.effects,holds.pending,?_,?_,?_⟩
  · rw [← grown,List.length_append]; exact holds.bound.trans (Nat.le_add_right _ _)
  · rw [holds.applied,← grown,numbered,numbered,List.zipIdx_append,List.take_append_of_le_length]
    rw [List.length_zipIdx]; exact holds.bound
  · intro q member own behind
    rcases beside.flights q member with before | ⟨other,_⟩
    · exact holds.kept q before own behind
    · exact absurd own other
  · exact fun row member op x here logged => beside.told _ (holds.owned row member op x here logged)
  · intro rep member own position result
    rcases beside.reports rep member with before | other
    · exact holds.done rep before own position result
    · exact absurd own other

theorem RunSound.beside {run : CatchUp ν} (holds : RunSound network store run)
    (beside : Beside m machine network network') : RunSound network' store run :=
  ⟨holds.after,holds.parts.trans (beside.log.drop _),fun page shown =>
    (holds.page page shown).trans ((numbered_extends beside.log).drop _)⟩

theorem Parked.beside {attempt : Attempt ω} {data : List UInt8} {tables : σ}
    (holds : Parked registry network m store attempt data tables)
    (beside : Beside m machine network network') (was : machine.task.attempt = some attempt) :
    Parked registry network' m store attempt data tables := by
  refine ⟨holds.1,holds.2.1,fun q member same => ?_⟩
  rcases beside.flights q member with before | ⟨_,apart⟩
  · exact holds.2.2 q before same
  · exact absurd same (apart attempt was)

theorem MachineSound.beside (holds : MachineSound registry start network m machine)
    (beside : Beside m machine network network')
    (drawn : ∀ a, machine.task.attempt = some a → a.id ∈ network.drawn) :
    MachineSound registry start network' m machine := by
  refine ⟨holds.1.beside beside,?_⟩
  have tasked := holds.2
  have unsent : ∀ a, machine.task.attempt = some a → Unsent network a.id → Unsent network' a.id :=
    fun a was => beside.unsent (drawn a was) fun q member =>
      (beside.flights q member).imp_right fun other => other.2 a was
  cases task : machine.task with
  | idle => trivial
  | ready => trivial
  | catchUp run write => rw [task] at tasked; exact RunSound.beside tasked beside
  | prepared attempt =>
    rw [task] at tasked
    exact ⟨tasked.1,unsent attempt (by rw [task]; rfl) tasked.2⟩
  | parked attempt data tables sent waiting =>
    rw [task] at tasked
    have was : machine.task.attempt = some attempt := by rw [task]; rfl
    refine ⟨Parked.beside tasked.1 beside was,?_⟩
    have sending := tasked.2
    cases sent with
    | true => exact beside.kept _ sending
    | false => exact unsent attempt was sending
  | decided attempt data tables decision =>
    rw [task] at tasked
    have was : machine.task.attempt = some attempt := by rw [task]; rfl
    refine ⟨Parked.beside tasked.1 beside was,?_⟩
    have settled := tasked.2
    cases decision with
    | commit position =>
      obtain ⟨rest,grown⟩ := beside.log
      obtain ⟨rfl,landed⟩ := settled
      obtain ⟨bound,_⟩ := List.getElem?_eq_some_iff.mp landed
      refine ⟨rfl,?_⟩
      rw [← grown,List.getElem?_append_left bound]
      exact landed
    | rollback sent code => exact fun none => unsent attempt was (settled none)

end Frame

/-- The attempts under way: their ids are drawn, unreported and one machine's. -/
structure Attempts (network : Network ν) (attempt : ν → Option (Attempt ω)) : Prop where
  drawn : ∀ m a, attempt m = some a → a.id ∈ network.drawn
  unreported : ∀ m a, attempt m = some a → ∀ rep ∈ network.reports, rep.entryId ≠ a.id
  apart : ∀ m m' a a', attempt m = some a → attempt m' = some a' → a.id = a'.id → m = m'

section Steps

variable {attempt attempt' : ν → Option (Attempt ω)}

theorem Attempts.shrink (holds : Attempts network attempt)
    (kept : ∀ m a, attempt' m = some a → attempt m = some a) : Attempts network attempt' :=
  ⟨fun m a now => holds.drawn m a (kept m a now),fun m a now => holds.unreported m a (kept m a now),
    fun m m' a a' now now' => holds.apart m m' a a' (kept m a now) (kept m' a' now')⟩

theorem Attempts.draw (holds : Attempts network attempt) (ledger : Ledger network) {id : String}
    (fresh : id ∉ network.drawn)
    (made : ∀ m' a, attempt' m' = some a → (m' = m ∧ a.id = id) ∨ attempt m' = some a) :
    Attempts { network with drawn := id :: network.drawn } attempt' := by
  refine ⟨fun m' a now => ?_,fun m' a now rep member => ?_,fun m' m'' a a' now now' same => ?_⟩
  · rcases made m' a now with ⟨_,rfl⟩ | before
    · exact List.mem_cons_self
    · exact List.mem_cons_of_mem _ (holds.drawn m' a before)
  · rcases made m' a now with ⟨_,rfl⟩ | before
    · intro same
      exact fresh (same ▸ ledger.drawnReports rep member)
    · exact holds.unreported m' a before rep member
  · rcases made m' a now with ⟨rfl,rfl⟩ | before <;> rcases made m'' a' now' with ⟨rfl,new⟩ | before'
    · rfl
    · exact absurd (same ▸ holds.drawn m'' a' before') fresh
    · exact absurd (new ▸ same ▸ holds.drawn m' a before) fresh
    · exact holds.apart m' m'' a a' before before' same

theorem Attempts.report (holds : Attempts network attempt) {a : Attempt ω} (was : attempt m = some a)
    {result : Result} (made : ∀ m' a', attempt' m' = some a' → m' ≠ m ∧ attempt m' = some a') :
    Attempts (network.report m a.id (some result)) attempt' := by
  refine ⟨fun m' a' now => holds.drawn m' a' (made m' a' now).2,fun m' a' now rep member => ?_,
    fun m' m'' a' a'' now now' => holds.apart m' m'' a' a'' (made m' a' now).2 (made m'' a'' now').2⟩
  obtain ⟨different,before⟩ := made m' a' now
  rcases List.mem_cons.mp member with rfl | inside
  · exact fun same => different (holds.apart m' m a' a before was same.symm)
  · exact holds.unreported m' a' before rep inside

theorem Ledger.report (ledger : Ledger network) {id : String} {result : Result}
    (drawn : id ∈ network.drawn) (unreported : ∀ rep ∈ network.reports, rep.entryId ≠ id)
    (unlogged : result = .unlogged → Unsent network id) :
    Ledger (network.report m id (some result)) := by
  refine ⟨ledger.distinct,ledger.drawnLog,ledger.drawnFlights,ledger.only,ledger.unique,
    ledger.replies,?_,?_,?_⟩
  · intro rep member
    rcases List.mem_cons.mp member with rfl | inside
    · exact drawn
    · exact ledger.drawnReports rep inside
  · intro rep member rep' member' same
    rcases List.mem_cons.mp member with rfl | inside <;> rcases List.mem_cons.mp member' with rfl | inside'
    · rfl
    · exact absurd same.symm (unreported rep' inside')
    · exact absurd same (unreported rep inside)
    · exact ledger.reported rep inside rep' inside' same
  · intro rep member quiet
    rcases List.mem_cons.mp member with rfl | inside
    · exact unlogged quiet
    · exact ledger.unlogged rep inside quiet

theorem Ledger.send (ledger : Ledger network) {request : Append ν}
    (drawn : request.entry.id ∈ network.drawn) (sole : Sole network request)
    (only : OnlyIn network.log request)
    (unreported : ∀ rep ∈ network.reports, rep.entryId ≠ request.entry.id) :
    Ledger { network with flights := request :: network.flights } := by
  refine ⟨ledger.distinct,ledger.drawnLog,?_,?_,?_,ledger.replies,ledger.drawnReports,ledger.reported,?_⟩
  · intro q member
    rcases List.mem_cons.mp member with rfl | inside
    · exact drawn
    · exact ledger.drawnFlights q inside
  · intro q member
    rcases List.mem_cons.mp member with rfl | inside
    · exact only
    · exact ledger.only q inside
  · intro q member q' member' same
    rcases List.mem_cons.mp member with rfl | inside <;> rcases List.mem_cons.mp member' with rfl | inside'
    · rfl
    · exact (sole q' inside' same.symm).symm
    · exact sole q inside same
    · exact ledger.unique q inside q' inside' same
  · intro rep member quiet
    obtain ⟨unsent,absent⟩ := ledger.unlogged rep member quiet
    refine ⟨fun q inside => ?_,absent⟩
    rcases List.mem_cons.mp inside with rfl | before
    · exact (unreported rep member).symm
    · exact unsent q before

/-- Entries that come from appends on their way or under new ids. -/
theorem Ledger.grow (ledger : Ledger network) {log : List (LogEntry ν)} {drawn : List String}
    {replies : List (Append ν × Reply)} (distinct : Distinct log)
    (wider : ∀ id ∈ network.drawn, id ∈ drawn) (entries : ∀ e ∈ log, e.id ∈ drawn)
    (only : ∀ q ∈ network.flights, OnlyIn log q)
    (answers : ∀ q position, (q,.receipt position) ∈ replies →
      position = q.expectedHead + 1 ∧ log[q.expectedHead]? = some q.entry)
    (unsent : ∀ id ∈ network.drawn, Unsent network id → ∀ e ∈ log, e.id ≠ id) :
    Ledger { network with log := log, drawn := drawn, replies := replies } :=
  ⟨distinct,entries,fun q member => wider _ (ledger.drawnFlights q member),only,ledger.unique,answers,
    fun rep member => wider _ (ledger.drawnReports rep member),ledger.reported,
    fun rep member quiet =>
      have before := ledger.unlogged rep member quiet
      ⟨before.1,unsent _ (ledger.drawnReports rep member) before⟩⟩

theorem Ledger.deliver [DecidableEq ν] (ledger : Ledger network) {request : Append ν}
    (flown : request ∈ network.flights) :
    Ledger { network with
      log := (append network.log request).1
      replies := (request,(append network.log request).2) :: network.replies } := by
  have entries : ∀ e ∈ (append network.log request).1, e ∈ network.log ∨ e = request.entry := by
    intro e member
    rcases append_cases network.log request with same | ⟨_,_,pushed⟩
    · rw [same] at member; exact .inl member
    · rw [pushed] at member; simpa using member
  have only : ∀ q ∈ network.flights, OnlyIn (append network.log request).1 q := fun q member =>
    (ledger.only q member).append fun same => ledger.unique request flown q member same
  refine ledger.grow (append_distinct ledger.distinct) (fun _ => id) ?_ only ?_ ?_
  · intro e member
    rcases entries e member with before | rfl
    · exact ledger.drawnLog e before
    · exact ledger.drawnFlights request flown
  · intro q position member
    rcases List.mem_cons.mp member with same | before
    · obtain ⟨rfl,answer⟩ := Prod.mk.injEq _ _ _ _ ▸ same
      obtain ⟨i,rfl,landed⟩ := append_receipt answer.symm
      obtain ⟨rfl,_⟩ := only q flown i _ landed rfl
      exact ⟨rfl,landed⟩
    · obtain ⟨position_eq,landed⟩ := ledger.replies q position before
      obtain ⟨rest,grown⟩ := append_extends network.log request
      obtain ⟨bound,_⟩ := List.getElem?_eq_some_iff.mp landed
      exact ⟨position_eq,by rw [← grown,List.getElem?_append_left bound]; exact landed⟩
  · intro id _ unsent e member
    rcases entries e member with before | rfl
    · exact unsent.2 e before
    · exact unsent.1 request flown

theorem Ledger.bootstrap (ledger : Ledger network) {entry : LogEntry ν}
    (fresh : entry.id ∉ network.drawn) :
    Ledger { network with log := network.log ++ [entry], drawn := entry.id :: network.drawn } := by
  have entries : ∀ e ∈ network.log ++ [entry], e ∈ network.log ∨ e = entry := by simp
  refine ledger.grow
    (ledger.distinct.push fun e member same => fresh (same ▸ ledger.drawnLog e member))
    (fun _ => List.mem_cons_of_mem _) ?_ ?_ ?_ ?_
  · intro e member
    rcases entries e member with before | rfl
    · exact List.mem_cons_of_mem _ (ledger.drawnLog e before)
    · exact List.mem_cons_self
  · intro q member i e found same
    rw [List.getElem?_append] at found
    split at found
    next => exact ledger.only q member i e found same
    next =>
      have : e = entry := by simpa using List.mem_of_getElem? found
      subst this
      exact absurd (same ▸ ledger.drawnFlights q member) fresh
  · intro q position member
    obtain ⟨position_eq,landed⟩ := ledger.replies q position member
    obtain ⟨bound,_⟩ := List.getElem?_eq_some_iff.mp landed
    exact ⟨position_eq,by rw [List.getElem?_append_left bound]; exact landed⟩
  · intro id drawn unsent e member
    rcases entries e member with before | rfl
    · exact unsent.2 e before
    · rintro rfl
      exact fresh drawn

end Steps

/-- The whole system in order. -/
structure Coherent (registry : Registry ν σ ω) (start : ν → σ) (w : World ν σ ω) : Prop where
  ledger : Ledger w.network
  machines : ∀ m, MachineSound registry (start m) w.network m (w.machines m)
  attempts : Attempts w.network fun m => (w.machines m).task.attempt

/-- The soundness of a machine does not depend on the ids drawn. -/
theorem MachineSound.redraw (holds : MachineSound registry start network m machine)
    (drawn : List String) : MachineSound registry start { network with drawn := drawn } m machine := by
  obtain ⟨sound,tasked⟩ := holds
  refine ⟨⟨sound.bound,sound.applied,sound.effects,sound.pending,sound.kept,sound.owned,sound.done⟩,?_⟩
  cases task : machine.task with
  | idle => trivial
  | ready => trivial
  | catchUp run write => rw [task] at tasked; exact ⟨tasked.after,tasked.parts,tasked.page⟩
  | prepared attempt => rw [task] at tasked; exact tasked
  | parked attempt data tables sent waiting => rw [task] at tasked; exact tasked
  | decided attempt data tables decision =>
    rw [task] at tasked
    cases decision <;> exact tasked

section Run

variable {starts : ν → σ} {w w' : World ν σ ω} {label : Label ν ω}

/-- A machine that does not act keeps its soundness beside one that does. -/
theorem Coherent.others [DecidableEq ν] (holds : Coherent registry starts w) {machine' : Machine ν σ ω}
    (acting : MachineSound registry (starts m) network' m machine')
    (beside : ∀ m', m' ≠ m → Beside m' (w.machines m') w.network network') :
    ∀ m', MachineSound registry (starts m') network' m' (Function.update w.machines m machine' m') := by
  intro m'
  by_cases same : m' = m
  · subst same; rw [Function.update_self]; exact acting
  · rw [Function.update_of_ne same]
    exact (holds.machines m').beside (beside m' same) (holds.attempts.drawn m')

theorem Beside.quiet {m : ν} {machine : Machine ν σ ω} (network : Network ν) (drawn : List String) :
    Beside m machine network { network with drawn := drawn } :=
  ⟨List.prefix_rfl,fun _ member => .inl member,fun _ member => .inl member,fun _ => id,
    fun _ member => .inl member,fun _ => id⟩

theorem Beside.report {m m' : ν} {machine : Machine ν σ ω} (different : m' ≠ m) (network : Network ν)
    (id : String) (result : Result) : Beside m' machine network (network.report m id (some result)) := by
  refine ⟨List.prefix_rfl,fun _ member => .inl member,fun _ member => .inl member,fun _ inside => inside,
    fun rep member => ?_,fun _ => List.mem_cons_of_mem _⟩
  rcases List.mem_cons.mp member with rfl | inside
  · exact .inr (Ne.symm different)
  · exact .inl inside

theorem Beside.send {m m' : ν} {machine : Machine ν σ ω} (different : m' ≠ m) (network : Network ν)
    {a : Attempt ω} (data : List UInt8)
    (apart : ∀ a', machine.task.attempt = some a' → a.id ≠ a'.id) :
    Beside m' machine network { network with flights := a.request m data :: network.flights } := by
  refine ⟨List.prefix_rfl,fun _ member => .inl member,fun q member => ?_,fun _ => List.mem_cons_of_mem _,
    fun _ member => .inl member,fun _ => id⟩
  rcases List.mem_cons.mp member with rfl | inside
  · exact .inr ⟨Ne.symm different,apart⟩
  · exact .inl inside

/-- The attempts after a step of one machine. -/
theorem update_attempt [DecidableEq ν] {machines : ν → Machine ν σ ω} {machine' : Machine ν σ ω} {m' : ν}
    {a : Attempt ω} (now : (Function.update machines m machine' m').task.attempt = some a) :
    (m' = m ∧ machine'.task.attempt = some a) ∨ (m' ≠ m ∧ (machines m').task.attempt = some a) := by
  by_cases same : m' = m
  · subst same; rw [Function.update_self] at now; exact .inl ⟨rfl,now⟩
  · rw [Function.update_of_ne same] at now; exact .inr ⟨same,now⟩

theorem Coherent.acted [DecidableEq ν] (holds : Coherent registry starts w) {machine' : Machine ν σ ω}
    (acted : Acted registry (starts m) w.network m (w.machines m) machine' network') :
    Coherent registry starts ⟨network',Function.update w.machines m machine'⟩ := by
  cases acted with
  | quiet sound attempt =>
    refine ⟨holds.ledger,holds.others sound fun m' _ => .quiet w.network _,holds.attempts.shrink ?_⟩
    intro m' a now
    rcases update_attempt now with ⟨rfl,mine⟩ | ⟨_,before⟩
    · rcases attempt with none | same
      · rw [none] at mine; cases mine
      · rw [← same]; exact mine
    · exact before
  | drew id fresh sound attempt =>
    refine ⟨holds.ledger.grow holds.ledger.distinct (fun _ => List.mem_cons_of_mem _)
      (fun e member => List.mem_cons_of_mem _ (holds.ledger.drawnLog e member)) holds.ledger.only
      holds.ledger.replies (fun _ _ unsent => unsent.2),
      holds.others (sound.redraw _) fun m' _ => .quiet w.network _,
      holds.attempts.draw (m := m) holds.ledger fresh ?_⟩
    intro m' a now
    rcases update_attempt now with ⟨rfl,mine⟩ | ⟨_,before⟩
    · exact .inl ⟨rfl,attempt a mine⟩
    · exact .inr before
  | ended a was result sound attempt unlogged =>
    refine ⟨holds.ledger.report (holds.attempts.drawn m a was) (holds.attempts.unreported m a was) unlogged,
      holds.others sound fun m' different => .report different _ _ _,holds.attempts.report was ?_⟩
    intro m' a' now
    rcases update_attempt now with ⟨_,mine⟩ | before
    · rw [attempt] at mine; cases mine
    · exact before
  | sent a data was attempt sound sole only =>
    refine ⟨holds.ledger.send (holds.attempts.drawn m a was) sole only (holds.attempts.unreported m a was),
      holds.others sound fun m' different => .send different _ data fun a' now same =>
        different (holds.attempts.apart m m' a a' was now same).symm,?_⟩
    have kept : Attempts w.network fun m' =>
        (Function.update w.machines m machine' m').task.attempt := by
      refine holds.attempts.shrink fun m' a' now => ?_
      rcases update_attempt now with ⟨rfl,mine⟩ | ⟨_,before⟩
      · rw [attempt] at mine; exact was.trans mine
      · exact before
    exact ⟨kept.drawn,kept.unreported,kept.apart⟩

theorem Coherent.step [DecidableEq ν] (holds : Coherent registry starts w)
    (taken : next registry w label = some w') : Coherent registry starts w' := by
  unfold next at taken
  split at taken
  next m _ =>
    obtain ⟨⟨network',machine'⟩,acted,rfl⟩ := Option.map_eq_some_iff.mp taken
    exact holds.acted (act_acted holds.ledger (holds.machines m) acted)
  next =>
    obtain ⟨network',acted,rfl⟩ := Option.map_eq_some_iff.mp taken
    unfold Network.act at acted
    split at acted
    next i =>
      obtain ⟨request,flight,rfl⟩ := Option.map_eq_some_iff.mp acted
      have flown := List.mem_of_getElem? flight
      refine ⟨holds.ledger.deliver flown,fun m => (holds.machines m).beside ?_ (holds.attempts.drawn m),
        ⟨holds.attempts.drawn,holds.attempts.unreported,holds.attempts.apart⟩⟩
      refine ⟨append_extends _ _,fun e member => ?_,fun _ inside => .inl inside,fun _ => id,
        fun _ inside => .inl inside,fun _ => id⟩
      rcases append_cases w.network.log request with same | ⟨_,_,pushed⟩
      · exact .inl (same ▸ member)
      · simp only [pushed,List.mem_append,List.mem_singleton] at member
        exact member.imp_right fun same => .inl ⟨request,flown,same.symm⟩
    next entry =>
      split at acted
      next => cases acted
      next fresh =>
        cases acted
        refine ⟨holds.ledger.bootstrap fresh,
          fun m => (holds.machines m).beside ?_ (holds.attempts.drawn m),
          ⟨fun m a now => List.mem_cons_of_mem _ (holds.attempts.drawn m a now),
            holds.attempts.unreported,holds.attempts.apart⟩⟩
        refine ⟨List.prefix_append _ _,fun e member => ?_,fun _ inside => .inl inside,fun _ => id,
          fun _ inside => .inl inside,fun _ => id⟩
        rcases List.mem_append.mp member with before | new
        · exact .inl before
        · rw [List.mem_singleton.mp new]; exact .inr (.inr fresh)
    next => cases acted

end Run

end Entorhinal.IdentityLog
