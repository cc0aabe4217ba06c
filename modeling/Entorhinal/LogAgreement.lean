import Entorhinal.SharedWrite
import Entorhinal.Traverse
import Mathlib.Data.List.Infix

/-! Every machine's store follows the log: what its transactions pass, step by
step, is the next stretch of the log and nothing else. -/
namespace Entorhinal.IdentityLog
open AppendLog Transition

variable {ν σ ω : Type}

/-- The entries of a log with their positions. -/
def numbered (log : List (LogEntry ν)) : List (LogEntry ν × Nat) := log.zipIdx 1

theorem numbered_extends {log log' : List (LogEntry ν)} (grown : log <+: log') :
    numbered log <+: numbered log' := by
  obtain ⟨rest,rfl⟩ := grown
  simp only [numbered,List.zipIdx_append]
  exact List.prefix_append _ _

theorem numbered_get {log : List (LogEntry ν)} {i position : Nat} {entry : LogEntry ν} :
    (numbered log)[i]? = some (entry,position) ↔ log[i]? = some entry ∧ position = i + 1 := by
  simp only [numbered,List.getElem?_zipIdx,Option.map_eq_some_iff,Prod.mk.injEq]
  constructor
  · rintro ⟨e,found,rfl,rfl⟩
    exact ⟨found,by omega⟩
  · rintro ⟨found,rfl⟩
    exact ⟨entry,found,rfl,by omega⟩

theorem numbered_drop {log : List (LogEntry ν)} {n : Nat} :
    (numbered log).drop n = (log.drop n).zipIdx (n + 1) := by
  apply List.ext_getElem?
  intro i
  simp only [numbered,List.getElem?_drop,List.getElem?_zipIdx]
  cases log[n + i]? <;> simp
  omega

theorem numbered_stretch {log part : List (LogEntry ν)} {n : Nat} (stretch : part <+: log.drop n) :
    part.zipIdx (n + 1) <+: (numbered log).drop n := by
  obtain ⟨rest,whole⟩ := stretch
  rw [numbered_drop,← whole,List.zipIdx_append]
  exact List.prefix_append _ _

theorem stretch_head {α : Type} {l rest : List α} {x : α} {k : Nat} (stretch : x :: rest <+: l.drop k) :
    l[k]? = some x ∧ rest <+: l.drop (k + 1) := by
  obtain ⟨others,whole⟩ := stretch
  have first : (l.drop k)[0]? = some x := by rw [← whole]; rfl
  refine ⟨by simpa using first,others,?_⟩
  rw [← List.tail_drop,← whole]; rfl

/-- The next element of a list extends a stretch of it. -/
theorem prefix_snoc {α : Type} {l part : List α} {x : α} (stretch : part <+: l)
    (next : l[part.length]? = some x) : part ++ [x] <+: l := by
  obtain ⟨rest,rfl⟩ := stretch
  cases rest with
  | nil => simp at next
  | cons y rest =>
    obtain rfl : y = x := by simpa using next
    exact ⟨rest,by simp⟩

section Transactions

variable {registry : Registry ν σ ω} {store store' store'' : Store ν σ ω}

/-- A transaction that passes these entries and makes no write of its own. -/
structure Passes (registry : Registry ν σ ω) (store store' : Store ν σ ω)
    (entries : List (LogEntry ν × Nat)) : Prop where
  rows : ∃ rows, store'.journal = store.journal ++ rows ∧ rows.filterMap (·.logged) = entries ∧
    (∀ row ∈ rows, ∀ op, row.change ≠ .here op) ∧ store'.tables = rows.foldl registry.effect store.tables
  position : store'.lastAppliedPosition = store.lastAppliedPosition + entries.length
  pending : ∀ id head, store'.pendingEntry.get? id = some head ↔
    store.pendingEntry.get? id = some head ∧
      (entries = [] ∨ store'.lastAppliedPosition ≤ head)

theorem Passes.trans {first second : List (LogEntry ν × Nat)} (before : Passes registry store store' first)
    (after : Passes registry store' store'' second) : Passes registry store store'' (first ++ second) := by
  obtain ⟨rows,journal,logged,foreign,tables⟩ := before.rows
  obtain ⟨rows',journal',logged',foreign',tables'⟩ := after.rows
  refine ⟨⟨rows ++ rows',by simp [journal,journal'],by simp [logged,logged'],?_,?_⟩,?_,?_⟩
  · intro row member
    rcases List.mem_append.mp member with inside | inside
    · exact foreign row inside
    · exact foreign' row inside
  · rw [List.foldl_append,← tables,tables']
  · rw [after.position,before.position,List.length_append,Nat.add_assoc]
  · intro id head
    rw [after.pending,before.pending,after.position,before.position]
    cases first <;> cases second <;> simp
    omega

theorem Passes.hasOwn {entries : List (LogEntry ν × Nat)} (passes : Passes registry store store' entries)
    (id : String) : store'.hasOwn id = store.hasOwn id := by
  obtain ⟨rows,journal,_,foreign,_⟩ := passes.rows
  have none_own : rows.any (·.own id) = false := by
    rw [List.any_eq_false]
    intro row member
    have := foreign row member
    cases shape : row.change <;> simp_all [JournalRow.own]
  simp [Store.hasOwn,journal,none_own]

@[simp] theorem finishJoin_journal (head : Nat) : (store.finishJoin head).journal = store.journal := by
  unfold Store.finishJoin; split <;> rfl

@[simp] theorem finishJoin_tables (head : Nat) : (store.finishJoin head).tables = store.tables := by
  unfold Store.finishJoin; split <;> rfl

@[simp] theorem finishJoin_position (head : Nat) :
    (store.finishJoin head).lastAppliedPosition = store.lastAppliedPosition := by
  unfold Store.finishJoin; split <;> rfl

@[simp] theorem finishJoin_pending (head : Nat) :
    (store.finishJoin head).pendingEntry = store.pendingEntry := by
  unfold Store.finishJoin; split <;> rfl

/-- Stores that differ in nothing a run compares pass nothing. -/
theorem Passes.still (journal : store'.journal = store.journal) (tables : store'.tables = store.tables)
    (position : store'.lastAppliedPosition = store.lastAppliedPosition)
    (pending : store'.pendingEntry = store.pendingEntry) : Passes registry store store' [] :=
  ⟨⟨[],by simp [journal],rfl,by simp,by simp [tables]⟩,by simp [position],by simp [pending]⟩

theorem write_passes {change : Change ν ω} {tables : σ} {entry : LogEntry ν} {position : Nat}
    (fresh : store.hasOwn entry.id = false) (foreign : ∀ op, change ≠ .here op)
    (nextUp : position = store.lastAppliedPosition + 1)
    (effect : registry.effect store.tables ⟨change,some (entry,position)⟩ = tables) :
    Passes registry store (store.write change tables entry position) [(entry,position)] := by
  simp only [Store.write,fresh]
  refine ⟨⟨[⟨change,some (entry,position)⟩],?_,rfl,?_,?_⟩,?_,?_⟩
  · simp [Store.advance]
  · intro row member
    obtain rfl := List.mem_singleton.mp member
    exact foreign
  · simp [Store.advance,effect]
  · simp [Store.advance,nextUp]
  · intro id head
    simp [Store.advance]

theorem applyRemoteEntry_ok {entry : LogEntry ν} {position : Nat}
    (fresh : store.hasOwn entry.id = false)
    (ok : applyRemoteEntry registry store entry position = .ok store') :
    Passes registry store store' [(entry,position)] := by
  simp only [applyRemoteEntry,fresh] at ok
  split at ok
  next => cases ok
  next =>
    obtain ⟨_,_,ok⟩ := bind_ok ok
    split at ok
    next => cases ok
    next nextUp =>
      obtain ⟨tables,restored,ok⟩ := bind_ok ok
      split at ok
      next =>
        cases ok
        refine write_passes fresh (by simp) (by simpa using nextUp) ?_
        have made : registry.restore entry store.tables = .ok tables := by simpa using restored
        simp [Registry.effect,made,Except.toOption]
      next => cases ok

/-- The parts behind the first carry nothing of their own. -/
theorem writeRest_passes (rest : List (LogEntry ν)) {position : Nat}
    (fresh : ∀ e ∈ rest, store.hasOwn e.id = false)
    (nextUp : position = store.lastAppliedPosition + 1) :
    Passes registry store ((rest.zipIdx position).foldl
      (fun written x => written.write .part written.tables x.1 x.2) store) (rest.zipIdx position) := by
  induction rest generalizing store position with
  | nil => exact .still rfl rfl rfl rfl
  | cons entry rest ih =>
    have first : Passes registry store (store.write .part store.tables entry position)
        [(entry,position)] :=
      write_passes (fresh entry List.mem_cons_self) (by simp) nextUp rfl
    have others := @ih (store.write .part store.tables entry position) (position + 1)
      (fun e member => by rw [first.hasOwn]; exact fresh e (List.mem_cons_of_mem _ member))
      (by rw [first.position,nextUp]; rfl)
    simpa using first.trans others

theorem writeParts_passes {supersedes : Bool} {tables : σ} {entries : List (LogEntry ν)}
    {position : Nat} (fresh : ∀ e ∈ entries, store.hasOwn e.id = false)
    (nextUp : position = store.lastAppliedPosition + 1)
    (installed : registry.install entries supersedes store.tables = .ok tables) :
    Passes registry store (store.writeParts supersedes tables entries position)
      (entries.zipIdx position) := by
  cases entries with
  | nil => exact .still rfl rfl rfl rfl
  | cons entry rest =>
    have head : Passes registry store
        (store.write (.snapshot (entry :: rest) supersedes) tables entry position)
        [(entry,position)] := by
      refine write_passes (fresh entry List.mem_cons_self) (by simp) nextUp ?_
      simp [Registry.effect,installed,Except.toOption]
    have others : Passes registry (store.write (.snapshot (entry :: rest) supersedes) tables entry position)
        _ (rest.zipIdx (position + 1)) := writeRest_passes rest
      (fun e member => by rw [head.hasOwn]; exact fresh e (List.mem_cons_of_mem _ member))
      (by rw [head.position,nextUp]; rfl)
    exact head.trans others

theorem join_still (head : Nat) : Passes registry store (store.join head) [] := by
  refine .still ?_ ?_ ?_ ?_ <;> unfold Store.join <;> split <;> simp

theorem installSnapshot_ok [DecidableEq ν] {entries : List (LogEntry ν)} {position : Nat}
    {joinHead : Option Nat} (fresh : ∀ e ∈ entries, store.hasOwn e.id = false)
    (ok : installSnapshot registry store entries position joinHead = .ok store') :
    Passes registry store store' (entries.zipIdx position) := by
  obtain ⟨parts,_,ok⟩ := bind_ok ok
  obtain ⟨supersedes,_,ok⟩ := bind_ok ok
  split at ok
  next => cases ok
  next =>
    split at ok
    next => cases ok
    next =>
      split at ok
      next => cases ok
      next nextUp =>
        obtain ⟨tables,installed,ok⟩ := bind_ok ok
        split at ok
        next => cases ok
        next =>
          cases ok
          have all := writeParts_passes fresh (by simpa using nextUp) installed
          cases joinHead with
          | none => exact all
          | some head => simpa using all.trans (join_still head)

end Transactions

/-- No append and no entry carries this id. -/
def Unsent (network : Network ν) (id : String) : Prop :=
  (∀ q ∈ network.flights, q.entry.id ≠ id) ∧ ∀ e ∈ network.log, e.id ≠ id

/-- The request is the only one on its way under its id. -/
def Sole (network : Network ν) (request : Append ν) : Prop :=
  ∀ q ∈ network.flights, q.entry.id = request.entry.id → q = request

/-- The store of a machine against the log, the appends on their way and the
reports. -/
structure StoreSound (registry : Registry ν σ ω) (start : σ) (network : Network ν) (m : ν)
    (store : Store ν σ ω) : Prop where
  bound : store.lastAppliedPosition ≤ network.log.length
  applied : store.applied = (numbered network.log).take store.lastAppliedPosition
  effects : store.tables = store.journal.foldl registry.effect start
  pending : ∀ id head, store.pendingEntry.get? id = some head → head = store.lastAppliedPosition
  kept : ∀ q ∈ network.flights, q.entry.body.author = m → store.lastAppliedPosition ≤ q.expectedHead →
    store.pendingEntry.get? q.entry.id = some q.expectedHead
  owned : ∀ row ∈ store.journal, ∀ op x, row.change = .here op → row.logged = some x →
    ⟨m,x.1.id,.done x.2⟩ ∈ network.reports
  done : ∀ rep ∈ network.reports, rep.machine = m → ∀ position, rep.result = .done position →
    ∃ row ∈ store.journal, ∃ op entry, row.change = .here op ∧ row.logged = some (entry,position) ∧
      entry.id = rep.entryId

/-- The attempt expects the applied position, and its pending row says so. -/
def Held (store : Store ν σ ω) (attempt : Attempt ω) : Prop :=
  attempt.head = store.lastAppliedPosition ∧
    store.pendingEntry.get? attempt.id = some store.lastAppliedPosition

/-- What a run knows of the log: the parts it buffers and its page are the next
stretches of it. -/
structure RunSound (network : Network ν) (store : Store ν σ ω) (run : CatchUp ν) : Prop where
  after : run.after = store.lastAppliedPosition + run.parts.length
  parts : run.parts <+: network.log.drop store.lastAppliedPosition
  page : ∀ page, run.page = some page → page.entries <+: (numbered network.log).drop run.after

def Decision.Sound (network : Network ν) (m : ν) (attempt : Attempt ω) (data : List UInt8) :
    Decision → Prop
  | .commit position =>
    position = attempt.head + 1 ∧ network.log[attempt.head]? = some (attempt.entry m data)
  | .rollback sent _ => sent = false → Unsent network attempt.id

/-- A parked write and the append it makes. -/
def Parked (registry : Registry ν σ ω) (network : Network ν) (m : ν) (store : Store ν σ ω)
    (attempt : Attempt ω) (data : List UInt8) (tables : σ) : Prop :=
  Held store attempt ∧ registry.operate attempt.op store.tables = .shared tables data ∧
    Sole network (attempt.request m data)

def TaskSound (registry : Registry ν σ ω) (network : Network ν) (m : ν) (store : Store ν σ ω) :
    Task ν σ ω → Prop
  | .idle => True
  | .ready _ _ => True
  | .catchUp run _ => RunSound network store run
  | .prepared attempt => Held store attempt ∧ Unsent network attempt.id
  | .parked attempt data tables sent _ =>
    Parked registry network m store attempt data tables ∧
      (if sent then attempt.request m data ∈ network.flights else Unsent network attempt.id)
  | .decided attempt data tables decision =>
    Parked registry network m store attempt data tables ∧ decision.Sound network m attempt data

section Store

variable {registry : Registry ν σ ω} {start : σ} {network : Network ν} {m : ν}
variable {store store' : Store ν σ ω}

/-- An entry behind the applied position was never written here. -/
theorem StoreSound.fresh (holds : StoreSound registry start network m store)
    (distinct : Distinct network.log) {i : Nat} {entry : LogEntry ν}
    (found : network.log[i]? = some entry) (behind : store.lastAppliedPosition ≤ i) :
    store.hasOwn entry.id = false := by
  rw [Store.hasOwn,List.any_eq_false]
  intro row member own
  simp only [JournalRow.own,Bool.and_eq_true,Option.any_eq_true,beq_iff_eq] at own
  obtain ⟨_,⟨other,position⟩,logged,same⟩ := own
  have inside : (other,position) ∈ store.applied := List.mem_filterMap.mpr ⟨row,member,logged⟩
  rw [holds.applied] at inside
  obtain ⟨j,bound,value⟩ := List.mem_take_iff_getElem.mp inside
  have at_j : (numbered network.log)[j]? = some (other,position) := by
    rw [List.getElem?_eq_some_iff]; exact ⟨by omega,value⟩
  have := distinct.eq (numbered_get.mp at_j).1 found same
  omega

theorem StoreSound.passes (holds : StoreSound registry start network m store)
    {entries : List (LogEntry ν × Nat)} (passes : Passes registry store store' entries)
    (stretch : entries <+: (numbered network.log).drop store.lastAppliedPosition) :
    StoreSound registry start network m store' := by
  obtain ⟨rows,journal,logged,foreign,tables⟩ := passes.rows
  have taken := List.prefix_iff_eq_take.mp stretch
  have length : entries.length ≤ network.log.length - store.lastAppliedPosition := by
    have := stretch.length_le
    simpa [numbered] using this
  refine ⟨?_,?_,?_,?_,?_,?_,?_⟩
  · rw [passes.position]; have := holds.bound; omega
  · rw [passes.position,List.take_add,← holds.applied,← taken]
    simp [Store.applied,journal,logged]
  · rw [tables,journal,List.foldl_append,← holds.effects]
  · intro id head found
    obtain ⟨before,reached⟩ := (passes.pending id head).mp found
    have := holds.pending id head before
    rcases reached with none | reached
    · rw [passes.position,none]; simpa using this
    · rw [passes.position] at reached ⊢; omega
  · intro q member own behind
    rw [passes.pending]
    refine ⟨holds.kept q member own ?_,.inr behind⟩
    rw [passes.position] at behind; omega
  · intro row member op x here known
    rw [journal] at member
    rcases List.mem_append.mp member with before | new
    · exact holds.owned row before op x here known
    · exact absurd here (foreign row new op)
  · intro rep member own position result
    obtain ⟨row,inside,rest⟩ := holds.done rep member own position result
    exact ⟨row,by rw [journal]; exact List.mem_append_left _ inside,rest⟩

theorem StoreSound.still (holds : StoreSound registry start network m store)
    (journal : store'.journal = store.journal) (tables : store'.tables = store.tables)
    (position : store'.lastAppliedPosition = store.lastAppliedPosition)
    (pending : store'.pendingEntry = store.pendingEntry) :
    StoreSound registry start network m store' :=
  holds.passes (.still journal tables position pending) List.nil_prefix

/-- An entry after a stretch the store is sound for. -/
theorem StoreSound.fresh_of_stretch (holds : StoreSound registry start network m store)
    (distinct : Distinct network.log) {part : List (LogEntry ν)}
    (stretch : part <+: network.log.drop store.lastAppliedPosition) :
    ∀ e ∈ part, store.hasOwn e.id = false := by
  intro e member
  obtain ⟨i,bound,value⟩ := List.mem_iff_getElem.mp member
  have found : (network.log.drop store.lastAppliedPosition)[i]? = some e := by
    obtain ⟨others,whole⟩ := stretch
    rw [← whole,List.getElem?_append_left bound,List.getElem?_eq_some_iff]
    exact ⟨bound,value⟩
  rw [List.getElem?_drop] at found
  exact holds.fresh distinct found (Nat.le_add_right _ _)

end Store

section Runs

variable {registry : Registry ν σ ω} {start : σ} {network : Network ν} {m : ν}
variable {machine machine' : Machine ν σ ω} {run : CatchUp ν} {write : Option (ω × Nat)}

def MachineSound (registry : Registry ν σ ω) (start : σ) (network : Network ν) (m : ν)
    (machine : Machine ν σ ω) : Prop :=
  StoreSound registry start network m machine.store ∧
    TaskSound registry network m machine.store machine.task

/-- A step of a catch-up run: it passes the next stretch of the log, if anything. -/
structure Advances (registry : Registry ν σ ω) (network : Network ν) (m : ν)
    (machine machine' : Machine ν σ ω) : Prop where
  passes : ∃ entries, Passes registry machine.store machine'.store entries ∧
    entries <+: (numbered network.log).drop machine.store.lastAppliedPosition
  task : TaskSound registry network m machine'.store machine'.task
  attempt : machine'.task.attempt = none

theorem Advances.sound (advances : Advances registry network m machine machine')
    (holds : StoreSound registry start network m machine.store) :
    MachineSound registry start network m machine' := by
  obtain ⟨entries,passes,stretch⟩ := advances.passes
  exact ⟨holds.passes passes stretch,advances.task⟩

theorem Advances.forward (advances : Advances registry network m machine machine') :
    machine.store.lastAppliedPosition ≤ machine'.store.lastAppliedPosition := by
  obtain ⟨entries,passes,_⟩ := advances.passes
  rw [passes.position]
  exact Nat.le_add_right _ _

/-- The run ends with the store as it was. -/
theorem Advances.ends (store : machine'.store = machine.store) (task : machine'.task = .idle) :
    Advances registry network m machine machine' := by
  have nothing : Passes registry machine.store machine'.store [] := by
    rw [store]; exact .still rfl rfl rfl rfl
  refine ⟨⟨[],nothing,List.nil_prefix⟩,?_,?_⟩
  · rw [task]; trivial
  · rw [task]; rfl

theorem startRun_advances : Advances registry network m machine (machine.startRun write) := by
  unfold Machine.startRun
  split
  · exact .ends rfl rfl
  · have fresh : RunSound network machine.store ⟨machine.store.lastAppliedPosition,[],none,none,false⟩ :=
      ⟨rfl,List.nil_prefix,by simp⟩
    exact ⟨⟨[],.still rfl rfl rfl rfl,List.nil_prefix⟩,fresh,rfl⟩

theorem readPage_advances (read : RunSound network machine.store run) (head count : Nat) :
    Advances registry network m machine (machine.readPage run write network.log head count) := by
  unfold Machine.readPage
  split
  · exact .ends rfl rfl
  · refine ⟨⟨[],.still rfl rfl rfl rfl,List.nil_prefix⟩,⟨read.after,read.parts,?_⟩,rfl⟩
    rintro page ⟨⟩
    rw [List.drop_take,List.take_take]
    apply List.take_prefix

theorem takePart_advances [DecidableEq ν] (holds : StoreSound registry start network m machine.store)
    (distinct : Distinct network.log) (read : RunSound network machine.store run) {page : Page ν}
    {entry : LogEntry ν} {position : Nat} (found : network.log[run.after]? = some entry)
    (nextUp : position = run.after + 1)
    (rest : page.entries.tail <+: (numbered network.log).drop position) :
    Advances registry network m machine
      (machine.takePart registry run page write network.log entry position) := by
  have after := read.after
  have stretch : run.parts ++ [entry] <+: network.log.drop machine.store.lastAppliedPosition := by
    apply prefix_snoc read.parts
    rw [List.getElem?_drop,← after,found]
  have first : position - run.parts.length = machine.store.lastAppliedPosition + 1 := by omega
  unfold Machine.takePart
  split
  next => exact .ends rfl rfl
  next info decoded =>
    simp only
    split
    next => exact .ends rfl rfl
    next =>
      split
      next =>
        -- the part is buffered and nothing is passed yet
        refine ⟨⟨[],.still rfl rfl rfl rfl,List.nil_prefix⟩,⟨?_,stretch,?_⟩,rfl⟩
        · simp only [Machine.proceed,List.length_append,List.length_singleton]
          omega
        · rintro _ ⟨⟩; exact rest
      next =>
        split
        next => exact .ends rfl rfl
        next store installed =>
          rw [first] at installed
          have fresh := holds.fresh_of_stretch distinct stretch
          have passes : Passes registry machine.store store
              ((run.parts ++ [entry]).zipIdx (machine.store.lastAppliedPosition + 1)) := by
            obtain ⟨through,_,installed⟩ := bind_ok installed
            split at installed
            next => exact installSnapshot_ok fresh installed
            next =>
              split at installed
              next => cases installed
              next => exact installSnapshot_ok fresh installed
          have length := passes.position
          simp only [List.length_zipIdx,List.length_append,List.length_singleton] at length
          refine ⟨⟨_,passes,numbered_stretch stretch⟩,⟨?_,List.nil_prefix,?_⟩,rfl⟩
          · simp only [Machine.proceed,List.length_nil]
            omega
          · rintro _ ⟨⟩; exact rest

theorem takeEntry_advances [DecidableEq ν] (holds : StoreSound registry start network m machine.store)
    (distinct : Distinct network.log) (read : RunSound network machine.store run) {page : Page ν}
    (shown : run.page = some page) {entry : LogEntry ν} {position : Nat}
    (head : page.entries.head? = some (entry,position)) :
    Advances registry network m machine
      (machine.takeEntry registry run page write network.log entry position) := by
  have stretch := read.page page shown
  have whole : page.entries = (entry,position) :: page.entries.tail := (List.cons_head?_tail head).symm
  rw [whole] at stretch
  obtain ⟨found,rest⟩ := stretch_head stretch
  obtain ⟨found,nextUp⟩ := numbered_get.mp found
  rw [← nextUp] at rest
  unfold Machine.takeEntry
  split
  next => exact .ends rfl rfl
  next =>
    split
    next => exact takePart_advances holds distinct read found nextUp rest
    next single =>
      have unbuffered : run.parts = [] := by
        by_contra buffered
        exact single (.inr buffered)
      have after : run.after = machine.store.lastAppliedPosition := by
        simpa [unbuffered] using read.after
      split
      next => exact .ends rfl rfl
      next =>
        split
        next => exact .ends rfl rfl
        next store applied =>
          rw [after] at found
          have passes := applyRemoteEntry_ok (holds.fresh distinct found (le_refl _)) applied
          have length := passes.position
          have here : [(entry,position)] <+: (numbered network.log).drop
              machine.store.lastAppliedPosition := by
            have := (List.prefix_append [(entry,position)] page.entries.tail).trans stretch
            rwa [after] at this
          refine ⟨⟨_,passes,here⟩,⟨?_,?_,?_⟩,rfl⟩
          · simp only [Machine.proceed,unbuffered,List.length_nil,List.length_singleton] at length ⊢
            omega
          · simp [unbuffered]
          · rintro _ ⟨⟩; exact rest

theorem endPage_advances (read : RunSound network machine.store run) {page : Page ν} :
    Advances registry network m machine (machine.endPage run page write) := by
  unfold Machine.endPage
  split
  · split
    · exact .ends rfl rfl
    · have joined : Passes registry machine.store (machine.store.finishJoin page.head) [] :=
        .still (by simp) (by simp) (by simp) (by simp)
      refine ⟨⟨[],joined,List.nil_prefix⟩,?_,?_⟩ <;> cases write <;> trivial
  · split
    · exact .ends rfl rfl
    · exact ⟨⟨[],.still rfl rfl rfl rfl,List.nil_prefix⟩,⟨read.after,read.parts,by simp⟩,rfl⟩

end Runs

end Entorhinal.IdentityLog
