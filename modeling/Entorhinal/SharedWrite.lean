import Entorhinal.IdentityLog
import Entorhinal.Transition
import Mathlib.Logic.Function.Basic

/-! Shared writes and catch-up of any number of machines against one identity
log. A machine's writer lock lets in one task at a time; appends travel on their
own, so each may reach the log late, more than once or never, and every answer
may be lost. -/
namespace Entorhinal.IdentityLog
open Transition

/-- A page of a catch-up read: the head it reported, where it starts, and the
entries not yet handled. -/
structure Page (ν : Type) where
  head : Nat
  start : Nat
  entries : List (LogEntry ν × Nat)
deriving DecidableEq

structure CatchUp (ν : Type) where
  after : Nat
  parts : List (LogEntry ν)
  snapshot : Option (String × Nat)
  page : Option (Page ν)
  joining : Bool
deriving DecidableEq

structure Attempt (ω : Type) where
  op : ω
  retry : Nat
  id : String
  head : Nat
deriving DecidableEq

/-- `SharedSettlement`. -/
inductive Decision
  | commit (position : Nat)
  | rollback (sent : Bool) (code : String)
deriving DecidableEq, Repr

/-- What holds the writer lock. While a write is parked its SQLite transaction
stays open with the rows it wrote. -/
inductive Task (ν σ ω : Type)
  | idle
  | catchUp (run : CatchUp ν) (write : Option (ω × Nat))
  | ready (op : ω) (retry : Nat)
  | prepared (attempt : Attempt ω)
  | parked (attempt : Attempt ω) (data : List UInt8) (tables : σ) (sent awaiting : Bool)
  | decided (attempt : Attempt ω) (data : List UInt8) (tables : σ) (decision : Decision)

def Task.attempt {ν σ ω : Type} : Task ν σ ω → Option (Attempt ω)
  | .prepared attempt => some attempt
  | .parked attempt _ _ _ _ => some attempt
  | .decided attempt _ _ _ => some attempt
  | _ => none

structure Machine (ν σ ω : Type) where
  store : Store ν σ ω
  task : Task ν σ ω
  stalled : Bool

inductive Result
  | done (position : Nat)
  | unlogged
  | failed (code : String)
deriving DecidableEq, Repr

/-- How an attempt ended, by the id of its entry. -/
structure Report (ν : Type) where
  machine : ν
  entryId : String
  result : Result
deriving DecidableEq, Repr

abbrev Append (ν : Type) := AppendLog.Request String (Body ν)

/-- The log, the appends that may still reach it, its answers, the entry ids
drawn so far and how attempts ended. -/
structure Network (ν : Type) where
  log : List (LogEntry ν)
  flights : List (Append ν)
  replies : List (Append ν × AppendLog.Reply)
  drawn : List String
  reports : List (Report ν)

structure World (ν σ ω : Type) where
  network : Network ν
  machines : ν → Machine ν σ ω

inductive Label (ν ω : Type)
  | start (m : ν) (write : Option ω)
  | page (m : ν) (head count : Nat)
  | entry (m : ν)
  | pageEnd (m : ν)
  | abandon (m : ν)
  | prepare (m : ν) (entryId : String)
  | operate (m : ν)
  | send (m : ν)
  | deliver (i : Nat)
  | receive (m : ν) (reply : AppendLog.Reply)
  | noAnswer (m : ν)
  | expire (m : ν)
  | cancel (m : ν)
  | finish (m : ν) (stored : Bool)
  | crash (m : ν)
  | writeLocal (m : ν) (op : ω)
  | bootstrap (entry : LogEntry ν)

def retries : Nat := 5

def pageLimit : Nat := 128

section Machine

variable {ν σ ω : Type}

/-- The entry an attempt appends, with the bytes its transaction captured. -/
def Attempt.entry (attempt : Attempt ω) (author : ν) (data : List UInt8) : LogEntry ν :=
  ⟨attempt.id,author,envelopeVersion,.change,data⟩

def Attempt.request (attempt : Attempt ω) (author : ν) (data : List UInt8) : Append ν :=
  ⟨attempt.head,attempt.entry author data⟩

namespace Machine

def stall (machine : Machine ν σ ω) : Machine ν σ ω := { machine with task := .idle, stalled := true }

/-- A catch-up run starts, for a write or on its own; a stalled enabled store
starts none. -/
def startRun (machine : Machine ν σ ω) (write : Option (ω × Nat)) : Machine ν σ ω :=
  if machine.stalled ∧ machine.store.state = .enabled then { machine with task := .idle }
  else
    let run : CatchUp ν := ⟨machine.store.lastAppliedPosition,[],none,none,false⟩
    { machine with task := .catchUp run write }

/-- A read's reply: the entries after the position asked for. -/
def readPage (machine : Machine ν σ ω) (run : CatchUp ν) (write : Option (ω × Nat))
    (log : List (LogEntry ν)) (head count : Nat) : Machine ν σ ω :=
  if head < run.after then { machine with task := .idle }
  else
    let joining := machine.store.state == .disabled
    let entries := (((log.zipIdx 1).take head).drop run.after).take count
    let seen := if joining then machine.store.lastSeenHead else max machine.store.lastSeenHead head
    { machine with
      store := { machine.store with lastSeenHead := seen }
      task := .catchUp { run with page := some ⟨head,run.after,entries⟩, joining := joining } write }

/-- The run goes on behind this entry. -/
def proceed (machine : Machine ν σ ω) (run : CatchUp ν) (page : Page ν) (position : Nat)
    (write : Option (ω × Nat)) : Machine ν σ ω :=
  let rest := { page with entries := page.entries.tail }
  { machine with task := .catchUp { run with after := position, page := some rest } write }

/-- One part of a snapshot: it is buffered, and the last one installs them all. -/
def takePart [DecidableEq ν] (registry : Registry ν σ ω) (machine : Machine ν σ ω) (run : CatchUp ν)
    (page : Page ν) (write : Option (ω × Nat)) (log : List (LogEntry ν)) (entry : LogEntry ν)
    (position : Nat) : Machine ν σ ω :=
  match snapshotPart registry entry with
  | .error _ => machine.stall
  | .ok info =>
    let expected := run.snapshot.getD (info.snapshotId,info.parts)
    if info.snapshotId ≠ expected.1 ∨ info.parts ≠ expected.2 ∨ info.part ≠ run.parts.length + 1 then
      machine.stall
    else
      let parts := run.parts ++ [entry]
      if info.part ≠ info.parts then
        machine.proceed { run with parts := parts, snapshot := some expected } page position write
      else
        let first := position - run.parts.length
        let joinHead := if run.joining then some page.head else none
        let installed := do
          match ← snapshotSupersedesThrough registry first parts with
          | none => installSnapshot registry machine.store parts first joinHead
          | some through =>
            if (parts ++ log.take through).any fun e => e.body.author ≠ entry.body.author then
              .error "supersede invariant: different author"
            else installSnapshot registry machine.store parts first joinHead
        match installed with
        | .error _ => machine.stall
        | .ok store =>
          { machine with store := store }.proceed
            { run with parts := [], snapshot := none, joining := false } page position write

/-- The next entry of the page. -/
def takeEntry [DecidableEq ν] (registry : Registry ν σ ω) (machine : Machine ν σ ω) (run : CatchUp ν)
    (page : Page ν) (write : Option (ω × Nat)) (log : List (LogEntry ν)) (entry : LogEntry ν)
    (position : Nat) : Machine ν σ ω :=
  if position ≠ run.after + 1 ∨ page.head < position then machine.stall
  else if entry.body.kind = .snapshot ∨ run.parts ≠ [] then
    machine.takePart registry run page write log entry position
  else if run.joining then machine.stall
  else match applyRemoteEntry registry machine.store entry position with
    | .error _ => machine.stall
    | .ok store => { machine with store := store }.proceed run page position write

/-- All entries of a page are handled. -/
def endPage (machine : Machine ν σ ω) (run : CatchUp ν) (page : Page ν)
    (write : Option (ω × Nat)) : Machine ν σ ω :=
  if run.after = page.head then
    if run.parts ≠ [] then { machine with task := .idle }
    else
      let task := match write with
        | some (op,retry) => .ready op retry
        | none => .idle
      { store := machine.store.finishJoin page.head, task := task, stalled := false }
  else if run.after = page.start then machine.stall
  else { machine with task := .catchUp { run with page := none } write }

/-- The pending row commits on its own, before the write runs. -/
def prepare (machine : Machine ν σ ω) (op : ω) (retry : Nat) (entryId : String) : Machine ν σ ω :=
  let head := machine.store.lastAppliedPosition
  { machine with
    store := { machine.store with pendingEntry := machine.store.pendingEntry.insert entryId head }
    task := .prepared ⟨op,retry,entryId,head⟩ }

def forget (machine : Machine ν σ ω) (entryId : String) : Machine ν σ ω :=
  { machine with
    store := { machine.store with pendingEntry := machine.store.pendingEntry.erase entryId }
    task := .idle }

/-- The write runs in its transaction: it ends there, or parks with its entry. -/
def operate (registry : Registry ν σ ω) (machine : Machine ν σ ω) (attempt : Attempt ω) :
    Machine ν σ ω × Option Result :=
  match registry.operate attempt.op machine.store.tables with
  | .refused code => (machine.forget attempt.id,some (.failed code))
  | .answered => ({ machine with task := .idle },some .unlogged)
  | .cached => (machine.forget attempt.id,some .unlogged)
  | .kept tables =>
    let store := { machine.store with
      journal := machine.store.journal ++ [⟨.here attempt.op,none⟩]
      tables := tables }
    ({ machine with store := store }.forget attempt.id,some .unlogged)
  | .shared tables data =>
    if entryCap < data.length then
      (machine.forget attempt.id,some (.failed "shared_entry_too_large"))
    else ({ machine with task := .parked attempt data tables false false },none)

/-- What `settle` makes of an answer to the append. -/
def settle (attempt : Attempt ω) : AppendLog.Reply → Decision
  | .receipt position =>
    if position = attempt.head + 1 then .commit position else .rollback true "identity_log_invariant"
  | .headMoved => .rollback true "head_moved"
  | .idReused => .rollback true "identity_log_invariant"

/-- The end of a parked transaction; `stored` says whether SQLite commits it. -/
def finish (machine : Machine ν σ ω) (author : ν) (attempt : Attempt ω) (data : List UInt8)
    (tables : σ) (stored : Bool) : Decision → Machine ν σ ω × Result
  | .commit position =>
    if stored then
      ({ machine with
        store := machine.store.commitOwn attempt.op tables (attempt.entry author data) position
        task := .idle },.done position)
    else ({ machine with task := .idle },.failed "storage_error")
  | .rollback sent code =>
    let settled := if sent then { machine with task := .idle } else machine.forget attempt.id
    if code = "head_moved" then
      if attempt.retry = retries then (settled,.failed "identity_log_contended")
      else (settled.startRun (some (attempt.op,attempt.retry + 1)),.failed code)
    else (settled,.failed code)

/-- A write of a method that never shares, or of a store without the log. It
waits while a parked transaction holds the connection. -/
def writeLocal (registry : Registry ν σ ω) (machine : Machine ν σ ω) (op : ω) :
    Option (Machine ν σ ω) :=
  let commit := fun tables => { machine with store := { machine.store with
    journal := machine.store.journal ++ [⟨.here op,none⟩]
    tables := tables } }
  match machine.task,registry.operate op machine.store.tables with
  | .parked _ _ _ _ _,_ => none
  | .decided _ _ _ _,_ => none
  | _,.kept tables => some (commit tables)
  | _,.shared tables _ => if machine.store.state = .disabled then some (commit tables) else none
  | _,_ => none

end Machine

variable [DecidableEq ν]

def Network.report (network : Network ν) (m : ν) (entryId : String) : Option Result → Network ν
  | none => network
  | some result => { network with reports := ⟨m,entryId,result⟩ :: network.reports }

/-- One step of a machine's task; the network it leaves, and the machine. -/
def Machine.act (registry : Registry ν σ ω) (network : Network ν) (m : ν) (machine : Machine ν σ ω)
    (label : Label ν ω) : Option (Network ν × Machine ν σ ω) :=
  match label,machine.task with
  | .start _ none,.idle =>
    if machine.store.state = .enabling then none else some (network,machine.startRun none)
  | .start _ (some op),.idle =>
    if machine.store.state ≠ .enabled then none else some (network,machine.startRun (some (op,0)))
  | .page _ head count,.catchUp run write =>
    if run.page = none ∧ head ≤ network.log.length ∧ count ≤ pageLimit then
      some (network,machine.readPage run write network.log head count)
    else none
  | .entry _,.catchUp run write => run.page.bind fun page => page.entries.head?.map fun x =>
    (network,machine.takeEntry registry run page write network.log x.1 x.2)
  | .pageEnd _,.catchUp run write => run.page.bind fun page =>
    if page.entries = [] then some (network,machine.endPage run page write) else none
  | .abandon _,.catchUp _ _ => some (network,{ machine with task := .idle })
  | .abandon _,.ready _ _ => some (network,{ machine with task := .idle })
  | .prepare _ entryId,.ready op retry =>
    if entryId ∈ network.drawn then none
    else some ({ network with drawn := entryId :: network.drawn },machine.prepare op retry entryId)
  | .operate _,.prepared attempt =>
    let ended := machine.operate registry attempt
    some (network.report m attempt.id ended.2,ended.1)
  | .send _,.parked attempt data tables _ false =>
    some ({ network with flights := attempt.request m data :: network.flights },
      { machine with task := .parked attempt data tables true true })
  | .receive _ reply,.parked attempt data tables _ true =>
    if (attempt.request m data,reply) ∈ network.replies then
      let decision := Machine.settle attempt reply
      some (network,{ machine with task := .decided attempt data tables decision })
    else none
  | .noAnswer _,.parked attempt data tables sent true =>
    some (network,{ machine with task := .parked attempt data tables sent false })
  | .expire _,.parked attempt data tables sent false =>
    let code := if sent then "engram_outcome_unknown" else "engram_unavailable"
    some (network,{ machine with task := .decided attempt data tables (.rollback sent code) })
  | .cancel _,.parked attempt data tables _ _ =>
    let decision := Decision.rollback true "engram_outcome_unknown"
    some (network,{ machine with task := .decided attempt data tables decision })
  | .finish _ stored,.decided attempt data tables decision =>
    let ended := machine.finish m attempt data tables stored decision
    some (network.report m attempt.id (some ended.2),ended.1)
  | .crash _,_ => some (network,{ machine with task := .idle, stalled := false })
  | .writeLocal _ op,_ => (machine.writeLocal registry op).map (network,·)
  | _,_ => none

def Label.machine : Label ν ω → Option ν
  | .start m _ | .page m _ _ | .entry m | .pageEnd m | .abandon m | .prepare m _ | .operate m
  | .send m | .receive m _ | .noAnswer m | .expire m | .cancel m | .finish m _ | .crash m
  | .writeLocal m _ => some m
  | .deliver _ | .bootstrap _ => none

/-- What happens to the network by itself: an append reaches the log, or another
member appends a snapshot part of its own. -/
def Network.act (network : Network ν) : Label ν ω → Option (Network ν)
  | .deliver i => network.flights[i]?.map fun request =>
    let answered := AppendLog.append network.log request
    { network with log := answered.1, replies := (request,answered.2) :: network.replies }
  | .bootstrap entry =>
    if entry.id ∈ network.drawn then none
    else some { network with log := network.log ++ [entry], drawn := entry.id :: network.drawn }
  | _ => none

def next (registry : Registry ν σ ω) (w : World ν σ ω) (label : Label ν ω) : Option (World ν σ ω) :=
  match label.machine with
  | some m => ((w.machines m).act registry w.network m label).map fun acted =>
    { network := acted.1, machines := Function.update w.machines m acted.2 }
  | none => (w.network.act label).map fun network => { w with network := network }

end Machine
end Entorhinal.IdentityLog
