import Mathlib.Data.List.Pairwise
import Entorhinal.Traverse
import Entorhinal.RegistryEntry
import Entorhinal.RegistryOps
import Entorhinal.Transition

/-! The request-key cache of the registry's mutations. A mutation that changes
something stores its key and its reply in the journal row it appends; what it does
to the derived tables is given by its closure. -/
namespace Entorhinal.RequestKeys
open Registry (RegistryError)

variable {σ ν : Type}

structure JournalRow where
  op : String
  payload : String
  requestKey : Option String
  response : Option String
  /-- The row has a shared entry. -/
  entry : Bool
  entryId : Option String
  logPosition : Option Nat
deriving DecidableEq, Repr

/-- A row of an operation and its payload, as `append` writes it. -/
def JournalRow.of (op payload : String) (requestKey : Option String) : JournalRow :=
  ⟨op,payload,requestKey,none,false,none,none⟩

/-- `request_key TEXT UNIQUE NULL`. -/
def UniqueKeys (rows : List JournalRow) : Prop :=
  rows.Pairwise fun a b => a.requestKey.isSome = true → a.requestKey ≠ b.requestKey

instance (rows : List JournalRow) : Decidable (UniqueKeys rows) :=
  inferInstanceAs (Decidable (rows.Pairwise _))

/-- The journal in `seq` order; rows are never deleted, so a row's `seq` is its place. -/
structure Journal where
  rows : List JournalRow
  unique : UniqueKeys rows

namespace Journal

/-- The generation: the highest `seq`, or 0 when empty. -/
def head (journal : Journal) : Nat := journal.rows.length

/-- `INSERT` of the rows; the unique column refuses them as a whole. -/
def add (journal : Journal) (rows : List JournalRow) : Option Journal :=
  if unique : UniqueKeys (journal.rows ++ rows) then some ⟨journal.rows ++ rows,unique⟩ else none

/-- The stored reply of an operation and key. -/
def cached (journal : Journal) (op : String) (key : Option String) : Option String :=
  key.bind fun key =>
    (journal.rows.find? fun row => row.requestKey == some key && row.op == op).bind (·.response)

/-- The operation a key is bound to. -/
def boundTo (journal : Journal) (key : Option String) : Option String :=
  key.bind fun key => (journal.rows.find? fun row => row.requestKey == some key).map (·.op)

end Journal

/-- A reply before it is encoded. -/
structure Reply (ν : Type) where
  value : ν
  generation : Option Nat
  noop : Option Bool
deriving DecidableEq, Repr

def setUser : String := "user.set"

def agentOp (op : String) : Bool := "agent.".toList.isPrefixOf op.toList

/-- Agent replies have no `noop`, and the user profile's have no generation either. -/
def replyOf (op : String) (value : ν) (generation : Nat) (changed : Bool) : Reply ν where
  value := value
  generation := if op = setUser then none else some generation
  noop := if op = setUser ∨ agentOp op then none else some !changed

/-- What a closure answers: the tables it leaves, and where it changed something
the payload of the row it appends under the mutation's operation and key, with the
rows without a key that it appends before and after. -/
structure Action (σ ν : Type) where
  changed : Bool
  tables : σ
  value : ν
  payload : String
  entry : Bool
  before : List (String × String)
  after : List (String × String)

inductive Settlement
  | commit (position : Nat)
  | rollback (sent : Bool) (refusal : RegistryError)
deriving DecidableEq, Repr

/-- A try to append the shared entry at a log head, and how it ends. -/
structure Attempt where
  id : String
  head : Nat
  settlement : Settlement
deriving DecidableEq, Repr

structure Db (σ ν : Type) where
  journal : Journal
  tables : σ
  logEnabled : Bool
  pending : List (String × Nat)
  lastApplied : Nat
  lastSeen : Nat

/-- A failed transaction; `sent` says whether its entry may have reached the log. -/
structure Failure where
  sent : Bool
  refusal : RegistryError
deriving DecidableEq, Repr

def refused (code message : String) : Failure := ⟨false,⟨code,message⟩⟩

def crossOp (other : String) : RegistryError :=
  ⟨"request_key_reused_across_ops","request_key is already bound to op '" ++ other ++ "'"⟩

def storage : RegistryError := ⟨"storage_error","constraint failed"⟩

def Db.settled (db : Db σ ν) (id : String) : Db σ ν :=
  { db with pending := db.pending.filter (·.1 ≠ id) }

/-- `pending::finish`, after the row is written: asks for the log's answer where the
row has a shared entry. -/
def finish (db : Db σ ν) (attempt : Option Attempt) (entry : Bool) : Except Failure (Db σ ν) :=
  match attempt with
  | none => .ok db
  | some attempt =>
    if entry then match attempt.settlement with
      | .commit position => .ok <| Db.settled { db with
          lastApplied := position
          lastSeen := max db.lastSeen position
          pending := db.pending.filter fun other => position ≤ other.2 } attempt.id
      | .rollback sent refusal => .error ⟨sent,refusal⟩
    else .ok (db.settled attempt.id)

/-- The row's log columns once its entry is committed. -/
def logged (row : JournalRow) : Option Attempt → JournalRow
  | some ⟨id,_,.commit position⟩ =>
    if row.entry then { row with entryId := some id, logPosition := some position } else row
  | _ => row

def keyless (rows : List (String × String)) : List JournalRow :=
  rows.map fun row => .of row.1 row.2 none

/-- The generation of a reply that changed something: the row's `seq`, or the
journal's head once the log is enabled. -/
def generationOf (db : Db σ ν) (act : Action σ ν) : Nat :=
  db.journal.head + act.before.length + 1 + if db.logEnabled then act.after.length else 0

def changedReply (wire : Reply ν → String) (db : Db σ ν) (op : String) (act : Action σ ν) : String :=
  wire (replyOf op act.value (generationOf db act) true)

/-- The row a closure appends, with its reply. -/
def ownRow (wire : Reply ν → String) (db : Db σ ν) (op : String) (key : Option String)
    (act : Action σ ν) : JournalRow :=
  ⟨op,act.payload,key,some (changedReply wire db op act),act.entry,none,none⟩

/-- The rest of `mutation_with_error` once its key is found free: the closure's
rows, the reply, and the log's answer. -/
def commit (wire : Reply ν → String) (db : Db σ ν) (op : String) (key : Option String)
    (act : Action σ ν) (attempt : Option Attempt) : Except Failure (Db σ ν × String) :=
  if act.changed then
    match db.journal.add
        (keyless act.before ++ logged (ownRow wire db op key act) attempt :: keyless act.after) with
    | none => .error ⟨false,storage⟩
    | some journal =>
      (finish { db with journal, tables := act.tables } attempt act.entry).map
        (·,changedReply wire db op act)
  else
    (finish { db with tables := act.tables } attempt false).map
      (·,wire (replyOf op act.value db.journal.head false))

def mutation (wire : Reply ν → String) (db : Db σ ν) (op : String) (key : Option String)
    (action : σ → Except RegistryError (Action σ ν)) (attempt : Option Attempt) :
    Except Failure (Db σ ν × String) :=
  match db.journal.cached op key with
  | some reply => (finish db attempt false).map (·,reply)
  | none =>
    match (db.journal.boundTo key).filter (· ≠ op) with
    | some other => .error ⟨false,crossOp other⟩
    | none =>
      match action db.tables with
      | .error refusal => .error ⟨false,refusal⟩
      | .ok act => commit wire db op key act attempt

/-- The lookup that precedes the writer's lock. -/
def sharedRequestCache (db : Db σ ν) (op : String) (key : Option String) :
    Except RegistryError (Option String) :=
  match db.journal.cached op key with
  | some reply => .ok (some reply)
  | none =>
    match (db.journal.boundTo key).filter (· ≠ op) with
    | some other => .error (crossOp other)
    | none => .ok none

/-- `shared_attempt` around an operation: the entry is recorded in a transaction of
its own, and forgotten when the operation failed with nothing sent. -/
def sharedAttempt (db : Db σ ν) (attempt : Option Attempt)
    (operation : Db σ ν → Except Failure (Db σ ν × String)) : Db σ ν × Except RegistryError String :=
  match attempt with
  | none =>
    match operation db with
    | .ok (db',reply) => (db',.ok reply)
    | .error failure => (db,.error failure.refusal)
  | some attempt =>
    if db.pending.any (·.1 == attempt.id) then (db,.error storage)
    else
      let recorded := { db with pending := db.pending ++ [(attempt.id,attempt.head)] }
      match operation recorded with
      | .ok (db',reply) => (db',.ok reply)
      | .error failure => (if failure.sent then recorded else db,.error failure.refusal)

/-- A request of an operation with its key. `checks` is what it verifies before its
transaction, in the file system too; the closure stands for its body. -/
def call (wire : Reply ν → String) (db : Db σ ν) (op : String) (key : Option String)
    (checks : Except RegistryError Unit) (action : σ → Except RegistryError (Action σ ν))
    (attempt : Option Attempt) : Db σ ν × Except RegistryError String :=
  match checks with
  | .error refusal => (db,.error refusal)
  | .ok () => sharedAttempt db attempt fun db => mutation wire db op key action attempt

/-! ### The user profile keeps its replies itself -/

/-- `user_request`: each key's body and reply. -/
abbrev Requests (ν : Type) := Table String (String × ν)

def onTables (action : σ → Except RegistryError (Action σ ν)) (tables : σ × Requests ν) :
    Except RegistryError (Action (σ × Requests ν) ν) := do
  let act ← action tables.1
  return ⟨act.changed,(act.tables,tables.2),act.value,act.payload,act.entry,act.before,act.after⟩

def userAction (key body : String) (action : σ → Except RegistryError (Action σ ν))
    (tables : σ × Requests ν) : Except RegistryError (Action (σ × Requests ν) ν) :=
  match tables.2.get? key with
  | some (stored,value) =>
    if stored ≠ body then .error ⟨"request_key_reused","request key has a different body"⟩
    else .ok ⟨false,tables,value,"\x7b\x7d",false,[],[]⟩
  | none => do
    let act ← action tables.1
    return ⟨act.changed,(act.tables,tables.2.insert key (body,act.value)),act.value,act.payload,
      act.entry,act.before,act.after⟩

abbrev State (σ ν : Type) := Db (σ × Requests ν) ν

def userSet (wire : Reply ν → String) (db : State σ ν) (key body : String)
    (checks : Except RegistryError Unit) (action : σ → Except RegistryError (Action σ ν))
    (attempt : Option Attempt) : State σ ν × Except RegistryError String :=
  call wire db setUser none checks (userAction key body action) attempt

inductive Label (σ ν : Type)
  | call (op : String) (key : Option String) (checks : Except RegistryError Unit)
      (action : σ → Except RegistryError (Action σ ν)) (attempt : Option Attempt)
  | userSet (key body : String) (checks : Except RegistryError Unit)
      (action : σ → Except RegistryError (Action σ ν)) (attempt : Option Attempt)
  /-- Catch-up, joining and turning sharing on: rows without a key. -/
  | receive (rows : List (String × String)) (tables : σ) (logEnabled : Bool) (position : Nat)
  | adopt (tables : σ) (payload : String)

def receive (db : State σ ν) (rows : List (String × String)) (tables : σ) (logEnabled : Bool)
    (position : Nat) : State σ ν :=
  match db.journal.add (keyless rows) with
  | none => db
  | some journal => { db with
      journal, logEnabled
      tables := (tables,db.tables.2)
      pending := db.pending.filter fun other => position ≤ other.2
      lastApplied := position
      lastSeen := max db.lastSeen position }

/-- The local tables are cleared, and the journal stays. -/
def adopt (db : State σ ν) (tables : σ) (payload : String) : State σ ν :=
  match db.journal.add (keyless [("store.adopt",payload)]) with
  | none => db
  | some journal => ⟨journal,(tables,∅),false,[],0,0⟩

def step (wire : Reply ν → String) (db : State σ ν) : Label σ ν → Option (State σ ν)
  | .call op key checks action attempt => some (call wire db op key checks (onTables action) attempt).1
  | .userSet key body checks action attempt => some (userSet wire db key body checks action attempt).1
  | .receive rows tables logEnabled position => some (receive db rows tables logEnabled position)
  | .adopt tables payload => some (adopt db tables payload)

section Keys

variable {journal journal' : Journal} {op key reply : String}

theorem add_rows {rows : List JournalRow} (added : journal.add rows = some journal') :
    journal'.rows = journal.rows ++ rows := by
  unfold Journal.add at added
  split at added
  next => cases added; rfl
  next => cases added

theorem unique_row {a b : JournalRow} (inA : a ∈ journal.rows) (inB : b ∈ journal.rows)
    (keyA : a.requestKey = some key) (keyB : b.requestKey = some key) : a = b := by
  by_contra different
  let _ : Std.Symm fun x y : JournalRow => x.requestKey.isSome = true → x.requestKey ≠ y.requestKey :=
    ⟨fun x y apart keyed same => apart (same ▸ keyed) same.symm⟩
  have apart := journal.unique.forall inA inB different
  exact apart (by rw [keyA]; rfl) (keyA.trans keyB.symm)

/-- A row of the journal binds the key to the operation and holds its reply. -/
def Binds (journal : Journal) (op key reply : String) : Prop :=
  ∃ row ∈ journal.rows, row.requestKey = some key ∧ row.op = op ∧ row.response = some reply

theorem Binds.grow (binds : Binds journal op key reply)
    (grown : journal.rows <+: journal'.rows) : Binds journal' op key reply := by
  obtain ⟨row,inside,facts⟩ := binds
  exact ⟨row,grown.subset inside,facts⟩

theorem Binds.boundTo (binds : Binds journal op key reply) : journal.boundTo (some key) = some op := by
  obtain ⟨row,inside,keyed,named,_⟩ := binds
  show (journal.rows.find? fun row => row.requestKey == some key).map (·.op) = some op
  cases found : journal.rows.find? fun row => row.requestKey == some key with
  | none =>
    have missing := List.find?_eq_none.mp found row inside
    simp [keyed] at missing
  | some other =>
    have same := unique_row (List.mem_of_find?_eq_some found) inside
      (beq_iff_eq.mp (List.find?_some found :)) keyed
    rw [Option.map_some,same,named]

theorem Binds.cached (binds : Binds journal op key reply) : journal.cached op (some key) = some reply := by
  obtain ⟨row,inside,keyed,named,replied⟩ := binds
  show (journal.rows.find? fun row => row.requestKey == some key && row.op == op).bind (·.response) = _
  cases found : journal.rows.find? fun row => row.requestKey == some key && row.op == op with
  | none =>
    have missing := List.find?_eq_none.mp found row inside
    simp [keyed,named] at missing
  | some other =>
    have hit :=
      List.find?_some (p := fun row : JournalRow => row.requestKey == some key && row.op == op) found
    rw [Bool.and_eq_true,beq_iff_eq] at hit
    have same := unique_row (List.mem_of_find?_eq_some found) inside hit.1 keyed
    rw [Option.bind_some,same,replied]

theorem Binds.elsewhere {other : String} (binds : Binds journal op key reply) (different : other ≠ op) :
    journal.cached other (some key) = none := by
  obtain ⟨row,inside,keyed,named,_⟩ := binds
  show (journal.rows.find? fun row => row.requestKey == some key && row.op == other).bind (·.response) = _
  cases found : journal.rows.find? fun row => row.requestKey == some key && row.op == other with
  | none => rfl
  | some hit =>
    have matched :=
      List.find?_some (p := fun row : JournalRow => row.requestKey == some key && row.op == other) found
    rw [Bool.and_eq_true,beq_iff_eq,beq_iff_eq] at matched
    have same := unique_row (List.mem_of_find?_eq_some found) inside matched.1 keyed
    rw [same,named] at matched
    exact absurd matched.2.symm different

end Keys

section Calls

variable {wire : Reply ν → String} {db db' : Db σ ν} {op : String} {key : Option String}
  {action : σ → Except RegistryError (Action σ ν)} {attempt : Option Attempt} {reply : String}

theorem finish_ok {entry : Bool} (ok : finish db attempt entry = .ok db') :
    db'.journal = db.journal ∧ db'.tables = db.tables := by
  unfold finish at ok
  split at ok
  next => cases ok; exact ⟨rfl,rfl⟩
  split at ok
  next =>
    split at ok
    next => cases ok; exact ⟨rfl,rfl⟩
    next => cases ok
  next => cases ok; exact ⟨rfl,rfl⟩

/-- What a closure's commit leaves: its rows at the journal's end, with its key and
reply in one of them, or no row where it changed nothing. -/
structure Committed (wire : Reply ν → String) (db : Db σ ν) (op : String) (key : Option String)
    (act : Action σ ν) (db' : Db σ ν) (reply : String) : Prop where
  tables : db'.tables = act.tables
  grown : db.journal.rows <+: db'.journal.rows
  bound : act.changed = true → ∀ k, key = some k → Binds db'.journal op k reply
  kept : act.changed = false → db'.journal = db.journal
  replied : ∃ generation, reply = wire (replyOf op act.value generation act.changed)

theorem commit_ok {act : Action σ ν} (ok : commit wire db op key act attempt = .ok (db',reply)) :
    Committed wire db op key act db' reply := by
  unfold commit at ok
  split at ok
  next changed =>
    split at ok
    next => cases ok
    next journal added =>
      obtain ⟨done,finished,same⟩ := map_ok ok
      cases same
      obtain ⟨journals,tables⟩ := finish_ok finished
      have rows := add_rows added
      refine ⟨tables,?_,fun _ k keyed => ?_,fun still => ?_,_,by rw [changed]; rfl⟩
      · rw [journals]
        exact ⟨_,rows.symm⟩
      · subst keyed
        rw [journals]
        refine ⟨_,rows ▸ List.mem_append_right _ (List.mem_append_right _ List.mem_cons_self),?_⟩
        unfold logged
        split
        next => split <;> exact ⟨rfl,rfl,rfl⟩
        next => exact ⟨rfl,rfl,rfl⟩
      · rw [changed] at still
        cases still
  next unchanged =>
    obtain ⟨done,finished,same⟩ := map_ok ok
    cases same
    obtain ⟨journals,tables⟩ := finish_ok finished
    have still : act.changed = false := by simpa using unchanged
    refine ⟨tables,?_,fun changed => absurd changed unchanged,fun _ => journals,_,by rw [still]⟩
    exact journals ▸ List.prefix_rfl

/-- An accepted mutation replays a stored reply, or commits its closure. -/
theorem mutation_ok (ok : mutation wire db op key action attempt = .ok (db',reply)) :
    (db.journal.cached op key = some reply ∧ db'.journal = db.journal ∧ db'.tables = db.tables) ∨
    ∃ act, action db.tables = .ok act ∧ Committed wire db op key act db' reply := by
  unfold mutation at ok
  split at ok
  next stored found =>
    obtain ⟨done,finished,same⟩ := map_ok ok
    cases same
    exact .inl ⟨found,finish_ok finished⟩
  split at ok
  next => cases ok
  split at ok
  next => cases ok
  next act ran => exact .inr ⟨act,ran,commit_ok ok⟩

theorem call_ok {checks : Except RegistryError Unit}
    (called : call wire db op key checks action attempt = (db',.ok reply)) :
    ∃ before : Db σ ν, before.journal = db.journal ∧ before.tables = db.tables ∧
      mutation wire before op key action attempt = .ok (db',reply) := by
  unfold call at called
  split at called
  next => cases called
  unfold sharedAttempt at called
  split at called
  next =>
    split at called
    next done => cases called; exact ⟨db,rfl,rfl,done⟩
    next => cases called
  next attempt =>
    split at called
    next => cases called
    next =>
    dsimp only at called
    split at called
    next done => cases called; exact ⟨{ db with pending := db.pending ++ [(attempt.id,attempt.head)] },rfl,rfl,done⟩
    next => cases called

/-- A call that fails leaves the journal and the tables; its entry may stay pending. -/
theorem call_error {checks : Except RegistryError Unit} {refusal : RegistryError}
    (called : call wire db op key checks action attempt = (db',.error refusal)) :
    db'.journal = db.journal ∧ db'.tables = db.tables := by
  unfold call at called
  split at called
  next => cases called; exact ⟨rfl,rfl⟩
  unfold sharedAttempt at called
  split at called
  next =>
    split at called
    next => cases called
    next => cases called; exact ⟨rfl,rfl⟩
  split at called
  next => cases called; exact ⟨rfl,rfl⟩
  next =>
  dsimp only at called
  split at called
  next => cases called
  next => cases called; split <;> exact ⟨rfl,rfl⟩

theorem call_grows {checks : Except RegistryError Unit} (db : Db σ ν) :
    db.journal.rows <+: (call wire db op key checks action attempt).1.journal.rows := by
  obtain ⟨⟨db',answer⟩,called⟩ : ∃ result, call wire db op key checks action attempt = result := ⟨_,rfl⟩
  rw [called]
  cases answer with
  | error refusal =>
    exact (call_error called).1 ▸ List.prefix_rfl
  | ok reply =>
    obtain ⟨before,journal,_,done⟩ := call_ok called
    rcases mutation_ok done with ⟨_,same,_⟩ | ⟨act,_,committed⟩
    · exact same ▸ journal ▸ List.prefix_rfl
    · rw [← journal]; exact committed.grown

/-- The id of a try is drawn anew, so none is pending under it. -/
def Fresh (db : Db σ ν) (attempt : Option Attempt) : Prop :=
  ∀ a, attempt = some a → ∀ entry ∈ db.pending, entry.1 ≠ a.id

/-- An operation that only forgets its own try leaves the store as it was. -/
theorem sharedAttempt_same {operation : Db σ ν → Except Failure (Db σ ν × String)}
    (fresh : Fresh db attempt)
    (done : ∀ at' : Db σ ν, at'.journal = db.journal → at'.tables = db.tables →
      operation at' = (finish at' attempt false).map (·,reply)) :
    sharedAttempt db attempt operation = (db,.ok reply) := by
  unfold sharedAttempt
  cases attempt with
  | none => simp [done,finish,Except.map]
  | some a =>
    have absent : (db.pending.any (·.1 == a.id)) = false := by
      rw [List.any_eq_false]
      intro entry inside
      simpa using fresh a rfl entry inside
    have kept : (db.pending ++ [(a.id,a.head)]).filter (·.1 ≠ a.id) = db.pending := by
      rw [List.filter_append,List.filter_eq_self.mpr]
      · simp
      · intro entry inside
        simpa using fresh a rfl entry inside
    simp only [absent,done,finish,Except.map,Db.settled,kept,Bool.false_eq_true,if_false]

theorem sharedAttempt_refused {operation : Db σ ν → Except Failure (Db σ ν × String)}
    {refusal : RegistryError} (fresh : Fresh db attempt)
    (done : ∀ at' : Db σ ν, at'.journal = db.journal → at'.tables = db.tables →
      operation at' = .error ⟨false,refusal⟩) :
    sharedAttempt db attempt operation = (db,.error refusal) := by
  unfold sharedAttempt
  cases attempt with
  | none => simp [done]
  | some a =>
    have absent : (db.pending.any (·.1 == a.id)) = false := by
      rw [List.any_eq_false]
      intro entry inside
      simpa using fresh a rfl entry inside
    simp [absent,done]

theorem call_replay (binds : ∃ k, key = some k ∧ Binds db.journal op k reply) (fresh : Fresh db attempt) :
    call wire db op key (.ok ()) action attempt = (db,.ok reply) := by
  obtain ⟨k,rfl,binds⟩ := binds
  show sharedAttempt db attempt (fun at' => mutation wire at' op (some k) action attempt) = _
  refine sharedAttempt_same fresh fun at' same _ => ?_
  unfold mutation
  rw [same,binds.cached]

theorem call_elsewhere {k other : String} (binds : Binds db.journal op k reply) (different : other ≠ op)
    (fresh : Fresh db attempt) :
    call wire db other (some k) (.ok ()) action attempt = (db,.error (crossOp op)) := by
  show sharedAttempt db attempt (fun at' => mutation wire at' other (some k) action attempt) = _
  refine sharedAttempt_refused fresh fun at' same _ => ?_
  unfold mutation
  rw [same,binds.elsewhere different,binds.boundTo]
  simp [Option.filter,Ne.symm different]

theorem sharedRequestCache_replay {k : String} (binds : Binds db.journal op k reply) :
    sharedRequestCache db op (some k) = .ok (some reply) := by
  unfold sharedRequestCache
  rw [binds.cached]

end Calls

section Runs

variable {wire : Reply ν → String} {db db' : State σ ν} {attempt : Option Attempt}
  {action : σ → Except RegistryError (Action σ ν)}

theorem step_grows {label : Label σ ν} (taken : step wire db label = some db') :
    db.journal.rows <+: db'.journal.rows := by
  cases label with
  | call op key checks action attempt => cases taken; exact call_grows db
  | userSet key body checks action attempt => cases taken; exact call_grows db
  | receive rows tables logEnabled position =>
    cases taken
    unfold receive
    split
    next => exact List.prefix_rfl
    next journal added => exact ⟨_,(add_rows added).symm⟩
  | adopt tables payload =>
    cases taken
    unfold adopt
    split
    next => exact List.prefix_rfl
    next journal added => exact ⟨_,(add_rows added).symm⟩

theorem reach_grows (reached : Transition.Reach (step wire) Transition.Free db db') :
    db.journal.rows <+: db'.journal.rows :=
  reached.invariant (fun at' => db.journal.rows <+: at'.journal.rows) List.prefix_rfl
    fun _ _ _ before _ taken => before.trans (step_grows taken)

/-- The profile's replies are kept: the tables that calls leave hold the requests
that were there. -/
theorem onTables_requests {tables : σ × Requests ν} {act : Action (σ × Requests ν) ν}
    (ran : onTables action tables = .ok act) : act.tables.2 = tables.2 := by
  obtain ⟨_,_,same⟩ := bind_ok ran
  cases same
  rfl

theorem userAction_requests {key body : String} {tables : σ × Requests ν}
    {act : Action (σ × Requests ν) ν} (ran : userAction key body action tables = .ok act) :
    act.tables.2.get? key = some (body,act.value) ∧
      ∀ other request, tables.2.get? other = some request → act.tables.2.get? other = some request := by
  unfold userAction at ran
  split at ran
  next stored value found =>
    split at ran
    next => cases ran
    next same =>
      cases ran
      rw [not_not] at same
      subst same
      exact ⟨found,fun _ _ => id⟩
  next absent =>
    obtain ⟨_,_,same⟩ := bind_ok ran
    cases same
    refine ⟨by simp,fun other request there => ?_⟩
    show (tables.2.insert key _).get? other = _
    rw [Table.get?_insert,if_neg]
    · exact there
    · rintro rfl
      rw [absent] at there
      cases there

/-- What a call does to the tables is what its closure does, or nothing. -/
theorem call_tables {op : String} {key : Option String} {checks : Except RegistryError Unit}
    {closure : σ × Requests ν → Except RegistryError (Action (σ × Requests ν) ν)} (holds : Requests ν → Prop)
    (initial : holds db.tables.2)
    (kept : ∀ act, closure db.tables = .ok act → holds act.tables.2) :
    holds (call wire db op key checks closure attempt).1.tables.2 := by
  obtain ⟨⟨db',answer⟩,called⟩ : ∃ result, call wire db op key checks closure attempt = result := ⟨_,rfl⟩
  rw [called]
  cases answer with
  | error refusal => rw [(call_error called).2]; exact initial
  | ok reply =>
    obtain ⟨before,_,tables,done⟩ := call_ok called
    rcases mutation_ok done with ⟨_,_,same⟩ | ⟨act,ran,committed⟩
    · rw [same,tables]; exact initial
    · rw [tables] at ran
      rw [committed.tables]
      exact kept act ran

/-- No step adopts the store for another machine. -/
def NotAdopting (_ : State σ ν) (label : Label σ ν) : Prop :=
  ∀ tables payload, label ≠ .adopt tables payload

theorem step_requests {label : Label σ ν} {key : String} {request : String × ν}
    (there : db.tables.2.get? key = some request) (stays : NotAdopting db label)
    (taken : step wire db label = some db') : db'.tables.2.get? key = some request := by
  cases label with
  | call op k checks action attempt =>
    cases taken
    refine call_tables (fun requests => requests.get? key = some request) there fun act ran => ?_
    rw [onTables_requests ran]
    exact there
  | userSet k body checks action attempt =>
    cases taken
    refine call_tables (fun requests => requests.get? key = some request) there fun act ran => ?_
    exact (userAction_requests ran).2 key request there
  | receive rows tables logEnabled position =>
    cases taken
    unfold receive
    split <;> exact there
  | adopt tables payload => exact absurd rfl (stays tables payload)

theorem reach_requests {key : String} {request : String × ν} (there : db.tables.2.get? key = some request)
    (reached : Transition.Reach (step wire) NotAdopting db db') : db'.tables.2.get? key = some request :=
  reached.invariant (fun at' => at'.tables.2.get? key = some request) there
    fun _ _ _ before stays taken => step_requests before stays taken

theorem mutation_runs {at' : State σ ν}
    {closure : σ × Requests ν → Except RegistryError (Action (σ × Requests ν) ν)} {act : Action (σ × Requests ν) ν} (ran : closure at'.tables = .ok act) :
    mutation wire at' setUser none closure attempt = commit wire at' setUser none act attempt := by
  unfold mutation
  rw [ran]
  rfl

theorem mutation_refuses {at' : State σ ν}
    {closure : σ × Requests ν → Except RegistryError (Action (σ × Requests ν) ν)} {refusal : RegistryError}
    (ran : closure at'.tables = .error refusal) :
    mutation wire at' setUser none closure attempt = .error ⟨false,refusal⟩ := by
  unfold mutation
  rw [ran]
  rfl

/-- The profile's reply does not name the generation. -/
theorem user_reply (value : ν) (generation : Nat) (changed : Bool) :
    replyOf setUser value generation changed = ⟨value,none,none⟩ := by
  simp [replyOf]

theorem userSet_stored {key body reply : String} {checks : Except RegistryError Unit}
    (called : userSet wire db key body checks action attempt = (db',.ok reply)) :
    ∃ value, db'.tables.2.get? key = some (body,value) ∧ reply = wire ⟨value,none,none⟩ := by
  obtain ⟨before,_,tables,done⟩ := call_ok called
  rcases mutation_ok done with ⟨cached,_⟩ | ⟨act,ran,committed⟩
  · cases cached
  · obtain ⟨generation,replied⟩ := committed.replied
    rw [user_reply] at replied
    exact ⟨act.value,by rw [committed.tables]; exact (userAction_requests ran).1,replied⟩

theorem userSet_replay {key body : String} {value : ν} (there : db.tables.2.get? key = some (body,value))
    (fresh : Fresh db attempt) :
    userSet wire db key body (.ok ()) action attempt = (db,.ok (wire ⟨value,none,none⟩)) := by
  show sharedAttempt db attempt
    (fun at' => mutation wire at' setUser none (userAction key body action) attempt) = _
  refine sharedAttempt_same fresh fun at' same tables => ?_
  have ran : userAction key body action at'.tables = .ok ⟨false,at'.tables,value,"\x7b\x7d",false,[],[]⟩ := by
    rw [userAction,tables,there]
    simp
  rw [mutation_runs ran]
  show (finish at' attempt false).map (·,wire (replyOf setUser value at'.journal.head false)) = _
  rw [user_reply]

theorem userSet_otherBody {key body other : String} {value : ν}
    (there : db.tables.2.get? key = some (body,value)) (different : other ≠ body) (fresh : Fresh db attempt) :
    userSet wire db key other (.ok ()) action attempt =
      (db,.error ⟨"request_key_reused","request key has a different body"⟩) := by
  show sharedAttempt db attempt
    (fun at' => mutation wire at' setUser none (userAction key other action) attempt) = _
  refine sharedAttempt_refused fresh fun at' _ tables => ?_
  have ran : userAction key other action at'.tables =
      .error ⟨"request_key_reused","request key has a different body"⟩ := by
    rw [userAction,tables,there]
    simp [Ne.symm different]
  exact mutation_refuses ran

/-- Request keys over whole runs. A call that appended its row answers for its key
from then on: with its own bytes under its operation, whatever the body, and with a
refusal under any other, and neither writes anything. A call that failed, also with
an unknown outcome, leaves the journal and the tables. The profile's replies answer
for their bodies, changed or not, until the store is adopted. -/
theorem request_keys_answer_once (wire : Reply ν → String) (db : State σ ν) :
    (∀ op key checks action attempt db' reply,
      call wire db op (some key) checks (onTables action) attempt = (db',.ok reply) →
      db'.journal ≠ db.journal →
      ∀ later, Transition.Reach (step wire) Transition.Free db' later →
        sharedRequestCache later op (some key) = .ok (some reply) ∧
        ∀ action' attempt', Fresh later attempt' →
          call wire later op (some key) (.ok ()) (onTables action') attempt' = (later,.ok reply) ∧
          ∀ other, other ≠ op →
            call wire later other (some key) (.ok ()) (onTables action') attempt' =
              (later,.error (crossOp op))) ∧
    (∀ op key checks action attempt db' refusal,
      call wire db op key checks (onTables action) attempt = (db',.error refusal) →
      db'.journal = db.journal ∧ db'.tables = db.tables) ∧
    (∀ key body checks action attempt db' reply,
      userSet wire db key body checks action attempt = (db',.ok reply) →
      ∀ later, Transition.Reach (step wire) NotAdopting db' later →
        ∀ action' attempt', Fresh later attempt' →
          userSet wire later key body (.ok ()) action' attempt' = (later,.ok reply) ∧
          ∀ other, other ≠ body →
            userSet wire later key other (.ok ()) action' attempt' =
              (later,.error ⟨"request_key_reused","request key has a different body"⟩)) := by
  refine ⟨?_,fun op key checks action attempt db' refusal => call_error,?_⟩
  · intro op key checks action attempt db' reply called wrote later reached
    have binds : Binds db'.journal op key reply := by
      obtain ⟨before,journal,_,done⟩ := call_ok called
      rcases mutation_ok done with ⟨_,same,_⟩ | ⟨act,_,committed⟩
      · exact absurd (same.trans journal) wrote
      · cases changed : act.changed with
        | true => exact committed.bound changed key rfl
        | false => exact absurd ((committed.kept changed).trans journal) wrote
    have lasting := binds.grow (reach_grows reached)
    refine ⟨sharedRequestCache_replay lasting,fun action' attempt' fresh => ⟨?_,?_⟩⟩
    · exact call_replay ⟨key,rfl,lasting⟩ fresh
    · exact fun other different => call_elsewhere lasting different fresh
  · intro key body checks action attempt db' reply called later reached action' attempt' fresh
    obtain ⟨value,stored,rfl⟩ := userSet_stored called
    have there := reach_requests stored reached
    exact ⟨userSet_replay there fresh,fun other different => userSet_otherBody there different fresh⟩

end Runs

namespace Retried

/-- No remotes, nothing refused. -/
def site : Registry.Site where
  blake3 text := (text.toList.map fun c => Fin.ofNat 16 c.toNat).take 16
  logEnabled := false
  canonical _ := .ok ()
  rootRemotes _ := ([],none)
  lowercase := String.toLower
  planCarry _ _ := .ok ()
  admitCarry := .ok ()
  projectUnbound _ := .ok ()
  workspaceUnbound _ := .ok ()
  domainCanonical _ := true
  freshBinding _ := .ok ()
  boundUnder _ _ _ := .ok ()
  homes := .ok ()
  seedPath _ path := .survives path

/-- The closure of `assign_workspace`, whose entry is shared. -/
def assign (workspaceId : String) (tables : Registry.Tables) :
    Except RegistryError (Action Registry.Tables Registry.Value) :=
  (Registry.assignWorkspace site tables ⟨"p",workspaceId,none⟩).map fun act =>
    ⟨act.changed,act.store,act.value,"\x7b\"project_id\":\"p\"\x7d",true,[],[]⟩

def quoted (text : String) : String := "\"" ++ text ++ "\""

/-- The JSON text of a placement's reply. -/
def wireText : Reply Registry.Value → String
  | ⟨.placed projectId workspaceId,some generation,some noop⟩ =>
    "\x7b\"result\":\x7b\"generation\":" ++ toString generation ++ ",\"noop\":" ++ toString noop ++
      ",\"projectId\":" ++ quoted projectId ++ ",\"workspaceId\":" ++ quoted workspaceId ++ "\x7d\x7d"
  | _ => ""

abbrev Shown := State Registry.Tables Registry.Value

/-- `p` is registered, with its row in the journal, and not placed. -/
def registered (logEnabled : Bool) : Shown where
  journal := ⟨[.of "register" "" none],by decide⟩
  tables := ({ Registry.Tables.empty with projects := Table.insert ∅ "p" ⟨"p",none,none⟩ },∅)
  logEnabled := logEnabled
  pending := []
  lastApplied := 0
  lastSeen := 0

def place (db : Shown) (key : Option String) (workspaceId : String) (attempt : Option Attempt) :
    Shown × Except RegistryError String :=
  call wireText db "assign_workspace" key (.ok ()) (onTables (assign workspaceId)) attempt

def placedIn (db : Shown) : Option String := db.tables.1.placement.get? "p"

/-- The workspace is assigned already; the reply is not stored, and once another
write has moved the project the same request answers otherwise and moves it back. -/
def unchanged : Shown × Except RegistryError String :=
  place (place (registered false) none "w1" none).1 (some "k") "w1" none

def moved : Shown := (place unchanged.1 none "w2" none).1

/-- The key's reply is stored for `w1`, and a request for `w2` is answered with it. -/
def stored : Shown × Except RegistryError String := place (registered false) (some "k") "w1" none

/-- The answer to the append is lost, catch-up applies the entry the log accepted,
and another write moves the project on. -/
def unknown : Shown × Except RegistryError String :=
  place (registered true) (some "k") "w1"
    (some ⟨"e1",0,.rollback true ⟨"engram_outcome_unknown","the append's outcome is unknown"⟩⟩)

def caughtUp : Shown :=
  let before := unknown.1.tables.1
  let entry := Registry.projectDelta before ((assign "w1" before).toOption.elim before (·.tables))
  receive unknown.1 [("project.shared","\x7b\x7d")] ((entry.apply before).getD before) true 1

def movedOn : Shown := (place caughtUp none "w2" (some ⟨"e2",1,.commit 2⟩)).1

theorem keys_answer_otherwise :
    (unchanged.2 ≠ (place moved (some "k") "w1" none).2 ∧ placedIn moved = some "w2" ∧
      placedIn (place moved (some "k") "w1" none).1 = some "w1") ∧
    (place stored.1 (some "k") "w2" none).2 = stored.2 ∧
    (unknown.2 = .error ⟨"engram_outcome_unknown","the append's outcome is unknown"⟩ ∧
      placedIn caughtUp = some "w1" ∧ placedIn movedOn = some "w2" ∧
      placedIn (place movedOn (some "k") "w1" (some ⟨"e3",2,.commit 3⟩)).1 = some "w1") := by
  refine ⟨⟨?_,?_,?_⟩,?_,?_,?_,?_,?_⟩ <;> decide +kernel

end Retried

end Entorhinal.RequestKeys
