import Entorhinal.Transition
import Entorhinal.Whereabouts

/-! The whereabouts watch of one module process: the bounded history of batches,
the writers that append to it, a watch that reads it and the client behind it.
Every thread is a state of its own and a run interleaves their steps. -/
namespace Entorhinal.Where
open ClaimCache

def noticeLimit : Nat := 192 * 1024
def historyLimit : Nat := 256

/-- A row without an answer marks an agent that can only be resynced. -/
structure WhereBatch where
  seq : Nat
  entries : Table String (Option AgentWhere)
  allAgents : Bool

structure WhereHistory where
  seq : Nat
  batches : List WhereBatch

def WhereHistory.push (history : WhereHistory) (entries : Table String (Option AgentWhere))
    (allAgents : Bool) : WhereHistory :=
  let seq := history.seq + 1
  let batches := history.batches ++ [⟨seq,entries,allAgents⟩]
  ⟨seq,if historyLimit < batches.length then batches.tail else batches⟩

structure Cursor where
  incarnation : String
  seq : Nat
deriving DecidableEq, Repr

/-- A row as it is sent: its version is the number of its batch. -/
structure WhereEntry where
  version : Nat
  row : AgentWhere
deriving DecidableEq, Repr

def watched (ids : Option (List String)) (id : String) : Bool := ids.all (·.contains id)

def resumable (incarnation : String) (history : WhereHistory) (cursor : Option Cursor) : Bool :=
  cursor.any fun cursor => cursor.incarnation == incarnation && decide (cursor.seq ≤ history.seq) &&
    history.batches.head?.all fun first => decide (first.seq - 1 ≤ cursor.seq)

/-- What the batches read so far amount to, and whether they can be sent. -/
structure Coalesced where
  safe : Bool
  changes : Table String WhereEntry

def coalesceRow (ids : Option (List String)) (seq : Nat) (read : Coalesced)
    (item : String × Option AgentWhere) : Coalesced :=
  if watched ids item.1 then
    match item.2 with
    | none => { read with safe := false }
    | some row => { read with changes := read.changes.insert item.1 ⟨seq,row⟩ }
  else read

def coalesce (ids : Option (List String)) (read : Coalesced) (batch : WhereBatch) : Coalesced :=
  batch.entries.rows.foldl (coalesceRow ids batch.seq) { read with safe := read.safe && !batch.allAgents }

/-- The batches past a cursor; no cursor reads none. -/
def later (history : WhereHistory) (cursor : Option Cursor) : List WhereBatch :=
  match cursor with
  | none => []
  | some cursor => history.batches.filter fun batch => decide (cursor.seq < batch.seq)

/-- The read of `where_watch` under the history lock; nothing stands for a resync. -/
def changesSince (incarnation : String) (history : WhereHistory) (cursor : Option Cursor)
    (ids : Option (List String)) : Option (Table String WhereEntry) :=
  let read := (later history cursor).foldl (coalesce ids) ⟨resumable incarnation history cursor,∅⟩
  if read.safe then some read.changes else none

inductive Notice
  | resync (cursor : Cursor)
  | changes (cursor : Cursor) (entries : Table String WhereEntry)

def Notice.cursor : Notice → Cursor
  | .resync cursor | .changes cursor _ => cursor

/-- A notice too large to send becomes a resync. -/
def notice (encoded : Notice → Nat) (after : Cursor) (changes : Option (Table String WhereEntry)) :
    Option Notice :=
  match changes with
  | none => some (.resync after)
  | some changes =>
    if changes.rows = [] then none
    else if noticeLimit < encoded (.changes after changes) then some (.resync after)
    else some (.changes after changes)

/-- A call of `cache_claims`, which holds the writer mutex throughout. Its
callers leave a store of another machine alone. -/
inductive CacheWriter
  | idle
  | observed (before : Table String (Option CachedClaim)) (observations : List (String × ClaimObservation))
      (now : Int)
  | announcing (todo : List (String × Option CachedClaim))
  | rereading (todo : List (String × Option CachedClaim)) (entries : Table String (Option AgentWhere))

inductive WatchPhase
  | waiting
  | waking
  | reading
deriving DecidableEq, Repr

/-- An open watch, with the numbers of the notices it sent, newest first. Its
wake-up is armed except between the end of a wait and the next arming. -/
structure Watch where
  cursor : Cursor
  phase : WatchPhase
  woken : Bool
  sent : List Nat
deriving DecidableEq, Repr

/-- The client's filter, the number its table stands at, its table, and the
agents it has still to re-read. -/
structure Client where
  ids : Option (List String)
  held : Option Nat
  table : String → Option AgentWhere
  unread : String → Bool

/-- `log` and `floor` record every batch appended and the number at which the
listener was installed; nothing reads them. -/
structure World where
  store : WhereStore
  history : WhereHistory
  log : List WhereBatch
  writer : CacheWriter
  pending : Nat
  resuming : Bool
  ringing : Nat
  listening : Bool
  floor : Nat
  watch : Option Watch
  inbox : List Notice
  client : Client

/-- The steps of the module's threads. -/
inductive Act
  | listen
  | commit (observing touched : Bool) (store : WhereStore)
  | adopt (sameMachine : Bool)
  | resume
  | announce
  | observe (observations : List (String × ClaimObservation)) (now : Int)
  | abandon
  | cache (observing : Bool)
  | cacheAnnounce
  | recheck
  | recheckFails
  | append
  | ring
  | connect (cursor : Option Cursor)
  | wake
  | rearm
  | read
  | disconnect
  | receive
  | reread (id : String)
  | startOver (ids : Option (List String)) (cursor : Option Nat)

section Steps

variable (incarnation : String) (encoded : Notice → Nat)

def World.append (w : World) (entries : Table String (Option AgentWhere)) (allAgents : Bool) : World :=
  { w with
    history := w.history.push entries allAgents
    log := w.log ++ [⟨w.history.seq + 1,entries,allAgents⟩]
    ringing := w.ringing + 1 }

/-- A listener's `resync_all` up to its wake-up, if one is installed. -/
def World.resyncAll (w : World) : World := if w.listening then w.append ∅ true else w

/-- Whether `where_write` calls the listener after its commit. -/
def changed (observing touched : Bool) (before after : WhereStore) : Bool :=
  if observing then touched || decide (Dependencies.read before ≠ Dependencies.read after) else true

/-- Any other writer: its transaction leaves the claims alone, and the moves
too unless it touched them. -/
def commit (w : World) (observing touched : Bool) (store : WhereStore) : Option World :=
  if observing && !w.listening then none
  else if store.claimCache ≠ w.store.claimCache ∨ store.foreign ≠ w.store.foreign then none
  else if !touched ∧ store.agentMove ≠ w.store.agentMove then none
  else some { w with
    store := store
    pending := if changed observing touched w.store store then w.pending + 1 else w.pending }

/-- Only a store of another machine is adopted; one that had shared gives up its
derived tables. -/
def adoptStore (store : WhereStore) (sameMachine : Bool) : Option WhereStore :=
  if !store.foreign then none
  else if sameMachine then some { store with foreign := false }
  else match store.identityLogState with
    | none => none
    | some state =>
      let shared := state ≠ .disabled
      some {
        agents := if shared then ∅ else store.agents
        claimCache := ∅
        selfAuthor := none
        memberName := if shared then ∅ else store.memberName
        identityLogState := some .disabled
        agentMove := []
        foreign := false }

def observe (w : World) (observations : List (String × ClaimObservation)) (now : Int) : Option World :=
  match w.writer with
  | .idle =>
    if w.store.foreign then none else
    let before := observations.foldl (fun before item =>
      before.insert item.1 (cachedAgentClaim w.store item.1)) (∅ : Table String (Option CachedClaim))
    some { w with writer := .observed before observations now }
  | _ => none

def cache (w : World) (observing : Bool) : Option World :=
  match w.writer with
  | .observed before observations now =>
    if observing && !w.listening then none
    else
      let store := cacheAgentClaims w.store observations now
      some { w with
        store := store
        writer := if changed observing false w.store store then .announcing before.rows
          else .rereading before.rows ∅ }
  | _ => none

/-- One turn of the loop over the claims read before. -/
def recheck (w : World) : Option World :=
  match w.writer with
  | .rereading ((id,old) :: todo) entries =>
    let entries := if old ≠ cachedAgentClaim w.store id then entries.insert id (answer w.store id)
      else entries
    some { w with writer := .rereading todo entries }
  | _ => none

def appendBatch (w : World) : Option World :=
  match w.writer with
  | .rereading [] entries =>
    let done := if entries.rows = [] then w else w.append entries false
    some { done with writer := .idle }
  | _ => none

/-- The turn of the watch's loop up to its next wait. -/
def World.emit (w : World) (cursor : Option Cursor) (sent : List Nat) (woken : Bool) : World :=
  let after : Cursor := ⟨incarnation,w.history.seq⟩
  let body := notice encoded after (changesSince incarnation w.history cursor w.client.ids)
  { w with
    watch := some ⟨after,.waiting,woken,(body.map fun _ => w.history.seq).toList ++ sent⟩
    inbox := w.inbox ++ body.toList }

/-- A client resumes from a number its table stands at or from an older one, out
of those this process has handed out; every other cursor is unknown here. -/
def presentable (w : World) (cursor : Option Cursor) : Bool :=
  !resumable incarnation w.history cursor ||
    cursor.any fun cursor => decide (w.floor ≤ cursor.seq) && w.client.held.any (cursor.seq ≤ ·)

def connect (w : World) (cursor : Option Cursor) : Option World :=
  if w.listening && w.watch.isNone && presentable incarnation w cursor then
    some ({ w with inbox := [] }.emit incarnation encoded cursor [] false)
  else none

/-- A row sent after a resync stands for the re-read of its agent. -/
def Client.apply (client : Client) : Notice → Client
  | .resync cursor => { client with held := some cursor.seq, unread := fun _ => true }
  | .changes cursor entries => { client with
      held := some cursor.seq
      table := fun id => match entries.get? id with
        | some entry => some entry.row
        | none => client.table id
      unread := fun id => client.unread id && !entries.has id }

def Client.reread (client : Client) (store : WhereStore) (id : String) : Client :=
  { client with
    table := fun other => if other = id then answer store id else client.table other
    unread := fun other => if other = id then false else client.unread other }

/-- A client that takes a cursor it was told re-reads everything first. -/
def startOver (w : World) (ids : Option (List String)) (cursor : Option Nat) : Option World :=
  if w.watch.isSome then none
  else if cursor.all fun seq => w.listening && decide (w.floor ≤ seq) && decide (seq ≤ w.history.seq) then
    some { w with client := ⟨ids,cursor,answer w.store,fun _ => false⟩ }
  else none

def next (w : World) : Act → Option World
  | .listen => some (if w.listening then w else { w with listening := true, floor := w.history.seq })
  | .commit observing touched store => commit w observing touched store
  | .adopt sameMachine => (adoptStore w.store sameMachine).map fun store =>
    { w with store := store, resuming := true }
  | .resume => if w.resuming then some ({ w with resuming := false }.append ∅ true) else none
  | .announce => if w.pending = 0 then none else some { w with pending := w.pending - 1 }.resyncAll
  | .observe observations now => observe w observations now
  | .abandon => match w.writer with
    | .observed _ _ _ => some { w with writer := .idle }
    | _ => none
  | .cache observing => cache w observing
  | .cacheAnnounce => match w.writer with
    | .announcing todo => some { w.resyncAll with writer := .rereading todo ∅ }
    | _ => none
  | .recheck => recheck w
  | .recheckFails => match w.writer with
    | .rereading (_ :: _) _ => some { w with writer := .idle }
    | _ => none
  | .append => appendBatch w
  | .ring => if w.ringing = 0 then none
    else some { w with
      ringing := w.ringing - 1
      watch := w.watch.map fun watch =>
        if watch.phase = .waking then watch else { watch with woken := true } }
  | .connect cursor => connect incarnation encoded w cursor
  | .wake => match w.watch with
    | some watch => if watch.phase = .waiting ∧ watch.woken = true then
        some { w with watch := some { watch with phase := .waking, woken := false } }
      else none
    | none => none
  | .rearm => match w.watch with
    | some watch => if watch.phase = .waking then
        some { w with watch := some { watch with phase := .reading } }
      else none
    | none => none
  | .read => match w.watch with
    | some watch => if watch.phase = .reading then
        some (w.emit incarnation encoded (some watch.cursor) watch.sent watch.woken)
      else none
    | none => none
  | .disconnect => if w.watch.isNone then none else some { w with watch := none, inbox := [] }
  | .receive => match w.inbox with
    | body :: rest => some { w with inbox := rest, client := w.client.apply body }
    | [] => none
  | .reread id => some { w with client := w.client.reread w.store id }
  | .startOver ids cursor => startOver w ids cursor

end Steps

def start (store : WhereStore) : World where
  store := store
  history := ⟨0,[]⟩
  log := []
  writer := .idle
  pending := 0
  resuming := false
  ringing := 0
  listening := false
  floor := 0
  watch := none
  inbox := []
  client := ⟨none,none,fun _ => none,fun _ => false⟩

end Entorhinal.Where
