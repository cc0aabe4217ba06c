import Entorhinal.Liveness
import Entorhinal.Transition

/-! Host incarnations that feed the mirror over routes which lose, delay and reorder
their batches. Each incarnation keeps a session table and numbers its batches from a
start of its own; the feed names the module, not the incarnation. -/
namespace Entorhinal.LivenessMirror
open Session Transition

abbrev Sessions : Type := Table SessionKey MirrorEntry

def keyOf (session : LivenessSession) : SessionKey := toLex (session.harness,session.sessionId)

/-- A host's table after one of its sessions changed. -/
def change (table : Sessions) (session : LivenessSession) : Sessions :=
  if session.state = "gone" then table.erase (keyOf session)
  else table.insert (keyOf session)
    ⟨session.state,session.canonicalRoot,session.lastActivityMs,session.cause⟩

def changes (table : Sessions) (sessions : List LivenessSession) : Sessions := sessions.foldl change table

/-- What a host sends in a batch: the sessions that changed, or all of them. -/
structure Report where
  snapshot : Bool
  sessions : List LivenessSession
deriving DecidableEq

def tableAfter (initial : Sessions) (reports : List Report) : Sessions :=
  reports.foldl (fun table report => if report.snapshot then table else changes table report.sessions) initial

/-- One incarnation: its snapshots list its table. -/
structure Host where
  start : Nat
  initial : Sessions
  reports : List Report
  honest : ∀ i report, reports[i]? = some report → report.snapshot = true →
    changes ∅ report.sessions = tableAfter initial (reports.take i)

namespace Host

/-- The table after the first reports. -/
def table (host : Host) (count : Nat) : Sessions := tableAfter host.initial (host.reports.take count)

def batch (host : Host) (index : Nat) : Option LivenessBatch :=
  host.reports[index]?.map fun report => ⟨host.start + index,report.snapshot,report.sessions⟩

def begin (start : Nat) (initial : Sessions) : Host := ⟨start,initial,[],by simp⟩

def add (host : Host) (report : Report)
    (honest : report.snapshot = true → changes ∅ report.sessions = host.table host.reports.length) :
    Host where
  start := host.start
  initial := host.initial
  reports := host.reports ++ [report]
  honest := by
    intro i other found snapshot
    rw [List.getElem?_append] at found
    split at found
    next early =>
      rw [List.take_append_of_le_length early.le]
      exact host.honest i other found snapshot
    next late =>
      have last : i = host.reports.length := by
        have bound := List.getElem?_eq_some_iff.mp found
        obtain ⟨small,_⟩ := bound
        simp only [List.length_singleton] at small
        omega
      subst last
      simp only [Nat.sub_self,List.getElem?_cons_zero,Option.some.injEq] at found
      subst found
      simpa [table] using honest snapshot

end Host

structure Message where
  host : Nat
  index : Nat
  route : Nat
deriving DecidableEq

/-- `handling` holds the batches that were admitted and wait for the mirror's lock, with
the principal they were admitted under; `source` is the report that was the last applied
snapshot. -/
structure World where
  hosts : Table Nat Host
  flight : List Message
  handling : List (Message × String)
  routes : Table Nat String
  mirror : LivenessState
  source : Option (Nat × Nat)

def World.start : World := ⟨∅,[],[],∅,.start,none⟩

inductive Label
  | startHost (id start : Nat) (initial : Sessions)
  | send (id route : Nat) (report : Report)
  | lose (message : Message)
  | bind (route : Nat) (principal : String)
  | routeGone (route : Nat)
  | arrive (message : Message) (provider : Option String)
  | handle (message : Message) (principal : String)
  | restart

/-- Only the sole provider of the host capability may feed. -/
def admitLivenessFeed (provider principal : Option String) : Bool :=
  match provider, principal with
  | some host, some principal => principal == s!"reserved:{host}"
  | _, _ => false

def World.senderIs (w : World) (route : Nat) : Bool := w.mirror.sender.any (·.1 == route)

def World.latch (w : World) (when : Bool) : World :=
  { w with mirror := { w.mirror with stale := w.mirror.stale || when } }

def onBind (w : World) (route : Nat) (principal : String) : World :=
  { w.latch ((w.routes.get? route).any (· != principal) && w.senderIs route) with
    routes := w.routes.insert route principal }

def onRouteGone (w : World) (route : Nat) : World :=
  { w.latch (w.senderIs route) with routes := w.routes.erase route }

def World.batch (w : World) (message : Message) : Option LivenessBatch :=
  (w.hosts.get? message.host).bind (·.batch message.index)

def next (w : World) : Label → Option World
  | .startHost id start initial =>
    if w.hosts.has id || u64Bound ≤ start then none
    else some { w with hosts := w.hosts.insert id (.begin start initial) }
  | .send id route report => (w.hosts.get? id).bind fun host =>
    if honest : report.snapshot = true → changes ∅ report.sessions = host.table host.reports.length then
      if host.start + host.reports.length < u64Bound then some { w with
        hosts := w.hosts.insert id (host.add report honest)
        flight := ⟨id,host.reports.length,route⟩ :: w.flight }
      else none
    else none
  | .lose message => some { w with flight := w.flight.erase message }
  | .bind route principal => some (onBind w route principal)
  | .routeGone route => some (onRouteGone w route)
  | .arrive message provider =>
    if message ∈ w.flight then
      let principal := w.routes.get? message.route
      let arrived := { w with flight := w.flight.erase message }
      if admitLivenessFeed provider principal then
        some { arrived with handling := (message,principal.getD "") :: w.handling }
      else some arrived
    else none
  | .handle message principal =>
    if (message,principal) ∈ w.handling then (w.batch message).map fun batch => { w with
      handling := w.handling.erase (message,principal)
      mirror := (sessionLiveness w.mirror batch message.route principal fun _ => 0).state
      source := if batch.snapshot then some (message.host,message.index) else w.source }
    else none
  | .restart => some { w with handling := [], routes := ∅, mirror := .start, source := none }

/-- The last state reported for a session. -/
def latest : List LivenessSession → SessionKey → Option String
  | [], _ => none
  | session :: rest, key => (latest rest key).or (if keyOf session = key then some session.state else none)

/-- The sessions reported from one report up to another. -/
def Host.between (host : Host) (since upto : Nat) : List LivenessSession :=
  ((host.reports.take (upto + 1)).drop since).flatMap (·.sessions)

/-- The mirror is the table of the incarnation that sent the last applied snapshot, as of
the batch numbered `lastSeq`, and what it remembers as gone that incarnation reported gone
since and did not report otherwise. -/
def Faithful (w : World) : Prop :=
  ∃ id host since upto, w.source = some (id,since) ∧ w.hosts.get? id = some host ∧ since ≤ upto ∧
    upto < host.reports.length ∧ w.mirror.lastSeq = some (host.start + upto) ∧
    w.mirror.sessions = host.table (upto + 1) ∧
    ∀ key, w.mirror.gone.has key = true → latest (host.between since upto) key = some "gone"

/-- No other incarnation continues the numbering: a delta with the next number, handled
while the mirror is fresh and from the principal it heard last, is of the incarnation whose
snapshot was applied. -/
def Continues (w : World) : Label → Prop
  | .handle message principal => ∀ batch last, w.batch message = some batch → w.mirror.stale = false →
      w.mirror.sender.all (·.2 == principal) = true → batch.snapshot = false →
      w.mirror.lastSeq = some last → batch.seq = last + 1 → w.source.map (·.1) = some message.host
  | _ => True

end Entorhinal.LivenessMirror
