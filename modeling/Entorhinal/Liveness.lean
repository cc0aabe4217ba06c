import Entorhinal.SessionLifecycle

/-! The liveness feed: one batch against the volatile mirror, with the end
stamps its explicit `gone` entries queue. -/
namespace Entorhinal.Session

/-- `(harness, session_id)` as the feed names a host session. -/
abbrev SessionKey := String ×ₗ String

structure LivenessSession where
  harness : String
  sessionId : String
  canonicalRoot : String
  state : String
  lastActivityMs : Int
  cause : Option String
  runner : Option String
deriving DecidableEq, Repr

structure LivenessBatch where
  seq : Nat
  snapshot : Bool
  sessions : List LivenessSession
deriving DecidableEq, Repr

structure MirrorEntry where
  state : String
  canonicalRoot : String
  lastActivityMs : Int
  cause : Option String
deriving DecidableEq, Repr

structure LivenessState where
  lastSeq : Option Nat
  stale : Bool
  sender : Option (Nat × String)
  sessions : Table SessionKey MirrorEntry
  gone : Table SessionKey Unit
deriving DecidableEq

/-- The mirror of a module that just started. -/
def LivenessState.start : LivenessState := ⟨none,true,none,∅,∅⟩

def goneSessionsCap : Nat := 4096

def u64Bound : Nat := 18446744073709551616

/-- The batch's number against the last applied one: the mirror after it, and
whether its entries are applied. -/
def LivenessState.sequence (state : LivenessState) (batch : LivenessBatch) : LivenessState × Bool :=
  if batch.snapshot then
    ({ state with sessions := ∅, gone := ∅, stale := false, lastSeq := some batch.seq },true)
  else match state.lastSeq with
    | some last =>
      if batch.seq ≤ last then ({ state with stale := true },false)
      else
        let gap := batch.seq != (last + 1) % u64Bound
        ({ state with stale := state.stale || gap, lastSeq := some batch.seq },true)
    | none => ({ state with lastSeq := some batch.seq },true)

def LivenessState.from (state : LivenessState) (route : Nat) (principal : String) : LivenessState :=
  let changed := state.sender.any fun sender => sender.2 != principal
  { state with stale := state.stale || changed, sender := some (route,principal) }

/-- The smallest remembered key goes first when the set is over its cap. -/
def LivenessState.remember (state : LivenessState) (key : SessionKey) : LivenessState :=
  let gone := state.gone.insert key ()
  let kept := if goneSessionsCap < gone.size then match gone.keys with
    | first :: _ => gone.erase first
    | [] => gone
    else gone
  { state with sessions := state.sessions.erase key, gone := kept }

/-- One entry of an applied batch; `readings` is the clock at its successive reads. -/
def applyEntry (readings : Nat → Int) (state : LivenessState) (ended : List GoneSession)
    (session : LivenessSession) : LivenessState × List GoneSession :=
  let key : SessionKey := toLex (session.harness,session.sessionId)
  if session.state = "gone" then
    let stamp : GoneSession :=
      ⟨session.harness,session.sessionId,session.runner,readings ended.length⟩
    (state.remember key,if session.harness = "" then ended else ended ++ [stamp])
  else
    let entry : MirrorEntry := ⟨session.state,session.canonicalRoot,session.lastActivityMs,session.cause⟩
    ({ state with gone := state.gone.erase key, sessions := state.sessions.insert key entry },ended)

structure BatchOutcome where
  state : LivenessState
  applied : Bool
  ended : List GoneSession
  snapshotRequested : Bool
  tracked : Nat

def sessionLiveness (state : LivenessState) (batch : LivenessBatch) (route : Nat) (principal : String)
    (readings : Nat → Int) : BatchOutcome :=
  let sequenced := (state.from route principal).sequence batch
  let final := if sequenced.2 then
      batch.sessions.foldl (fun acc session => applyEntry readings acc.1 acc.2 session) (sequenced.1,[])
    else (sequenced.1,[])
  ⟨final.1,sequenced.2,final.2,sequenced.1.stale,final.1.sessions.size⟩

structure LivenessAnswer where
  state : String
  cause : Option String
deriving DecidableEq, Repr

def LivenessAnswer.unknown (cause : Option String) : LivenessAnswer := ⟨"unknown",cause⟩

/-- A mirror that waits for a snapshot vouches for nothing. -/
def LivenessState.answer (state : LivenessState) (key : SessionKey) : LivenessAnswer :=
  let entry := state.sessions.get? key
  if state.stale then .unknown (entry.bind (·.cause))
  else match entry with
    | some entry =>
      if entry.state = "active" ∨ entry.state = "idle" then ⟨"active",none⟩ else .unknown entry.cause
    | none => if state.gone.has key then ⟨"gone",none⟩ else .unknown none

/-- The answers to the bindings of the references asked for, in order. -/
def readSessionLiveness (state : LivenessState) (bindings : List (Option SessionBinding)) :
    List LivenessAnswer :=
  bindings.map fun binding => match binding with
    | none => .unknown none
    | some binding => match binding.harness, binding.sessionId with
      | some harness, some sessionId => state.answer (toLex (harness,sessionId))
      | _, _ => ⟨"gone",none⟩

/-- Every stamp queued is an explicit `gone` entry of the applied batch, with a
time the clock showed while the batch was handled. -/
theorem sessionLiveness_ended {state : LivenessState} {batch : LivenessBatch} {route : Nat}
    {principal : String} {readings : Nat → Int} {stamp : GoneSession}
    (queued : stamp ∈ (sessionLiveness state batch route principal readings).ended) :
    (sessionLiveness state batch route principal readings).applied = true ∧
    (∃ i, stamp.endedAtMs = readings i) ∧
    ∃ session ∈ batch.sessions, session.state = "gone" ∧ session.harness = stamp.harness ∧
      session.sessionId = stamp.sessionId ∧ session.runner = stamp.runner := by
  have general : ∀ (sessions : List LivenessSession) (start : LivenessState × List GoneSession),
      stamp ∈ (sessions.foldl (fun acc session => applyEntry readings acc.1 acc.2 session) start).2 →
      stamp ∈ start.2 ∨ (∃ i, stamp.endedAtMs = readings i) ∧
        ∃ session ∈ sessions, session.state = "gone" ∧ session.harness = stamp.harness ∧
          session.sessionId = stamp.sessionId ∧ session.runner = stamp.runner := by
    intro sessions
    induction sessions with
    | nil => exact fun start member => .inl member
    | cons session rest ih =>
      intro start member
      rcases ih _ member with before | ⟨reading,entry,inside,rest⟩
      · simp only [applyEntry] at before
        split at before
        next gone =>
          simp only at before
          split at before
          next => exact .inl before
          next =>
            rcases List.mem_append.mp before with old | new
            · exact .inl old
            · obtain rfl := List.mem_singleton.mp new
              exact .inr ⟨⟨_,rfl⟩,session,List.mem_cons_self,gone,rfl,rfl,rfl⟩
        next => exact .inl before
      · exact .inr ⟨reading,entry,List.mem_cons_of_mem _ inside,rest⟩
  simp only [sessionLiveness] at queued ⊢
  split at queued
  next applied =>
    rcases general batch.sessions _ queued with absurd | shown
    · cases absurd
    · exact ⟨applied,shown⟩
  next => cases queued

end Entorhinal.Session
