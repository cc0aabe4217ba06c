import Entorhinal.SessionBinding

/-! When a bound session ended and how long an ended binding is kept. -/
namespace Entorhinal.Session

/-- How long a binding is kept after its session ended. -/
def sessionRetentionMs : Int := 30 * 24 * 60 * 60 * 1000

/-- Rows deleted in one retention transaction. -/
def pruneBatch : Nat := 500

inductive SessionEnd
  | notFound
  | ended (endedAtMs : Int)
  | alreadyEnded (endedAtMs : Int)
deriving DecidableEq, Repr

/-- A clean end the liveness feed reported for one host session. -/
structure GoneSession where
  harness : String
  sessionId : String
  runner : Option String
  endedAtMs : Int
deriving DecidableEq, Repr

/-- A runner named by the caller contradicts the recorded one. -/
def contradicts (named recorded : Option String) : Bool :=
  match named,recorded with
  | some named,some recorded => recorded != named
  | _,_ => false

/-- The runner an end records, left empty when another binding holds it. -/
def fillRunner (store : SessionStore) (row : SessionBinding) (sessionId : String) :
    Option String → Option String
  | some named =>
    if row.runner.isNone && (store.runnerSessionOwner named sessionId).isSome then none
    else some named
  | none => none

/-- The end's `UPDATE`. Its runner column is under a unique index. -/
def endBindings (bindings : Table RefKey SessionBinding) (harness sessionId : String)
    (runner : Option String) (nowMs : Int) : Table RefKey SessionBinding :=
  bindings.update fun _ row =>
    if hasSession harness sessionId row then
      { row with endedAtMs := some nowMs, runner := row.runner.or runner }
    else row

def endSession (store : SessionStore) (harness sessionId : String) (runner : Option String)
    (nowMs : Int) : SessionStore × Except AgentMutationError SessionEnd :=
  match store.bySession harness sessionId with
  | none => (store,.ok .notFound)
  | some (_,row) =>
    if contradicts runner row.runner then
      (store,refuse "runner_mismatch" ("this session is hosted by runner " ++ row.runner.getD "" ++
        ", not " ++ runner.getD "") [("runner",.text row.runner)])
    else match row.endedAtMs with
      | some endedAtMs => (store,.ok (.alreadyEnded endedAtMs))
      | none =>
        let runner := fillRunner store row sessionId runner
        let bindings := endBindings store.bindings harness sessionId runner nowMs
        if clashing bindings then (store,constraintFailed)
        else ({ store with bindings := bindings },.ok (.ended nowMs))

/-- The open bindings an end stamp writes. -/
def GoneSession.covers (stamp : GoneSession) (row : SessionBinding) : Bool :=
  hasSession stamp.harness stamp.sessionId row && row.endedAtMs.isNone &&
    (stamp.runner.isNone || row.runner.isNone || row.runner == stamp.runner)

def stampOne (bindings : Table RefKey SessionBinding) (stamp : GoneSession) :
    Table RefKey SessionBinding :=
  bindings.update fun _ row =>
    if stamp.covers row then { row with endedAtMs := some stamp.endedAtMs } else row

def stampGoneSessions (store : SessionStore) (stamps : List GoneSession) : SessionStore :=
  { store with bindings := stamps.foldl stampOne store.bindings }

def SessionStore.openMoveOf (store : SessionStore) (agentId : String) : Bool :=
  store.moves.any fun _ m => m.agentId == agentId && !m.step.isTerminal

/-- `now_ms.saturating_sub(SESSION_RETENTION_MS)`. -/
def pruneCutoff (nowMs : Int) : Int := max (nowMs - sessionRetentionMs) i64Min

/-- The rows a retention pass may delete. -/
def SessionStore.expired (store : SessionStore) (nowMs : Int) (row : SessionBinding) : Bool :=
  (row.endedAtMs.any fun ended => decide (ended < pruneCutoff nowMs)) && !store.openMoveOf row.agentId

/-- Deletes the selected bindings and, with them, their network histories. -/
def SessionStore.deleteBindings (store : SessionStore) (selected : List RefKey) : SessionStore :=
  { store with
    bindings := store.bindings.filter fun key _ => !selected.contains key
    network := store.network.filter fun key _ => !selected.contains key }

/-- One transaction of `prune_ended_sessions`: `selected` are the rows its
subquery returns, as many as the batch holds. -/
def pruneEndedSessions (store : SessionStore) (nowMs : Int) (selected : List RefKey) :
    Option SessionStore :=
  let expired := (store.bindings.filter fun _ row => store.expired nowMs row).keys
  if selected.Nodup ∧ selected.length = min pruneBatch expired.length ∧
      selected.all expired.contains then some (store.deleteBindings selected)
  else none

section Lemmas

variable {store : SessionStore} {key : RefKey}

theorem bySession_some {harness sessionId : String} {owner : RefKey} {row : SessionBinding}
    (found : store.bySession harness sessionId = some (owner,row)) :
    store.bindings.get? owner = some row ∧ hasSession harness sessionId row = true :=
  Table.find?_some found

/-- The end's `UPDATE` writes the one binding of the session. -/
theorem endBindings_get (indexed : Indexed store.bindings) {harness sessionId : String}
    {runner : Option String} {nowMs : Int} {owner : RefKey} {stored row' : SessionBinding}
    (looked : store.bySession harness sessionId = some (owner,stored))
    (found : (endBindings store.bindings harness sessionId runner nowMs).get? key = some row') :
    ∃ row, store.bindings.get? key = some row ∧
      (row' = row ∧ key ≠ owner ∨ key = owner ∧ row = stored ∧
        row' = { stored with endedAtMs := some nowMs, runner := stored.runner.or runner }) := by
  obtain ⟨present,session⟩ := bySession_some looked
  simp only [endBindings,Table.get?_update,Option.map_eq_some_iff] at found
  obtain ⟨row,before,rfl⟩ := found
  refine ⟨row,before,?_⟩
  by_cases same : hasSession harness sessionId row = true
  · obtain rfl := indexed.same before present same session
    obtain rfl : row = stored := Option.some.inj (before.symm.trans present)
    exact .inr ⟨rfl,rfl,by rw [if_pos same]⟩
  · refine .inl ⟨if_neg same,?_⟩
    rintro rfl
    obtain rfl : row = stored := Option.some.inj (before.symm.trans present)
    exact same session

/-- A binding with the runner filled in still shares no runner session. -/
theorem fillRunner_apart {harness sessionId : String} {runner : Option String} {nowMs : Int}
    {row other : SessionBinding} {b : RefKey} (found : store.bindings.get? b = some other)
    (apart : row.compatible other = true) (session : hasSession harness sessionId row = true) :
    ({ row with
        endedAtMs := some nowMs
        runner := row.runner.or (fillRunner store row sessionId runner) } :
      SessionBinding).compatible other = true := by
  cases recorded : row.runner with
  | some r =>
    simpa only [SessionBinding.compatible,recorded,Option.some_or] using apart
  | none =>
    have first := apart
    simp only [SessionBinding.compatible,recorded,Bool.and_eq_true] at first
    cases filled : fillRunner store row sessionId runner with
    | none => simpa [SessionBinding.compatible,filled] using first.1
    | some named =>
      have free : store.runnerSessionOwner named sessionId = none := by
        cases runner with
        | none => cases filled
        | some r =>
          simp only [fillRunner,recorded,Option.isNone_none,Bool.true_and] at filled
          split at filled
          next => cases filled
          next absent => cases filled; simpa using absent
      have clear := Table.find?_none.mp free b other found
      simp only [hasSession,Bool.and_eq_true,beq_iff_eq] at session
      simp only [SessionBinding.compatible,Option.none_or,Bool.and_eq_true]
      refine ⟨first.1,?_⟩
      simp only [session.2,Option.isSome_some,Bool.true_and,Bool.not_eq_true',Bool.and_eq_false_iff,
        beq_eq_false_iff_ne] at clear ⊢
      grind

theorem endBindings_indexed (indexed : Indexed store.bindings) {harness sessionId : String}
    (runner : Option String) (nowMs : Int) {owner : RefKey} {stored : SessionBinding}
    (looked : store.bySession harness sessionId = some (owner,stored)) :
    Indexed (endBindings store.bindings harness sessionId
      (fillRunner store stored sessionId runner) nowMs) := by
  have session := (bySession_some looked).2
  intro a b left right atA atB different
  obtain ⟨left₀,beforeA,changeA⟩ := endBindings_get indexed looked atA
  obtain ⟨right₀,beforeB,changeB⟩ := endBindings_get indexed looked atB
  have apart := indexed a b left₀ right₀ beforeA beforeB different
  rcases changeA with ⟨rfl,_⟩ | ⟨rfl,rfl,rfl⟩ <;> rcases changeB with ⟨rfl,_⟩ | ⟨rfl,rfl,rfl⟩
  · exact apart
  · rw [compatible_comm] at apart ⊢
    exact fillRunner_apart beforeA apart session
  · exact fillRunner_apart beforeB apart session
  · exact absurd rfl different

/-- Ending a session either writes nothing or ends its open binding, with the
runner filled in. -/
theorem endSession_cases (indexed : Indexed store.bindings) (harness sessionId : String)
    (runner : Option String) (nowMs : Int) :
    (∃ result, endSession store harness sessionId runner nowMs = (store,result) ∧
      result ≠ constraintFailed) ∨
    (∃ owner row, store.bySession harness sessionId = some (owner,row) ∧ row.endedAtMs = none ∧
      contradicts runner row.runner = false ∧
      endSession store harness sessionId runner nowMs = ({ store with
        bindings := endBindings store.bindings harness sessionId
          (fillRunner store row sessionId runner) nowMs },.ok (.ended nowMs))) := by
  unfold endSession
  split
  next => exact .inl ⟨_,rfl,nofun⟩
  next owner stored looked =>
    split
    next => exact .inl ⟨_,rfl,by simp [refuse,constraintFailed]⟩
    next agrees =>
      split
      next => exact .inl ⟨_,rfl,nofun⟩
      next isOpen =>
        have clear := clashing_false.mpr (endBindings_indexed indexed runner nowMs looked)
        refine .inr ⟨owner,stored,looked,isOpen,by simpa using agrees,?_⟩
        simp [clear]

/-- Ending a session changes only its own open binding: the end time, and a
runner that was missing. -/
theorem endSession_get (indexed : Indexed store.bindings) {harness sessionId : String}
    {runner : Option String} {nowMs : Int} {row' : SessionBinding}
    (found : (endSession store harness sessionId runner nowMs).1.bindings.get? key = some row') :
    ∃ row, store.bindings.get? key = some row ∧ (row' = row ∨
      (hasSession harness sessionId row = true ∧ row.endedAtMs = none ∧
        contradicts runner row.runner = false ∧
        ∃ filled, row' = { row with endedAtMs := some nowMs, runner := filled })) := by
  rcases endSession_cases indexed harness sessionId runner nowMs with
    ⟨result,same,_⟩ | ⟨owner,stored,looked,isOpen,agrees,ended⟩
  · rw [same] at found
    exact ⟨row',found,.inl rfl⟩
  · rw [ended] at found
    obtain ⟨row,before,⟨rfl,_⟩ | ⟨rfl,rfl,rfl⟩⟩ := endBindings_get indexed looked found
    · exact ⟨row',before,.inl rfl⟩
    · exact ⟨row,before,.inr ⟨(bySession_some looked).2,isOpen,agrees,_,rfl⟩⟩

theorem endSession_indexed (indexed : Indexed store.bindings) (harness sessionId : String)
    (runner : Option String) (nowMs : Int) :
    Indexed (endSession store harness sessionId runner nowMs).1.bindings := by
  rcases endSession_cases indexed harness sessionId runner nowMs with
    ⟨result,same,_⟩ | ⟨owner,stored,looked,_,_,ended⟩
  · rw [same]; exact indexed
  · rw [ended]; exact endBindings_indexed indexed runner nowMs looked

/-- A stamp sets the end of a binding it covers and changes nothing else. -/
theorem stampOne_get {bindings : Table RefKey SessionBinding} {stamp : GoneSession} :
    (stampOne bindings stamp).get? key = (bindings.get? key).map fun row =>
      if stamp.covers row then { row with endedAtMs := some stamp.endedAtMs } else row := by
  simp [stampOne]

/-- The end time a run of stamps leaves on a binding is the one it had, or that
of the first stamp that covers it. -/
theorem stampGoneSessions_get (stamps : List GoneSession) {row' : SessionBinding}
    (found : (stampGoneSessions store stamps).bindings.get? key = some row') :
    ∃ row, store.bindings.get? key = some row ∧
      (row' = row ∨ ∃ stamp ∈ stamps, stamp.covers row = true ∧
        row' = { row with endedAtMs := some stamp.endedAtMs }) := by
  have general : ∀ bindings : Table RefKey SessionBinding,
      (stamps.foldl stampOne bindings).get? key = some row' →
      ∃ row, bindings.get? key = some row ∧ (row' = row ∨ ∃ stamp ∈ stamps, stamp.covers row = true ∧
        row' = { row with endedAtMs := some stamp.endedAtMs }) := by
    clear found
    induction stamps with
    | nil => exact fun bindings found => ⟨row',found,.inl rfl⟩
    | cons stamp rest ih =>
      intro bindings found
      obtain ⟨middle,after,change⟩ := ih (stampOne bindings stamp) found
      rw [stampOne_get,Option.map_eq_some_iff] at after
      obtain ⟨row,before,rfl⟩ := after
      refine ⟨row,before,?_⟩
      by_cases covered : stamp.covers row = true
      · rw [if_pos covered] at change
        rcases change with same | ⟨later,_,again,_⟩
        · exact .inr ⟨stamp,List.mem_cons_self,covered,same⟩
        · -- a stamped binding is no longer open, so no later stamp covers it
          simp [GoneSession.covers] at again
      · rw [if_neg covered] at change
        exact change.imp_right fun ⟨later,member,rest⟩ => ⟨later,List.mem_cons_of_mem _ member,rest⟩
  exact general store.bindings found

theorem prune_ok {nowMs : Int} {selected : List RefKey} {store' : SessionStore}
    (ok : pruneEndedSessions store nowMs selected = some store') (key : RefKey) :
    (∀ row, store.bindings.get? key = some row → store'.bindings.get? key = none →
      store.expired nowMs row = true) ∧
    (∀ row, store'.bindings.get? key = some row → store.bindings.get? key = some row) := by
  unfold pruneEndedSessions at ok
  simp only at ok
  split at ok
  next selects =>
    cases ok
    constructor
    · intro row found gone
      simp only [SessionStore.deleteBindings,Table.get?_filter,found,Option.filter] at gone
      split at gone
      next => cases gone
      next dropped =>
        have member : key ∈ selected := by simpa using dropped
        have listed := List.all_eq_true.mp selects.2.2 key member
        rw [List.contains_iff_mem,Table.mem_keys,Table.has_iff] at listed
        obtain ⟨row',kept⟩ := listed
        rw [Table.get?_filter,found,Option.filter] at kept
        split at kept
        next holds => exact holds
        next => cases kept
    · intro row found
      simp only [SessionStore.deleteBindings,Table.get?_filter,Option.filter_eq_some_iff] at found
      exact found.1
  next => cases ok

end Lemmas
end Entorhinal.Session
