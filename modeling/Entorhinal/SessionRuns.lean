import Entorhinal.SessionInstall
import Entorhinal.Transition

/-! Session bindings over every order of the store's session calls: three unique
keys, one owner, rising histories. -/
namespace Entorhinal.SessionRuns
open Session Transition

/-- The session transactions of the store, with the clock readings of each. -/
inductive Call
  | register (request : SessionRegistration) (commitMs : Int)
  | endSession (harness sessionId : String) (runner : Option String) (nowMs : Int)
  | stampGone (stamps : List GoneSession)
  | setNetwork (harness sessionId network : String) (now : Int)
  | prune (nowMs : Int) (selected : List RefKey)
  | activate (cutId : String) (row : OpenMove) (activatedAtMs : Option Int) (refs : List RefKey)
      (carried : List CarriedBinding)

/-- A pass of retention deletes what its subquery returns, so it may only be
taken with such rows. -/
def perform (store : SessionStore) : Call → Option (Except AgentMutationError SessionStore)
  | .register request commitMs => some (registerSession store request commitMs)
  | .endSession harness sessionId runner nowMs =>
    let (store',result) := Session.endSession store harness sessionId runner nowMs
    some (result.map fun _ => store')
  | .stampGone stamps => some (.ok (stampGoneSessions store stamps))
  | .setNetwork harness sessionId network now =>
    some ((setSessionNetwork store harness sessionId network now).map Prod.fst)
  | .prune nowMs selected => (pruneEndedSessions store nowMs selected).map .ok
  | .activate cutId row activatedAtMs refs carried =>
    some ((activateAgentMoveCarrying store cutId row activatedAtMs refs carried).map Prod.fst)

/-- Clock readings are `i64`, carried rows were imported, and a driver writes
its own row of the cut with the step moved on. -/
def Call.Real (store : SessionStore) : Call → Prop
  | .register _ commitMs => inI64 commitMs = true
  | .setNetwork _ _ _ now => inI64 now = true
  | .activate cutId row _ _ carried => (∀ binding ∈ carried, binding.Imported) ∧
    ∀ current, store.moves.get? cutId = some current → row = { current with step := row.step }
  | _ => True

/-- Besides the session calls, other transactions change the tables they read,
under the index that keeps one open move an agent. -/
inductive Label
  | call (call : Call)
  | outside (cutOver : Bool) (agents : Table String AgentPresence) (moves : Table String OpenMove)
      (claims : Table String ClaimCache.CachedClaim) (self : Option String)
      (memberName : Table String String) (origin : Option String)

/-- A call that fails leaves the store as it was. -/
def next (store : SessionStore) : Label → Option SessionStore
  | .call call => (perform store call).map fun
    | .ok store' => store'
    | .error _ => store
  | .outside cutOver agents moves claims self memberName origin => some { store with
      cutOver := cutOver
      agents := agents
      moves := moves
      claims := claims
      selfAuthor := self
      memberName := memberName
      storeOrigin := origin }

def Allowed (store : SessionStore) : Label → Prop
  | .call call => call.Real store
  | .outside _ _ moves _ _ _ _ => OneOpen moves

/-- A store without sessions. -/
structure Fresh (store : SessionStore) : Prop where
  bindings : store.bindings = ∅
  network : store.network = ∅
  moves : OneOpen store.moves

/-- No key names two bindings. -/
structure Injective (store : SessionStore) : Prop where
  ref : store.bindings.keys.Nodup
  session : ∀ a b left right harness sessionId, store.bindings.get? a = some left →
    store.bindings.get? b = some right → left.harness = some harness → right.harness = some harness →
    left.sessionId = some sessionId → right.sessionId = some sessionId → a = b
  runner : ∀ a b left right runner sessionId, store.bindings.get? a = some left →
    store.bindings.get? b = some right → left.runner = some runner → right.runner = some runner →
    left.sessionId = some sessionId → right.sessionId = some sessionId → a = b

/-- Every history belongs to a binding and rises strictly. -/
def HistoriesRise (store : SessionStore) : Prop :=
  ∀ key history, store.network.get? key = some history → store.bindings.has key = true ∧
    history.Pairwise fun a b => a.sinceMs < b.sinceMs

/-- A binding another machine holds is ended. -/
def HeldEnded (store : SessionStore) : Prop :=
  ∀ key row, store.bindings.get? key = some row → row.heldOn.isSome = true →
    row.endedAtMs.isSome = true

/-- The key a binding has after the call: a registration about it gives it its
own. -/
def Call.keyAfter (key : RefKey) (row : SessionBinding) : Call → RefKey
  | .register request _ => if request.concerns key row then request.key else key
  | _ => key

/-- An accepted registration: one live binding for its reference and host
session, with the whole history the session had; no other binding changes. -/
structure Registered (store store' : SessionStore) (request : SessionRegistration) : Prop where
  one : ∃ row, store'.bindings.get? request.key = some row ∧ row.endedAtMs = none ∧
    row.harness = some request.harness ∧ row.sessionId = some request.sessionId ∧
    row.agentId = request.agentId
  alone : ∀ key row, store'.bindings.get? key = some row →
    hasSession request.harness request.sessionId row = true → key = request.key
  history : ∀ key row, store.bindings.get? key = some row → request.concerns key row = true →
    ∃ new, store'.historyOf request.key = store.historyOf key ++ new
  moved : ∀ key row, store.bindings.get? key = some row → request.concerns key row = true →
    row.heldOn = none ∧ (key ≠ request.key → store'.bindings.get? key = none)
  others : ∀ key row, store.bindings.get? key = some row → request.concerns key row = false →
    store'.bindings.get? key = some row ∧ store'.network.get? key = store.network.get? key
  fresh : ∀ key row, store'.bindings.get? key = some row → key ≠ request.key →
    store.bindings.get? key = some row

/-- What an accepted call does to the bindings that were there. -/
structure CallLaw (store : SessionStore) (call : Call) (store' : SessionStore) : Prop where
  owners : ∀ key row, store.bindings.get? key = some row →
    (∃ row', store'.bindings.get? (call.keyAfter key row) = some row' ∧ row'.agentId = row.agentId) ∨
    (∃ nowMs selected, call = .prune nowMs selected ∧ store.expired nowMs row = true ∧
      store'.bindings.get? key = none)
  registers : ∀ request commitMs, call = .register request commitMs → Registered store store' request

/-- The call would append to a history whose newest entry is stamped with the
last `i64` instant. -/
def Exhausted (store : SessionStore) : Call → Prop
  | .register request _ => ∃ route network,
    Passes store request route (some (network,.append (some i64Max)))
  | .setNetwork harness sessionId network _ => networkValues.contains network = true ∧
    ∃ key row, store.bySession harness sessionId = some (key,row) ∧
      planNetwork store key network = .ok (.append (some i64Max))
  | _ => False

/-- Where the bindings after an accepted call come from, and what it may do to
the moves. -/
structure CallEffect (store : SessionStore) (call : Call) (store' : SessionStore) : Prop where
  origins : ∀ key row', store'.bindings.get? key = some row' →
    (∃ row, store.bindings.get? key = some row ∧ row'.agentId = row.agentId ∧
      (row'.endedAtMs = none → row.endedAtMs = none)) ∨
    (∃ request commitMs, call = .register request commitMs ∧ key = request.key ∧
      row'.agentId = request.agentId) ∨
    (∃ cutId row activatedAtMs refs carried, call = .activate cutId row activatedAtMs refs carried ∧
      row'.agentId = row.agentId)
  fenced : ∀ request commitMs, call = .register request commitMs →
    checkMovingRegistration store request = .ok ()
  moves : store'.moves = store.moves ∨
    ∃ cutId row activatedAtMs refs carried current,
      call = .activate cutId row activatedAtMs refs carried ∧ store.moves.get? cutId = some current ∧
      current.side = .receiver ∧ current.step = .activating ∧ row.step = .activated ∧
      store'.moves = store.moves.insert cutId row
  activates : ∀ cutId row activatedAtMs refs carried,
    call = .activate cutId row activatedAtMs refs carried → ∃ current,
      store.moves.get? cutId = some current ∧ current.side = .receiver ∧ current.step = .activating

/-- How a call ends: refused with nothing written, failed on a full history, or
done. -/
inductive Outcome (store : SessionStore) (call : Call) :
    Except AgentMutationError SessionStore → Prop
  | refused (e : AgentMutationError) (other : e ≠ ⟨"storage_error","UNIQUE constraint failed",[]⟩) :
    Outcome store call (.error e)
  | failed (exhausted : Exhausted store call) : Outcome store call constraintFailed
  | done (store' : SessionStore) (coherent : Coherent store') (law : CallLaw store call store')
    (effect : CallEffect store call store') (moves : OneOpen store'.moves) :
    Outcome store call (.ok store')

section Steps

variable {store store' : SessionStore} {request : SessionRegistration} {commitMs : Int}

theorem injective (coherent : Coherent store) : Injective store := by
  refine ⟨?_,?_,?_⟩
  · have sorted := List.pairwise_map.mpr store.bindings.sorted
    exact sorted.imp fun less => ne_of_lt less
  · intro a b left right harness sessionId atA atB ha hb sa sb
    have first : hasSession harness sessionId left = true := by simp [hasSession,ha,sa]
    have second : hasSession harness sessionId right = true := by simp [hasSession,hb,sb]
    exact coherent.indexed.same atA atB first second
  · intro a b left right runner sessionId atA atB ra rb sa sb
    have first := runnerSessionOwner_of coherent.indexed atA ra sa
    have second := runnerSessionOwner_of coherent.indexed atB rb sb
    exact congrArg Prod.fst (Option.some.inj (first.symm.trans second))

theorem historiesRise (coherent : Coherent store) : HistoriesRise store := by
  intro key history found
  have rising := coherent.rising key
  rw [SessionStore.historyOf,found,Option.getD_some] at rising
  exact ⟨coherent.bound key (Table.has_iff.mpr ⟨history,found⟩),rising.1⟩

theorem takes_registered {previous : RefKey} {now : Int} (takes : Takes store store' request previous)
    (grown : Grows now (store.historyOf previous) (store'.historyOf request.key)) :
    Registered store store' request := by
  obtain ⟨own,here,isOpen,_,harness,session,agent,_⟩ := takes.opened
  refine ⟨⟨own,here,isOpen,harness,session,agent⟩,?_,?_,?_,?_,?_⟩
  · intro key row found same
    have ours : hasSession request.harness request.sessionId own = true := by
      simp [hasSession,harness,session]
    exact takes.indexed.same found here same ours
  · intro key row found about
    obtain rfl := takes.concerned key row found about
    rcases grown with same | ⟨entry,longer,_⟩
    · exact ⟨[],by rw [same,List.append_nil]⟩
    · exact ⟨[entry],longer⟩
  · intro key row found about
    obtain rfl := takes.concerned key row found about
    exact ⟨(takes.owned row found).2.2,fun away => by rw [takes.others key away,if_pos rfl]⟩
  · intro key row found unrelated
    have away : key ≠ request.key := by
      rintro rfl
      simp [SessionRegistration.concerns] at unrelated
    have apart : key ≠ previous := by
      rintro rfl
      rw [(takes.owned row found).1] at unrelated
      cases unrelated
    exact ⟨by rw [takes.others key away,if_neg apart,found],by rw [takes.network key away,if_neg apart]⟩
  · intro key row found away
    rw [takes.others key away] at found
    split at found
    next => cases found
    next => exact found

theorem register_outcome (coherent : Coherent store) (oneOpen : OneOpen store.moves)
    (clock : commitMs ≤ i64Max) :
    Outcome store (.register request commitMs) (registerSession store request commitMs) := by
  rcases registerSession_cases store request commitMs with ⟨e,refused,other⟩ | ⟨route,plan,passes⟩
  · rw [refused]
    exact .refused e (by rintro rfl; exact other rfl)
  · rcases passes.takes coherent clock with ⟨network,rfl,failed⟩ |
      ⟨room,store',done,takes,coherent',grown⟩
    · rw [failed]
      exact .failed ⟨route,network,passes⟩
    · rw [done]
      have registered := takes_registered takes grown
      refine .done store' coherent' ⟨?_,?_⟩ ⟨?_,?_,?_,nofun⟩ ?_
      · intro key row found
        refine .inl ?_
        simp only [Call.keyAfter]
        split
        next about =>
          obtain ⟨own,here,_,_,_,agent⟩ := registered.one
          obtain rfl := takes.concerned key row found about
          exact ⟨own,here,agent.trans (takes.owned row found).2.1.symm⟩
        next unrelated =>
          exact ⟨row,(registered.others key row found (by simpa using unrelated)).1,rfl⟩
      · rintro request' commitMs' same
        cases same
        exact registered
      · intro key row' found
        by_cases same : key = request.key
        · obtain ⟨own,here,_,_,_,agent⟩ := registered.one
          obtain rfl : own = row' := Option.some.inj (here.symm.trans (same ▸ found))
          exact .inr (.inl ⟨request,commitMs,rfl,same,agent⟩)
        · exact .inl ⟨row',registered.fresh key row' found same,rfl,id⟩
      · rintro request' commitMs' same
        cases same
        exact passes.moving
      · rw [takes.frame]; exact .inl rfl
      · rw [takes.frame]; exact oneOpen

/-- Bindings that stay under their keys with their agents obey the law of a call
that registers nothing. -/
theorem callLaw_of_kept {call : Call} (plain : ∀ request commitMs, call ≠ .register request commitMs)
    (kept : ∀ key row, store.bindings.get? key = some row → ∃ row',
      store'.bindings.get? key = some row' ∧ row'.agentId = row.agentId) :
    CallLaw store call store' := by
  refine ⟨fun key row found => .inl ?_,fun request commitMs same => absurd same (plain _ _)⟩
  have here : call.keyAfter key row = key := by
    cases call with
    | register request commitMs => exact absurd rfl (plain request commitMs)
    | _ => rfl
  rw [here]
  exact kept key row found

/-- A call that neither registers nor activates leaves rows it found. -/
theorem callEffect_of_kept {call : Call} (plain : ∀ request commitMs, call ≠ .register request commitMs)
    (still : ∀ cutId row activatedAtMs refs carried,
      call ≠ .activate cutId row activatedAtMs refs carried)
    (moves : store'.moves = store.moves)
    (back : ∀ key row', store'.bindings.get? key = some row' → ∃ row,
      store.bindings.get? key = some row ∧ row'.agentId = row.agentId ∧
        (row'.endedAtMs = none → row.endedAtMs = none)) : CallEffect store call store' :=
  ⟨fun key row' found => .inl (back key row' found),fun _ _ same => absurd same (plain _ _),.inl moves,
    fun _ _ _ _ _ same => absurd same (still _ _ _ _ _)⟩

/-- Rows that change neither key, session nor runner, and end without reopening,
keep the store coherent. -/
theorem coherent_of_update (coherent : Coherent store)
    {bindings : Table RefKey SessionBinding} (indexed : Indexed bindings)
    (forward : ∀ key row, store.bindings.get? key = some row → bindings.has key = true)
    (back : ∀ key row', bindings.get? key = some row' → ∃ row, store.bindings.get? key = some row ∧
      row'.heldOn = row.heldOn ∧ (row.endedAtMs.isSome = true → row'.endedAtMs.isSome = true)) :
    Coherent { store with bindings := bindings } := by
  refine ⟨indexed,?_,?_,coherent.rising⟩
  · intro key row' found held
    obtain ⟨row,before,same,ends⟩ := back key row' found
    exact ends (coherent.held key row before (same ▸ held))
  · intro key recorded
    obtain ⟨row,found⟩ := Table.has_iff.mp (coherent.bound key recorded)
    exact forward key row found

theorem endBindings_forward {harness sessionId : String} {runner : Option String} {nowMs : Int}
    {bindings : Table RefKey SessionBinding} {key : RefKey} {row : SessionBinding}
    (found : bindings.get? key = some row) : ∃ row',
      (endBindings bindings harness sessionId runner nowMs).get? key = some row' ∧
        row'.agentId = row.agentId := by
  simp only [endBindings,Table.get?_update,found,Option.map_some]
  split
  next => exact ⟨_,rfl,rfl⟩
  next => exact ⟨_,rfl,rfl⟩

theorem endSession_outcome (coherent : Coherent store) (oneOpen : OneOpen store.moves)
    (harness sessionId : String) (runner : Option String) (nowMs : Int) :
    Outcome store (.endSession harness sessionId runner nowMs)
      ((Session.endSession store harness sessionId runner nowMs).2.map fun _ =>
        (Session.endSession store harness sessionId runner nowMs).1) := by
  rcases endSession_cases coherent.indexed harness sessionId runner nowMs with
    ⟨result,same,other⟩ | ⟨owner,stored,looked,isOpen,agrees,ended⟩
  · rw [same]
    cases result with
    | error e => exact .refused e (by rintro rfl; exact other rfl)
    | ok =>
      exact .done store coherent (callLaw_of_kept nofun fun key row found => ⟨row,found,rfl⟩)
        (callEffect_of_kept nofun nofun rfl fun key row found => ⟨row,found,rfl,id⟩) oneOpen
  · rw [ended]
    refine .done _ (coherent_of_update coherent (endBindings_indexed coherent.indexed runner nowMs
      looked) ?_ ?_) (callLaw_of_kept nofun fun key row found => endBindings_forward found)
      (callEffect_of_kept nofun nofun rfl ?_) oneOpen
    · intro key row found
      obtain ⟨row',there,_⟩ := endBindings_forward found
      exact Table.has_iff.mpr ⟨row',there⟩
    · intro key row' found
      obtain ⟨row,before,⟨rfl,_⟩ | ⟨rfl,rfl,rfl⟩⟩ := endBindings_get coherent.indexed looked found
      · exact ⟨row',before,rfl,id⟩
      · exact ⟨row,before,rfl,fun _ => rfl⟩
    · intro key row' found
      obtain ⟨row,before,⟨rfl,_⟩ | ⟨rfl,rfl,rfl⟩⟩ := endBindings_get coherent.indexed looked found
      · exact ⟨row',before,rfl,id⟩
      · exact ⟨row,before,rfl,nofun⟩

theorem stampGone_forward (stamps : List GoneSession) {bindings : Table RefKey SessionBinding}
    {key : RefKey} {row : SessionBinding} (found : bindings.get? key = some row) :
    ∃ row', (stamps.foldl stampOne bindings).get? key = some row' ∧ row'.agentId = row.agentId := by
  induction stamps generalizing bindings row with
  | nil => exact ⟨row,found,rfl⟩
  | cons stamp rest ih =>
    have stamped : (stampOne bindings stamp).get? key = some
        (if stamp.covers row then { row with endedAtMs := some stamp.endedAtMs } else row) := by
      rw [stampOne_get,found,Option.map_some]
    obtain ⟨row',there,same⟩ := ih stamped
    refine ⟨row',there,same.trans ?_⟩
    split <;> rfl

theorem stampGone_outcome (coherent : Coherent store) (oneOpen : OneOpen store.moves)
    (stamps : List GoneSession) :
    Outcome store (.stampGone stamps) (.ok (stampGoneSessions store stamps)) := by
  have back : ∀ key row', (stamps.foldl stampOne store.bindings).get? key = some row' →
      ∃ row, store.bindings.get? key = some row ∧
        (row' = row ∨ ∃ t, row' = { row with endedAtMs := some t }) := by
    intro key row' found
    obtain ⟨row,before,same | ⟨stamp,_,_,same⟩⟩ := stampGoneSessions_get stamps found
    · exact ⟨row,before,.inl same⟩
    · exact ⟨row,before,.inr ⟨_,same⟩⟩
  refine .done _ (coherent_of_update coherent (coherent.indexed.mono ?_) ?_ ?_)
    (callLaw_of_kept nofun fun key row found => stampGone_forward stamps found)
    (callEffect_of_kept nofun nofun rfl ?_) oneOpen
  · intro key row' found
    obtain ⟨row,before,rfl | ⟨t,rfl⟩⟩ := back key row' found
    · exact ⟨row',before,rfl,rfl,rfl⟩
    · exact ⟨row,before,rfl,rfl,rfl⟩
  · intro key row found
    obtain ⟨row',there,_⟩ := stampGone_forward stamps found
    exact Table.has_iff.mpr ⟨row',there⟩
  · intro key row' found
    obtain ⟨row,before,rfl | ⟨t,rfl⟩⟩ := back key row' found
    · exact ⟨row',before,rfl,id⟩
    · exact ⟨row,before,rfl,fun _ => rfl⟩
  · intro key row' found
    obtain ⟨row,before,rfl | ⟨t,rfl⟩⟩ := back key row' found
    · exact ⟨row',before,rfl,id⟩
    · exact ⟨row,before,rfl,nofun⟩

theorem setNetwork_outcome (coherent : Coherent store) (oneOpen : OneOpen store.moves)
    (harness sessionId network : String) {now : Int} (clock : now ≤ i64Max) :
    Outcome store (.setNetwork harness sessionId network now)
      ((setSessionNetwork store harness sessionId network now).map Prod.fst) := by
  unfold setSessionNetwork
  split
  next => exact .refused _ (by simp)
  next known =>
    split
    next => exact .refused _ (by simp)
    next key row looked =>
      have kept : CallLaw store (.setNetwork harness sessionId network now) store :=
        callLaw_of_kept nofun fun key row found => ⟨row,found,rfl⟩
      rcases planNetwork_cases store key network with
        ⟨code,message,refused,other⟩ | ⟨current,planned⟩ | ⟨planned,_⟩
      · simp only [refused,bind,Except.bind]
        exact .refused _ (by rintro ⟨⟩; exact other rfl)
      · simp only [planned,bind,Except.bind]
        exact .done store coherent kept
          (callEffect_of_kept nofun nofun rfl fun key row found => ⟨row,found,rfl,id⟩) oneOpen
      · simp only [planned,bind,Except.bind]
        obtain ⟨full,room⟩ := @applyNetworkPlan_append _ _ network _ (coherent.rising key) clock
        by_cases last : (store.historyOf key).getLast?.map (·.sinceMs) = some i64Max
        · simp only [full last]
          refine .failed ⟨by simpa using known,key,row,looked,?_⟩
          rw [planned,last]
        · obtain ⟨entry,_,_,rises,recorded⟩ := room last
          simp only [recorded]
          refine .done _ ⟨coherent.indexed,coherent.held,?_,?_⟩
            (callLaw_of_kept nofun fun key row found => ⟨row,found,rfl⟩)
            (callEffect_of_kept nofun nofun rfl fun key row found => ⟨row,found,rfl,id⟩) oneOpen
          · intro other recorded
            rw [Table.has_insert] at recorded
            by_cases same : other = key
            · exact Table.has_iff.mpr ⟨row,same ▸ (bySession_some looked).1⟩
            · exact coherent.bound other (by simpa [same] using recorded)
          · intro other
            by_cases same : other = key
            · simpa [SessionStore.historyOf,same] using rises
            · simpa [SessionStore.historyOf,same] using coherent.rising other

theorem prune_outcome (coherent : Coherent store) (oneOpen : OneOpen store.moves) {nowMs : Int}
    {selected : List RefKey} (pruned : pruneEndedSessions store nowMs selected = some store') :
    Outcome store (.prune nowMs selected) (.ok store') := by
  have shape : store' = store.deleteBindings selected := by
    unfold pruneEndedSessions at pruned
    simp only at pruned
    split at pruned
    next => exact (Option.some.inj pruned).symm
    next => cases pruned
  have back : ∀ key row, store'.bindings.get? key = some row → store.bindings.get? key = some row :=
    fun key row => (prune_ok pruned key).2 row
  refine .done store' ⟨?_,?_,?_,?_⟩ ⟨?_,nofun⟩ (callEffect_of_kept nofun nofun (by rw [shape]; rfl)
    fun key row found => ⟨row,back key row found,rfl,id⟩) (by rw [shape]; exact oneOpen)
  · exact coherent.indexed.mono fun key row found => ⟨row,back key row found,rfl,rfl,rfl⟩
  · exact fun key row found => coherent.held key row (back key row found)
  · intro key recorded
    rw [shape] at recorded ⊢
    simp only [SessionStore.deleteBindings,Table.has,Table.get?_filter] at recorded ⊢
    obtain ⟨history,found⟩ := Option.isSome_iff_exists.mp recorded
    obtain ⟨there,left⟩ := Option.filter_eq_some_iff.mp found
    obtain ⟨row,present⟩ := Table.has_iff.mp (coherent.bound key (Table.has_iff.mpr ⟨history,there⟩))
    exact Option.isSome_iff_exists.mpr ⟨row,Option.filter_eq_some_iff.mpr ⟨present,left⟩⟩
  · intro key
    have rising := coherent.rising key
    rw [shape]
    simp only [SessionStore.historyOf,SessionStore.deleteBindings,Table.get?_filter] at rising ⊢
    cases found : store.network.get? key with
    | none => exact ⟨.nil,fun _ none => absurd none List.not_mem_nil⟩
    | some history =>
      rw [found] at rising
      by_cases gone : selected.contains key
      · simp only [Option.filter_some,gone]
        exact ⟨.nil,fun _ none => absurd none List.not_mem_nil⟩
      · have left : selected.contains key = false := Bool.not_eq_true _ ▸ gone
        simpa only [Option.filter_some,left,Bool.not_false,if_true] using rising
  · intro key row found
    cases after : store'.bindings.get? key with
    | none => exact .inr ⟨nowMs,selected,rfl,(prune_ok pruned key).1 row found after,rfl⟩
    | some row' =>
      have same := back key row' after
      rw [found] at same
      exact .inl ⟨row',after,by rw [Option.some.inj same]⟩

theorem activate_outcome (coherent : Coherent store) (oneOpen : OneOpen store.moves) {cutId : String}
    {row : OpenMove} {activatedAtMs : Option Int} {refs : List RefKey} {carried : List CarriedBinding}
    (imported : ∀ binding ∈ carried, binding.Imported)
    (ours : ∀ current, store.moves.get? cutId = some current → row.agentId = current.agentId) :
    Outcome store (.activate cutId row activatedAtMs refs carried)
      ((activateAgentMoveCarrying store cutId row activatedAtMs refs carried).map Prod.fst) := by
  rcases activateAgentMoveCarrying_cases coherent oneOpen imported ours with
    ⟨e,refused,other⟩ |
    ⟨current,installed,outcome,found,side,step,activated,owned,coherent',extended,done⟩
  · rw [refused]
    exact .refused e other
  · rw [done]
    refine .done _ ⟨coherent'.indexed,coherent'.held,coherent'.bound,coherent'.rising⟩
      (callLaw_of_kept nofun fun key row found => ⟨row,extended.kept key row found,rfl⟩)
      ⟨?_,nofun,.inr ⟨_,_,_,_,_,current,rfl,found,side,step,activated,rfl⟩,?_⟩ ?_
    · intro key row' there
      rcases extended.fresh key row' there with before | ⟨_,theirs⟩
      · exact .inl ⟨row',before,rfl,id⟩
      · exact .inr (.inr ⟨_,_,_,_,_,rfl,theirs⟩)
    · intro cutId' row' activatedAtMs' refs' carried' same
      cases same
      exact ⟨current,found,side,step⟩
    intro a b left right atA atB openA openB same
    simp only [Table.get?_insert] at atA atB
    have isOpen : current.step.isTerminal = false := by rw [step]; rfl
    split at atA <;> split at atB
    next sameA sameB => exact sameA.trans sameB.symm
    next sameA sameB =>
      cases atA
      exact sameA.trans (oneOpen cutId b current right found atB isOpen openB
        ((ours current found).symm.trans same))
    next sameA sameB =>
      cases atB
      exact (oneOpen a cutId left current atA found openA isOpen
        (same.trans (ours current found))).trans sameB.symm
    next => exact oneOpen a b left right atA atB openA openB same

/-- Every call that happens ends in one of the three ways. -/
theorem perform_outcome (coherent : Coherent store) (oneOpen : OneOpen store.moves) {call : Call}
    (real : call.Real store) {result : Except AgentMutationError SessionStore}
    (performed : perform store call = some result) : Outcome store call result := by
  cases call with
  | register request commitMs =>
    cases performed
    exact register_outcome coherent oneOpen (of_decide_eq_true real).2
  | endSession harness sessionId runner nowMs =>
    cases performed
    exact endSession_outcome coherent oneOpen harness sessionId runner nowMs
  | stampGone stamps =>
    cases performed
    exact stampGone_outcome coherent oneOpen stamps
  | setNetwork harness sessionId network now =>
    cases performed
    exact setNetwork_outcome coherent oneOpen harness sessionId network (of_decide_eq_true real).2
  | prune nowMs selected =>
    obtain ⟨store',pruned,rfl⟩ := Option.map_eq_some_iff.mp performed
    exact prune_outcome coherent oneOpen pruned
  | activate cutId row activatedAtMs refs carried =>
    cases performed
    exact activate_outcome coherent oneOpen real.1 fun current found => by rw [real.2 current found]

/-- A call on a full history fails. -/
theorem exhausted_fails (coherent : Coherent store) {call : Call} (real : call.Real store)
    (exhausted : Exhausted store call) : perform store call = some constraintFailed := by
  cases call with
  | register request commitMs =>
    obtain ⟨route,network,passes⟩ := exhausted
    rcases passes.takes coherent (of_decide_eq_true real).2 with ⟨_,_,failed⟩ | ⟨room,_⟩
    · simp only [perform,failed]
    · exact absurd rfl (room network)
  | setNetwork harness sessionId network now =>
    obtain ⟨known,key,row,looked,planned⟩ := exhausted
    have last : (store.historyOf key).getLast?.map (·.sinceMs) = some i64Max := by
      rcases planNetwork_cases store key network with ⟨_,_,refused,_⟩ | ⟨_,same⟩ | ⟨same,_⟩
      · rw [planned] at refused; cases refused
      · rw [planned] at same; cases same
      · exact (NetworkPlan.append.inj (Except.ok.inj (planned.symm.trans same))).symm
    have failed := (@applyNetworkPlan_append _ _ network _ (coherent.rising key)
      (of_decide_eq_true real).2).1 last
    rw [last] at failed
    simp only [perform,setSessionNetwork,known,Bool.not_true,Bool.false_eq_true,if_false,looked,
      planned,bind,Except.bind,failed]
    rfl
  | _ => exact exhausted.elim

theorem coherent_step (coherent : Coherent store) (oneOpen : OneOpen store.moves) {label : Label}
    (allowed : Allowed store label) (taken : next store label = some store') :
    Coherent store' ∧ OneOpen store'.moves := by
  cases label with
  | call call =>
    obtain ⟨result,performed,rfl⟩ := Option.map_eq_some_iff.mp taken
    cases perform_outcome coherent oneOpen allowed performed with
    | refused e other => exact ⟨coherent,oneOpen⟩
    | failed exhausted => exact ⟨coherent,oneOpen⟩
    | done store' coherent' law effect moves => exact ⟨coherent',moves⟩
  | outside cutOver agents moves claims self memberName origin =>
    cases taken
    exact ⟨⟨coherent.indexed,coherent.held,coherent.bound,coherent.rising⟩,allowed⟩

theorem coherent_reach {start : SessionStore} (fresh : Fresh start)
    (reached : Reach next Allowed start store) : Coherent store ∧ OneOpen store.moves := by
  refine reached.invariant (fun store => Coherent store ∧ OneOpen store.moves) ⟨⟨?_,?_,?_,?_⟩,fresh.moves⟩
    fun _ _ _ holds allowed taken => coherent_step holds.1 holds.2 allowed taken
  · simp [Indexed,fresh.bindings]
  · simp [fresh.bindings]
  · simp [fresh.network,Table.has]
  · simp [SessionStore.historyOf,fresh.network,Rising]

end Steps

/-- In every reachable store no key names two bindings, held bindings are ended
and histories rise. Every call keeps the owners and leaves what a registration
promises, and it fails on a uniqueness constraint exactly when it would append
to a history whose newest entry has the last `i64` instant. -/
theorem bindings_stay_injective {start store : SessionStore} (fresh : Fresh start)
    (reached : Reach next Allowed start store) :
    (Injective store ∧ HeldEnded store ∧ HistoriesRise store) ∧
    ∀ call, call.Real store →
      (perform store call = some constraintFailed ↔ Exhausted store call) ∧
      (∀ store', perform store call = some (.ok store') →
        next store (.call call) = some store' ∧ CallLaw store call store') ∧
      (∀ e, perform store call = some (.error e) → next store (.call call) = some store) := by
  obtain ⟨coherent,oneOpen⟩ := coherent_reach fresh reached
  refine ⟨⟨injective coherent,coherent.held,historiesRise coherent⟩,fun call real => ⟨⟨?_,?_⟩,?_,?_⟩⟩
  · intro failed
    cases perform_outcome coherent oneOpen real failed with
    | refused e other => exact absurd rfl other
    | failed exhausted => exact exhausted
  · exact exhausted_fails coherent real
  · intro store' performed
    cases perform_outcome coherent oneOpen real performed with
    | done _ _ law _ _ => exact ⟨by simp only [next,performed]; rfl,law⟩
  · intro e performed
    simp only [next,performed]
    rfl

namespace Last

/-- One agent here and one on its way, its activation open. -/
def start : SessionStore where
  cutOver := true
  agents := Table.insert ∅ "agent_1" ⟨none⟩
  moves := Table.insert ∅ "cut_1" ⟨"agent_2",.receiver,.activating,[toLex ("session","r2")]⟩
  claims := ∅
  selfAuthor := none
  memberName := ∅
  bindings := ∅
  network := ∅

def carried : CarriedBinding :=
  ⟨"session","r2",none,some "omp",some "s2","/work","host",1,none,[⟨"yes",i64Max⟩],none⟩

def arrival : Call :=
  .activate "cut_1" ⟨"agent_2",.receiver,.activated,[toLex ("session","r2")]⟩ (some 5)
    [toLex ("session","r2")] [carried]

def opening : Call :=
  .register ⟨"agent_1","session","r1","omp","s1",none,"host",none,some "yes",7⟩ 8

def rename : Call :=
  .register ⟨"agent_1","session","r9","omp","s1",none,"host",none,some "no",9⟩ 3

def after (store : SessionStore) (call : Call) : SessionStore := (next store (.call call)).getD store

theorem start_fresh : Fresh start := by
  refine ⟨rfl,rfl,?_⟩
  intro a b left right atA atB _ _ _
  simp only [start,Table.get?_insert,Table.get?_empty] at atA atB
  grind

theorem carried_imported : carried.Imported := ⟨by decide +kernel,by decide +kernel⟩

theorem arrival_real : arrival.Real start := by
  refine ⟨?_,?_⟩
  · intro binding member
    rw [List.mem_singleton.mp member]
    exact carried_imported
  · intro current found
    simp only [start,Table.get?_insert,if_true] at found
    cases found
    rfl

theorem arrived : Reach next Allowed start (after start arrival) := by
  have taken : next start (.call arrival) = some (after start arrival) := rfl
  exact .step (.call arrival) .refl arrival_real taken

/-- A session is opened and its reference renamed: its history goes along. -/
theorem bindings_stay_renamed :
    let store := after start opening
    (perform store rename = some constraintFailed ↔ Exhausted store rename) ∧
    (∀ store', perform store rename = some (.ok store') → CallLaw store rename store') ∧
    (after store rename).historyOf (toLex ("session","r9")) = [⟨"yes",8⟩,⟨"no",9⟩] := by
  intro store
  have taken : next start (.call opening) = some store := rfl
  have real : opening.Real start := show inI64 8 = true by decide
  have reached : Reach next Allowed start store := .step (.call opening) .refl real taken
  obtain ⟨fails,done,_⟩ := (bindings_stay_injective start_fresh reached).2 rename
    (show inI64 3 = true by decide)
  exact ⟨fails,fun store' performed => (done store' performed).2,by decide +kernel⟩

/-- The arrived session's history ends at the last instant, so the next value
breaks its primary key. -/
theorem network_never_recorded : ¬ ∀ (start store : SessionStore) (call : Call), Fresh start →
    Reach next Allowed start store → call.Real store → perform store call ≠ some constraintFailed := by
  intro law
  have failed : perform (after start arrival) (.setNetwork "omp" "s2" "no" 6) =
      some constraintFailed := by decide +kernel
  exact law start _ (.setNetwork "omp" "s2" "no" 6) start_fresh arrived
    (show inI64 6 = true by decide) failed

end Last
end Entorhinal.SessionRuns
