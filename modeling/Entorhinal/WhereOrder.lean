import Entorhinal.WhereReads

/-! What every run of the whereabouts watch keeps: the log of batches is
complete, a stream's numbers only rise, and no wake-up is lost. -/
namespace Entorhinal.Where
open ClaimCache Transition

section

variable (incarnation : String) (encoded : Notice → Nat)

theorem commit_some {w w' : World} {observing touched : Bool} {store : WhereStore}
    (taken : commit w observing touched store = some w') :
    (observing = true → w.listening = true) ∧ store.claimCache = w.store.claimCache ∧
    store.foreign = w.store.foreign ∧ (touched = false → store.agentMove = w.store.agentMove) ∧
    w' = { w with
      store := store
      pending := if changed observing touched w.store store then w.pending + 1 else w.pending } := by
  unfold commit at taken
  split at taken
  next => cases taken
  next seen =>
    split at taken
    next => cases taken
    next alone =>
      split at taken
      next => cases taken
      next untouched =>
        simp only [not_or,not_not] at alone
        refine ⟨fun looking => ?_,alone.1,alone.2,fun idle => ?_,(Option.some.inj taken).symm⟩
        · simpa [looking] using seen
        · simpa [idle] using untouched

def claimsBefore (store : WhereStore) (observations : List (String × ClaimCache.ClaimObservation)) :
    Table String (Option ClaimCache.CachedClaim) :=
  observations.foldl (fun before item => before.insert item.1 (cachedAgentClaim store item.1)) ∅

theorem observe_some {w w' : World} {observations : List (String × ClaimCache.ClaimObservation)} {now : Int}
    (taken : observe w observations now = some w') :
    w.writer = .idle ∧ w.store.foreign = false ∧
      w' = { w with writer := .observed (claimsBefore w.store observations) observations now } := by
  unfold observe at taken
  split at taken
  next idle =>
    split at taken
    next => cases taken
    next own => exact ⟨idle,by simpa using own,(Option.some.inj taken).symm⟩
  next => cases taken

theorem cache_some {w w' : World} {observing : Bool} (taken : cache w observing = some w') :
    ∃ before observations now, w.writer = .observed before observations now ∧
      (observing = true → w.listening = true) ∧
      w' = { w with
        store := cacheAgentClaims w.store observations now
        writer := if changed observing false w.store (cacheAgentClaims w.store observations now) then
            .announcing before.rows
          else .rereading before.rows ∅ } := by
  unfold cache at taken
  split at taken
  next before observations now writing =>
    split at taken
    next => cases taken
    next seen =>
      refine ⟨before,observations,now,writing,fun looking => ?_,(Option.some.inj taken).symm⟩
      simpa [looking] using seen
  next => cases taken

theorem recheck_some {w w' : World} (taken : recheck w = some w') :
    ∃ id old todo entries, w.writer = .rereading ((id,old) :: todo) entries ∧
      w' = { w with writer := .rereading todo (if old ≠ cachedAgentClaim w.store id then
        entries.insert id (answer w.store id) else entries) } := by
  unfold recheck at taken
  split at taken
  next id old todo entries writing => exact ⟨id,old,todo,entries,writing,(Option.some.inj taken).symm⟩
  next => cases taken

theorem appendBatch_some {w w' : World} (taken : appendBatch w = some w') :
    ∃ entries, w.writer = .rereading [] entries ∧
      ((entries.rows = [] ∧ w' = { w with writer := .idle }) ∨
       (entries.rows ≠ [] ∧ w' = { w.append entries false with writer := .idle })) := by
  unfold appendBatch at taken
  split at taken
  next entries writing =>
    refine ⟨entries,writing,?_⟩
    cases taken
    by_cases empty : entries.rows = []
    · exact .inl ⟨empty,by simp [empty]⟩
    · exact .inr ⟨empty,by simp [empty]⟩
  next => cases taken

theorem startOver_some {w w' : World} {ids : Option (List String)} {cursor : Option Nat}
    (taken : startOver w ids cursor = some w') :
    w.watch = none ∧
    (∀ seq, cursor = some seq → w.listening = true ∧ w.floor ≤ seq ∧ seq ≤ w.history.seq) ∧
    w' = { w with client := ⟨ids,cursor,answer w.store,fun _ => false⟩ } := by
  unfold startOver at taken
  split at taken
  next => cases taken
  next closed =>
    split at taken
    next told =>
      refine ⟨by simpa using closed,?_,(Option.some.inj taken).symm⟩
      rintro seq rfl
      simpa [and_assoc] using told
    next => cases taken

/-- What each step needs, and what it leaves. -/
inductive Step (w : World) : Act → World → Prop
  | listen : Step w .listen (if w.listening then w else { w with listening := true, floor := w.history.seq })
  | commit {observing touched : Bool} {store : WhereStore} {w' : World}
      (done : commit w observing touched store = some w') : Step w (.commit observing touched store) w'
  | adopt {sameMachine : Bool} {store : WhereStore} (adopted : adoptStore w.store sameMachine = some store) :
      Step w (.adopt sameMachine) { w with store := store, resuming := true }
  | resume (resuming : w.resuming = true) : Step w .resume ({ w with resuming := false }.append ∅ true)
  | announce (some_left : w.pending ≠ 0) : Step w .announce { w with pending := w.pending - 1 }.resyncAll
  | observe {observations : List (String × ClaimObservation)} {now : Int} {w' : World} (done : observe w observations now = some w') :
      Step w (.observe observations now) w'
  | abandon {before : Table String (Option CachedClaim)} {observations : List (String × ClaimObservation)} {now : Int}
      (writing : w.writer = .observed before observations now) : Step w .abandon { w with writer := .idle }
  | cache {observing : Bool} {w' : World} (done : cache w observing = some w') : Step w (.cache observing) w'
  | cacheAnnounce {todo : List (String × Option CachedClaim)} (writing : w.writer = .announcing todo) :
      Step w .cacheAnnounce { w.resyncAll with writer := .rereading todo ∅ }
  | recheck {w' : World} (done : recheck w = some w') : Step w .recheck w'
  | recheckFails {row : String × Option CachedClaim} {todo : List (String × Option CachedClaim)}
      {entries : Table String (Option AgentWhere)} (writing : w.writer = .rereading (row :: todo) entries) :
      Step w .recheckFails { w with writer := .idle }
  | append {w' : World} (done : appendBatch w = some w') : Step w .append w'
  | ring (some_left : w.ringing ≠ 0) : Step w .ring { w with
      ringing := w.ringing - 1
      watch := w.watch.map fun watch => if watch.phase = .waking then watch else { watch with woken := true } }
  | connect {cursor : Option Cursor}
      (ready : (w.listening && w.watch.isNone && presentable incarnation w cursor) = true) :
      Step w (.connect cursor) ({ w with inbox := [] }.emit incarnation encoded cursor [] false)
  | wake {watch : Watch} (open_ : w.watch = some watch) (ready : watch.phase = .waiting ∧ watch.woken = true) :
      Step w .wake { w with watch := some { watch with phase := .waking, woken := false } }
  | rearm {watch : Watch} (open_ : w.watch = some watch) (ready : watch.phase = .waking) :
      Step w .rearm { w with watch := some { watch with phase := .reading } }
  | read {watch : Watch} (open_ : w.watch = some watch) (ready : watch.phase = .reading) :
      Step w .read (w.emit incarnation encoded (some watch.cursor) watch.sent watch.woken)
  | disconnect (open_ : ¬ w.watch.isNone = true) : Step w .disconnect { w with watch := none, inbox := [] }
  | receive {body : Notice} {rest : List Notice} (inbox : w.inbox = body :: rest) :
      Step w .receive { w with inbox := rest, client := w.client.apply body }
  | reread {id : String} : Step w (.reread id) { w with client := w.client.reread w.store id }
  | startOver {ids : Option (List String)} {cursor : Option Nat} {w' : World} (done : startOver w ids cursor = some w') :
      Step w (.startOver ids cursor) w'

structure Watch.Sound (w : World) (watch : Watch) : Prop where
  own : watch.cursor.incarnation = incarnation
  known : watch.cursor.seq ≤ w.history.seq
  rising : watch.sent.Pairwise (· > ·)
  sent : ∀ seq ∈ watch.sent, seq ≤ watch.cursor.seq
  awake : watch.phase = .waiting → watch.woken = false →
    0 < w.ringing ∨ watch.cursor.seq = w.history.seq

structure Orderly (w : World) : Prop where
  recorded : Recorded w.history w.log
  watching : ∀ watch, w.watch = some watch → watch.Sound incarnation w
  floor : w.floor ≤ w.history.seq

variable {incarnation encoded}

theorem next_step {w w' : World} {act : Act} (taken : next incarnation encoded w act = some w') :
    Step incarnation encoded w act w' := by
  cases act with
  | listen =>
    cases taken
    exact .listen
  | commit observing touched store => exact .commit taken
  | adopt sameMachine =>
    obtain ⟨store,adopted,rfl⟩ := Option.map_eq_some_iff.mp taken
    exact .adopt adopted
  | observe observations now => exact .observe taken
  | cache observing => exact .cache taken
  | recheck => exact .recheck taken
  | append => exact .append taken
  | reread id =>
    cases taken
    exact .reread
  | startOver ids cursor => exact .startOver taken
  | connect cursor =>
    simp only [next,connect] at taken
    split at taken
    next ready => cases taken; exact .connect ready
    next => cases taken
  | resume =>
    simp only [next] at taken
    split at taken
    next resuming => cases taken; exact .resume resuming
    next => cases taken
  | announce =>
    simp only [next] at taken
    split at taken
    next => cases taken
    next some_left => cases taken; exact .announce some_left
  | abandon =>
    simp only [next] at taken
    split at taken
    next writing => cases taken; exact .abandon writing
    next => cases taken
  | cacheAnnounce =>
    simp only [next] at taken
    split at taken
    next writing => cases taken; exact .cacheAnnounce writing
    next => cases taken
  | recheckFails =>
    simp only [next] at taken
    split at taken
    next writing => cases taken; exact .recheckFails writing
    next => cases taken
  | ring =>
    simp only [next] at taken
    split at taken
    next => cases taken
    next some_left => cases taken; exact .ring some_left
  | wake =>
    simp only [next] at taken
    split at taken
    next watch open_ =>
      split at taken
      next ready => cases taken; exact .wake open_ ready
      next => cases taken
    next => cases taken
  | rearm =>
    simp only [next] at taken
    split at taken
    next watch open_ =>
      split at taken
      next ready => cases taken; exact .rearm open_ ready
      next => cases taken
    next => cases taken
  | read =>
    simp only [next] at taken
    split at taken
    next watch open_ =>
      split at taken
      next ready => cases taken; exact .read open_ ready
      next => cases taken
    next => cases taken
  | disconnect =>
    simp only [next] at taken
    split at taken
    next => cases taken
    next open_ => cases taken; exact .disconnect open_
  | receive =>
    simp only [next] at taken
    split at taken
    next body rest inbox => cases taken; exact .receive inbox
    next => cases taken

theorem push_seq (history : WhereHistory) (entries : Table String (Option AgentWhere)) (allAgents : Bool) :
    (history.push entries allAgents).seq = history.seq + 1 := rfl

/-- Appending a batch leaves the threads alone but for the wake-up to come. -/
theorem Orderly.append {w : World} (orderly : Orderly incarnation w)
    (entries : Table String (Option AgentWhere)) (allAgents : Bool) :
    Orderly incarnation (w.append entries allAgents) := by
  constructor
  · exact orderly.recorded.push entries allAgents
  · intro watch open_
    have sound := orderly.watching watch open_
    have known := sound.known
    refine ⟨sound.own,?_,sound.rising,sound.sent,fun _ _ => .inl (Nat.succ_pos _)⟩
    simp only [World.append,push_seq]
    omega
  · have := orderly.floor
    simp only [World.append,push_seq]
    omega

theorem Orderly.resyncAll {w : World} (orderly : Orderly incarnation w) :
    Orderly incarnation w.resyncAll := by
  unfold World.resyncAll
  split
  next => exact orderly.append ∅ true
  next => exact orderly

/-- Steps of the writers change nothing that the order is about. -/
theorem Orderly.aside {w w' : World} (orderly : Orderly incarnation w)
    (history : w'.history = w.history) (log : w'.log = w.log) (ringing : w'.ringing = w.ringing)
    (floor : w'.floor = w.floor) (watch : w'.watch = w.watch) : Orderly incarnation w' := by
  constructor
  · rw [history,log]; exact orderly.recorded
  · intro found open_
    rw [watch] at open_
    obtain ⟨own,known,rising,sent,awake⟩ := orderly.watching found open_
    exact ⟨own,by rw [history]; exact known,rising,sent,by rw [history,ringing]; exact awake⟩
  · rw [floor,history]; exact orderly.floor

/-- A turn of the watch sends a notice only past the last one it sent. -/
theorem Orderly.emit {w : World} (orderly : Orderly incarnation w) {cursor : Option Cursor}
    {sent : List Nat} {woken : Bool} (rising : sent.Pairwise (· > ·))
    (past : ∀ seq ∈ sent, ∃ seq', cursor = some ⟨incarnation,seq'⟩ ∧ seq ≤ seq' ∧ seq' ≤ w.history.seq) :
    Orderly incarnation (w.emit incarnation encoded cursor sent woken) := by
  refine ⟨orderly.recorded,?_,orderly.floor⟩
  intro watch open_
  have bounded : ∀ seq ∈ sent, seq ≤ w.history.seq := by
    intro seq inside
    obtain ⟨seq',_,below,known⟩ := past seq inside
    omega
  have fresh : ∀ body, notice encoded ⟨incarnation,w.history.seq⟩
      (changesSince incarnation w.history cursor w.client.ids) = some body →
      ∀ seq ∈ sent, seq < w.history.seq := by
    intro body made seq inside
    obtain ⟨seq',same,below,known⟩ := past seq inside
    by_cases newest : seq' = w.history.seq
    · subst newest
      rw [same,orderly.recorded.nothing_new] at made
      cases made
    · omega
  simp only [World.emit,Option.some.injEq] at open_
  subst open_
  generalize made : notice encoded ⟨incarnation,w.history.seq⟩
    (changesSince incarnation w.history cursor w.client.ids) = body at fresh ⊢
  cases body with
  | none => exact ⟨rfl,le_refl _,rising,bounded,fun _ _ => .inr rfl⟩
  | some body =>
    refine ⟨rfl,le_refl _,?_,?_,fun _ _ => .inr rfl⟩
    · exact List.pairwise_cons.mpr ⟨fresh body rfl,rising⟩
    · intro seq inside
      obtain rfl | inside := List.mem_cons.mp inside
      · exact le_refl _
      · exact bounded seq inside

/-- The thread of a watch goes on without waiting. -/
theorem Orderly.turned {w : World} (orderly : Orderly incarnation w) {watch watch' : Watch} (open_ : w.watch = some watch)
    (cursor : watch'.cursor = watch.cursor) (sent : watch'.sent = watch.sent) (busy : watch'.phase ≠ .waiting) :
    Orderly incarnation { w with watch := some watch' } := by
  refine ⟨orderly.recorded,?_,orderly.floor⟩
  rintro _ ⟨rfl⟩
  obtain ⟨own,known,rising,past,_⟩ := orderly.watching watch open_
  rw [← cursor] at own known past
  rw [← sent] at rising past
  exact ⟨own,known,rising,past,fun waiting => absurd waiting busy⟩

theorem orderly_next {w w' : World} {act : Act} (orderly : Orderly incarnation w)
    (taken : next incarnation encoded w act = some w') : Orderly incarnation w' := by
  cases next_step taken with
  | listen =>
    split
    next => exact orderly
    next =>
      refine ⟨orderly.recorded,fun watch open_ => ?_,le_refl _⟩
      obtain ⟨own,known,rising,sent,awake⟩ := orderly.watching watch open_
      exact ⟨own,known,rising,sent,awake⟩
  | commit done =>
    obtain ⟨_,_,_,_,rfl⟩ := commit_some done
    exact orderly.aside rfl rfl rfl rfl rfl
  | adopt => exact orderly.aside rfl rfl rfl rfl rfl
  | resume =>
    have still : Orderly incarnation { w with resuming := false } := orderly.aside rfl rfl rfl rfl rfl
    exact still.append ∅ true
  | announce =>
    exact (orderly.aside rfl rfl rfl rfl rfl : Orderly incarnation { w with pending := w.pending - 1 }).resyncAll
  | observe done =>
    obtain ⟨_,_,rfl⟩ := observe_some done
    exact orderly.aside rfl rfl rfl rfl rfl
  | abandon => exact orderly.aside rfl rfl rfl rfl rfl
  | cache done =>
    obtain ⟨_,_,_,_,_,rfl⟩ := cache_some done
    exact orderly.aside rfl rfl rfl rfl rfl
  | cacheAnnounce => exact orderly.resyncAll.aside rfl rfl rfl rfl rfl
  | recheck done =>
    obtain ⟨_,_,_,_,_,rfl⟩ := recheck_some done
    exact orderly.aside rfl rfl rfl rfl rfl
  | recheckFails => exact orderly.aside rfl rfl rfl rfl rfl
  | append done =>
    obtain ⟨entries,_,⟨_,rfl⟩ | ⟨_,rfl⟩⟩ := appendBatch_some done
    · exact orderly.aside rfl rfl rfl rfl rfl
    · exact (orderly.append entries false).aside rfl rfl rfl rfl rfl
  | ring =>
    refine ⟨orderly.recorded,?_,orderly.floor⟩
    intro watch open_
    obtain ⟨found,was,rfl⟩ := Option.map_eq_some_iff.mp open_
    obtain ⟨own,known,rising,sent,_⟩ := orderly.watching found was
    by_cases waking : found.phase = .waking
    · simp only [if_pos waking]
      exact ⟨own,known,rising,sent,by simp [waking]⟩
    · simp only [if_neg waking]
      exact ⟨own,known,rising,sent,fun _ asleep => by cases asleep⟩
  | connect =>
    have cleared : Orderly incarnation { w with inbox := [] } := orderly.aside rfl rfl rfl rfl rfl
    exact cleared.emit .nil fun _ inside => by cases inside
  | wake open_ => exact orderly.turned open_ rfl rfl (by simp)
  | rearm open_ => exact orderly.turned open_ rfl rfl (by simp)
  | @read watch open_ =>
    obtain ⟨own,known,rising,sent,_⟩ := orderly.watching watch open_
    refine orderly.emit rising fun seq inside => ⟨watch.cursor.seq,?_,sent seq inside,known⟩
    rw [← own]
  | disconnect => exact ⟨orderly.recorded,fun _ none => (by cases none),orderly.floor⟩
  | receive => exact orderly.aside rfl rfl rfl rfl rfl
  | reread => exact orderly.aside rfl rfl rfl rfl rfl
  | startOver done =>
    obtain ⟨_,_,rfl⟩ := startOver_some done
    exact orderly.aside rfl rfl rfl rfl rfl

theorem orderly_start (store : WhereStore) : Orderly incarnation (start store) :=
  ⟨⟨rfl,rfl,⟨[],rfl⟩,fun _ => rfl⟩,nofun,le_refl _⟩

theorem orderly_run {store : WhereStore} {w : World} {allow : World → Act → Prop}
    (run : Reach (next incarnation encoded) allow (start store) w) : Orderly incarnation w :=
  run.invariant (Orderly incarnation) (orderly_start store) fun _ _ _ orderly _ taken => orderly_next orderly taken

end

end Entorhinal.Where
