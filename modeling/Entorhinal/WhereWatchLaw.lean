import Entorhinal.WhereOrder

/-! When a watched table agrees with the store: in the runs whose batches still
hold when they are appended, or are followed by another writer's resync. -/
namespace Entorhinal.Where
open Transition ClaimCache

/-- The rows a call of `cache_claims` is about to append are what the store answers. -/
def rowsHold (store : WhereStore) (entries : Table String (Option AgentWhere)) : Bool :=
  entries.rows.all fun item => item.2.all fun row => decide (answer store item.1 = some row)

/-- A call that ends here takes no news with it. -/
def nothingNew (store : WhereStore) (todo : List (String × Option CachedClaim))
    (entries : Table String (Option AgentWhere)) : Bool :=
  decide (entries.rows = []) && todo.all fun item => decide (item.2 = cachedAgentClaim store item.1)

/-- Another thread has still to ask every watch for a resync. -/
def World.coming (w : World) : Bool := decide (0 < w.pending) || w.resuming

/-- The steps after which every whereabouts answer is still told, or will be. -/
def fresh (w : World) : Act → Bool
  | .append => !w.listening || w.coming || match w.writer with
    | .rereading _ entries => rowsHold w.store entries
    | _ => true
  | .recheckFails => !w.listening || w.coming || match w.writer with
    | .rereading todo entries => nothingNew w.store todo entries
    | _ => true
  | _ => true

/-- What a call of `cache_claims` has still to tell of an agent. -/
def outstanding (w : World) (id : String) : Prop :=
  match w.writer with
  | .announcing _ => True
  | .rereading todo entries =>
    (∃ old, (id,old) ∈ todo ∧ old ≠ cachedAgentClaim w.store id) ∨ entries.has id = true
  | _ => False

/-- A batch about the agent is still to come. -/
def Due (w : World) (id : String) : Prop := w.coming = true ∨ outstanding w id

/-- A table that stands at a number is right about every agent that no later
batch mentions, unless a batch is due or a re-read is owed. -/
structure Current (w : World) (seq : Nat) (client : Client) : Prop where
  listening : w.listening = true
  floor : w.floor ≤ seq
  known : seq ≤ w.history.seq
  rows : ∀ id, watched client.ids id = true →
    (∀ last word, lastWord w.log id = some (last,word) → last ≤ seq) →
    Due w id ∨ client.unread id = true ∨ client.table id = answer w.store id

def Spoken (w : World) : Prop :=
  w.listening = true → ∀ id last row, lastWord w.log id = some (last,some row) → w.floor < last →
    Due w id ∨ answer w.store id = some row

/-- The claims a call has read are the store's until it commits. -/
structure Calling (store : WhereStore) (writer : CacheWriter) : Prop where
  native : store.foreign = true → writer = .idle
  noted : ∀ before observations now, writer = .observed before observations now →
    ∀ id ∈ observations.map Prod.fst, before.get? id = some (cachedAgentClaim store id)

theorem Calling.idle (store : WhereStore) : Calling store .idle :=
  ⟨fun _ => rfl,fun _ _ _ writing => by cases writing⟩

/-- Past its commit a call rests on nothing it has read. -/
theorem Calling.past {store store' : WhereStore} {writer writer' : CacheWriter} (calling : Calling store writer)
    (busy : writer ≠ .idle) (foreign : store'.foreign = store.foreign)
    (unread : ∀ before observations now, writer' ≠ .observed before observations now) :
    Calling store' writer' :=
  ⟨fun other => absurd (calling.native (by rw [← foreign]; exact other)) busy,
    fun before observations now writing => absurd writing (unread before observations now)⟩

structure Informed (w : World) : Prop where
  spoken : Spoken w
  positions : ∀ read rest, w.inbox = read ++ rest → ∀ seq,
    (read.foldl Client.apply w.client).held = some seq → Current w seq (read.foldl Client.apply w.client)
  watching : ∀ watch, w.watch = some watch →
    Current w watch.cursor.seq (w.inbox.foldl Client.apply w.client)
  closed : w.watch = none → w.inbox = []
  calling : Calling w.store w.writer

/-- What a writer's step may do to one agent: a new batch speaks of it, or a
batch is still due where its answer moved. -/
def Carried (w w' : World) (id : String) : Prop :=
  (lastWord w'.log id = lastWord w.log id ∧
    (Due w' id ∨ (¬ Due w id ∧ answer w'.store id = answer w.store id))) ∨
  ∃ last word, lastWord w'.log id = some (last,word) ∧ w.history.seq < last ∧
    ∀ row, word = some row → Due w' id ∨ answer w'.store id = some row

/-- A step of the writers leaves the watch's side alone. -/
structure Aside (w w' : World) : Prop where
  listening : w'.listening = w.listening
  floor : w'.floor = w.floor
  grows : w.history.seq ≤ w'.history.seq
  carried : w.listening = true → ∀ id, Carried w w' id

theorem Aside.current {w w' : World} (aside : Aside w w') {seq : Nat} {client : Client}
    (current : Current w seq client) : Current w' seq client := by
  have grows := aside.grows
  have known := current.known
  refine ⟨by rw [aside.listening]; exact current.listening,by rw [aside.floor]; exact current.floor,
    by omega,?_⟩
  intro id seen silent
  obtain ⟨same,due | ⟨calm,answers⟩⟩ | ⟨last,word,said,newer,_⟩ := aside.carried current.listening id
  · exact .inl due
  · rw [same] at silent
    rw [answers]
    exact .inr ((current.rows id seen silent).resolve_left calm)
  · have := silent last word said
    omega

theorem Aside.spoken {w w' : World} (aside : Aside w w') (spoken : Spoken w) : Spoken w' := by
  intro listening id last row said past
  rw [aside.listening] at listening
  rw [aside.floor] at past
  obtain ⟨same,due | ⟨calm,answers⟩⟩ | ⟨newest,word,found,newer,holds⟩ := aside.carried listening id
  · exact .inl due
  · rw [same] at said
    rw [answers]
    exact .inr ((spoken listening id last row said past).resolve_left calm)
  · rw [found] at said
    cases said
    exact holds row rfl

theorem Aside.informed {w w' : World} (aside : Aside w w')
    (informed : Informed w) (inbox : w'.inbox = w.inbox) (client : w'.client = w.client)
    (watch : w'.watch.map (·.cursor) = w.watch.map (·.cursor))
    (calling : Calling w'.store w'.writer) : Informed w' := by
  refine ⟨aside.spoken informed.spoken,?_,?_,?_,calling⟩
  · rw [inbox,client]
    exact fun read rest split seq held => aside.current (informed.positions read rest split seq held)
  · rw [inbox,client]
    intro found open_
    rw [open_,Option.map_some] at watch
    obtain ⟨was,open_,same⟩ := Option.map_eq_some_iff.mp watch.symm
    rw [← same]
    exact aside.current (informed.watching was open_)
  · intro closed
    rw [closed,Option.map_none] at watch
    rw [inbox]
    exact informed.closed (Option.map_eq_none_iff.mp watch.symm)

/-- Nothing said and nothing forgotten: an agent's answer and what is due stay. -/
theorem Carried.same {w w' : World} {id : String} (log : w'.log = w.log)
    (kept : Due w id → Due w' id) (answers : ¬ Due w' id → answer w'.store id = answer w.store id) :
    Carried w w' id := by
  refine .inl ⟨by rw [log],?_⟩
  by_cases due : Due w' id
  · exact .inl due
  · exact .inr ⟨fun before => due (kept before),answers due⟩

/-- A resync speaks of every agent. -/
theorem resync_carried {w : World} (w' : World)
    (log : w'.log = w.log ++ [⟨w.history.seq + 1,∅,true⟩]) (id : String) : Carried w w' id := by
  refine .inr ⟨w.history.seq + 1,none,?_,by omega,fun row said => by cases said⟩
  rw [log]
  simp [WhereBatch.mentions,WhereBatch.word]

theorem resyncAll_aside (w : World) : w.resyncAll.listening = w.listening ∧
    w.resyncAll.floor = w.floor ∧ w.history.seq ≤ w.resyncAll.history.seq ∧
    w.resyncAll.store = w.store ∧ w.resyncAll.writer = w.writer ∧ w.resyncAll.inbox = w.inbox ∧
    w.resyncAll.client = w.client ∧ w.resyncAll.watch = w.watch := by
  unfold World.resyncAll
  split <;> simp [World.append,push_seq]

section Writers

variable {w w' : World}

theorem outstanding_idle {w : World} {id : String} (idle : w.writer = .idle) : ¬ outstanding w id := by
  simp [outstanding,idle]

theorem commit_aside {observing touched : Bool} {store : WhereStore}
    (taken : commit w observing touched store = some w') : Aside w w' := by
  obtain ⟨_,claims,foreign,moves,rfl⟩ := commit_some taken
  refine ⟨rfl,rfl,le_refl _,fun _ id => .same rfl ?_ ?_⟩
  · rintro (pending | owed)
    · refine .inl ?_
      simp only [World.coming,Bool.or_eq_true,decide_eq_true_eq] at pending ⊢
      split <;> omega
    · exact .inr (by simpa only [outstanding,cachedAgentClaim,claims] using owed)
  · intro calm
    have silent : changed observing touched w.store store = false := by
      by_contra told
      have told : changed observing touched w.store store = true := by simpa using told
      exact calm (.inl (by simp [World.coming,told]))
    unfold changed at silent
    split at silent
    next =>
      simp only [Bool.or_eq_false_iff,decide_eq_false_iff_not,not_not] at silent
      exact answer_congr silent.2.symm (moves silent.1) foreign (by rw [cachedAgentClaim,claims]; rfl)
    next => cases silent

theorem announce_aside (w : World) (listened : World) (same : listened = { w with pending := w.pending - 1 }) :
    Aside w listened.resyncAll := by
  subst same
  obtain ⟨listening,floor,grows,_⟩ := resyncAll_aside { w with pending := w.pending - 1 }
  refine ⟨listening,floor,grows,fun heard id => resync_carried _ ?_ id⟩
  simp only [World.resyncAll,heard,if_true,World.append]

theorem adoptStore_foreign {store store' : WhereStore} {sameMachine : Bool}
    (adopted : adoptStore store sameMachine = some store') : store.foreign = true := by
  unfold adoptStore at adopted
  split at adopted
  next => cases adopted
  next foreign => simpa using foreign

theorem resume_aside (w : World) : Aside w ({ w with resuming := false }.append ∅ true) :=
  ⟨rfl,rfl,Nat.le_succ _,fun _ id => resync_carried _ rfl id⟩

theorem claimsBefore_get? (store : WhereStore) (observations : List (String × ClaimObservation)) {id : String}
    (inside : id ∈ observations.map Prod.fst) :
    (claimsBefore store observations).get? id = some (cachedAgentClaim store id) := by
  suffices every : ∀ (start : Table String (Option CachedClaim)), ∀ id,
      (observations.foldl (fun before item =>
        before.insert item.1 (cachedAgentClaim store item.1)) start).get? id =
      if id ∈ observations.map Prod.fst then some (cachedAgentClaim store id) else start.get? id by
    rw [claimsBefore,every,if_pos inside]
  clear inside
  induction observations with
  | nil => simp
  | cons item rest ih =>
    intro start id
    rw [List.foldl_cons,ih]
    by_cases later : id ∈ rest.map Prod.fst
    · rw [if_pos later,if_pos (by simp [later])]
    · by_cases here : id = item.1
      · simp [here]
      · simp [later,here]

theorem observe_aside {observations : List (String × ClaimObservation)} {now : Int}
    (taken : observe w observations now = some w') : Aside w w' := by
  obtain ⟨idle,_,rfl⟩ := observe_some taken
  refine ⟨rfl,rfl,le_refl _,fun _ id => .same rfl ?_ fun _ => rfl⟩
  rintro (pending | owed)
  · exact .inl pending
  · exact absurd owed (outstanding_idle idle)

theorem cache_aside (informed : Informed w) {observing : Bool} (taken : cache w observing = some w') :
    Aside w w' := by
  obtain ⟨before,observations,now,writing,_,rfl⟩ := cache_some taken
  have touches := cacheAgentClaims_touches w.store observations now
  have quiet : ∀ id, ¬ outstanding w id := fun id => by simp [outstanding,writing]
  refine ⟨rfl,rfl,le_refl _,fun _ id => .same rfl ?_ ?_⟩
  · rintro (pending | owed)
    · exact .inl pending
    · exact absurd owed (quiet id)
  · intro calm
    by_cases told : changed observing false w.store (cacheAgentClaims w.store observations now) = true
    · exact absurd (.inr (by simp [outstanding,told])) calm
    · have deps : Dependencies.read (cacheAgentClaims w.store observations now) =
          Dependencies.read w.store := by
        unfold changed at told
        split at told
        next =>
          simp only [Bool.false_or,decide_eq_true_eq,ne_eq,not_not] at told
          exact told.symm
        next => simp at told
      refine answer_congr deps touches.moves touches.foreign ?_
      by_contra differs
      -- the claim moved, so it was observed and its row is among those to re-read
      have inside : id ∈ observations.map Prod.fst := by
        by_contra absent
        exact differs (touches.others id absent)
      have noted := informed.calling.noted before observations now writing id inside
      refine calm (.inr ?_)
      simp only [outstanding,told]
      exact .inl ⟨_,Table.mem_rows.mpr noted,fun same => differs same.symm⟩

theorem cacheAnnounce_aside {todo : List (String × Option CachedClaim)} :
    Aside w { w.resyncAll with writer := .rereading todo ∅ } := by
  obtain ⟨listening,floor,grows,_⟩ := resyncAll_aside w
  refine ⟨listening,floor,grows,fun heard id => resync_carried _ ?_ id⟩
  simp only [World.resyncAll,heard,if_true,World.append]

theorem recheck_aside (taken : recheck w = some w') : Aside w w' := by
  obtain ⟨id,old,todo,entries,writing,rfl⟩ := recheck_some taken
  refine ⟨rfl,rfl,le_refl _,fun _ other => .same rfl ?_ fun _ => rfl⟩
  rintro (pending | owed)
  · exact .inl pending
  · refine .inr ?_
    simp only [outstanding,writing] at owed ⊢
    obtain ⟨was,inside,moved⟩ | listed := owed
    · obtain here | inside := List.mem_cons.mp inside
      · cases here
        rw [if_pos moved]
        exact .inr (by simp)
      · exact .inl ⟨was,inside,moved⟩
    · refine .inr ?_
      split <;> simp [listed]

theorem idle_aside {todo : List (String × Option CachedClaim)} {entries : Table String (Option AgentWhere)}
    (writing : w.writer = .rereading todo entries)
    (held : w.listening = true → w.coming = true ∨ nothingNew w.store todo entries = true) :
    Aside w { w with writer := .idle } := by
  refine ⟨rfl,rfl,le_refl _,fun heard id => .same rfl ?_ fun _ => rfl⟩
  rintro (pending | owed)
  · exact .inl pending
  · obtain pending | nothing := held heard
    · exact .inl pending
    · simp only [nothingNew,Bool.and_eq_true,decide_eq_true_eq,List.all_eq_true] at nothing
      simp only [outstanding,writing] at owed
      obtain ⟨was,inside,moved⟩ | listed := owed
      · exact absurd (nothing.2 _ inside) moved
      · simp [Table.has,Table.get?,nothing.1,Table.lookup] at listed

theorem append_aside {entries : Table String (Option AgentWhere)} (writing : w.writer = .rereading [] entries)
    (held : w.listening = true → w.coming = true ∨ rowsHold w.store entries = true) :
    Aside w { w.append entries false with writer := .idle } := by
  refine ⟨rfl,rfl,Nat.le_succ _,fun heard id => ?_⟩
  by_cases listed : entries.has id = true
  · refine .inr ⟨w.history.seq + 1,(entries.get? id).join,?_,by omega,fun row said => ?_⟩
    · simp [World.append,WhereBatch.mentions,WhereBatch.word,listed]
    · obtain pending | holds := held heard
      · exact .inl (.inl pending)
      · refine .inr ?_
        simp only [rowsHold,List.all_eq_true] at holds
        obtain ⟨value,found⟩ := Table.has_iff.mp listed
        rw [found,Option.join_some] at said
        subst said
        have agrees := holds _ (Table.mem_rows.mpr found)
        simp only [Option.all_some,decide_eq_true_eq] at agrees
        exact agrees
  · refine .inl ⟨by simp [World.append,WhereBatch.mentions,listed],?_⟩
    by_cases pending : w.coming = true
    · exact .inl (.inl pending)
    · refine .inr ⟨?_,rfl⟩
      rintro (due | owed)
      · exact pending due
      · simp [outstanding,writing,listed] at owed

end Writers

section Reads

variable {incarnation : String} {encoded : Notice → Nat} {w w' : World}

/-- Steps that none of the answers, batches and writers see. -/
theorem aside_still (store : w'.store = w.store) (history : w'.history = w.history) (log : w'.log = w.log)
    (writer : w'.writer = w.writer) (coming : w'.coming = w.coming) (listening : w'.listening = w.listening)
    (floor : w'.floor = w.floor) : Aside w w' := by
  refine ⟨listening,floor,by rw [history],fun _ id => .same log ?_ fun _ => by rw [store]⟩
  rintro (due | owed)
  · exact .inl (by rw [coming]; exact due)
  · exact .inr (by simpa only [outstanding,writer,store] using owed)

@[simp] theorem apply_ids (client : Client) (body : Notice) : (client.apply body).ids = client.ids := by
  cases body <;> rfl

@[simp] theorem applied_ids (client : Client) (bodies : List Notice) :
    (bodies.foldl Client.apply client).ids = client.ids := by
  induction bodies generalizing client with
  | nil => rfl
  | cons body rest ih => rw [List.foldl_cons,ih,apply_ids]

/-- After one turn of the watch the table it feeds stands at the newest batch. -/
theorem read_current (encoded : Notice → Nat) (orderly : Orderly incarnation w) (informed : Informed w)
    (heard : w.listening = true) {cursor : Option Cursor} {client : Client}
    (ready : resumable incarnation w.history cursor = true →
      ∃ seq, cursor = some ⟨incarnation,seq⟩ ∧ Current w seq client) :
    match notice encoded ⟨incarnation,w.history.seq⟩
      (changesSince incarnation w.history cursor client.ids) with
    | none => Current w w.history.seq client
    | some body => (client.apply body).held = some w.history.seq ∧
      Current w w.history.seq (client.apply body) := by
  have resynced : ∀ after, Current w w.history.seq (client.apply (.resync after)) := fun after =>
    ⟨heard,orderly.floor,le_refl _,fun _ _ _ => .inr (.inl rfl)⟩
  cases given : changesSince incarnation w.history cursor client.ids with
  | none => exact ⟨rfl,resynced _⟩
  | some changes =>
    obtain ⟨c,rfl,_,_,resumes,_,rows⟩ := orderly.recorded.read given
    obtain ⟨seq,same,current⟩ := ready resumes
    cases same
    have told : ∀ id, watched client.ids id = true → ∀ entry, changes.get? id = some entry →
        Due w id ∨ answer w.store id = some entry.row := by
      intro id seen entry found
      have row := rows id seen
      rw [found] at row
      have above := current.floor
      exact informed.spoken heard id _ _ row.1 (lt_of_le_of_lt above row.2)
    have silent : ∀ id, watched client.ids id = true → changes.get? id = none →
        Due w id ∨ client.unread id = true ∨ client.table id = answer w.store id := by
      intro id seen found
      have row := rows id seen
      rw [found] at row
      exact current.rows id seen row
    by_cases empty : changes.rows = []
    · have none_found : ∀ id, changes.get? id = none := fun id => by simp [Table.get?,empty,Table.lookup]
      simp only [notice,if_pos empty]
      exact ⟨heard,orderly.floor,le_refl _,fun id seen _ => silent id seen (none_found id)⟩
    · by_cases large : noticeLimit < encoded (.changes ⟨incarnation,w.history.seq⟩ changes)
      · simp only [notice,if_neg empty,if_pos large]
        exact ⟨rfl,resynced _⟩
      · simp only [notice,if_neg empty,if_neg large]
        refine ⟨rfl,heard,orderly.floor,le_refl _,fun id seen _ => ?_⟩
        have seen : watched client.ids id = true := seen
        cases found : changes.get? id with
        | none => simpa [Client.apply,found,Table.has] using silent id seen found
        | some entry =>
          obtain due | holds := told id seen entry found
          · exact .inl due
          · exact .inr (.inr (by simp [Client.apply,found,holds]))

theorem emit_informed (orderly : Orderly incarnation w) (informed : Informed w)
    (heard : w.listening = true) {cursor : Option Cursor} {sent : List Nat} {woken : Bool}
    (ready : resumable incarnation w.history cursor = true →
      ∃ seq, cursor = some ⟨incarnation,seq⟩ ∧ Current w seq (w.inbox.foldl Client.apply w.client)) :
    Informed (w.emit incarnation encoded cursor sent woken) := by
  have current := read_current encoded orderly informed heard ready
  have aside : Aside w (w.emit incarnation encoded cursor sent woken) :=
    aside_still rfl rfl rfl rfl rfl rfl rfl
  simp only [applied_ids] at current
  dsimp only [World.emit] at aside ⊢
  generalize notice encoded ⟨incarnation,w.history.seq⟩
    (changesSince incarnation w.history cursor w.client.ids) = body at current aside ⊢
  have newest : Current w w.history.seq ((w.inbox ++ body.toList).foldl Client.apply w.client) := by
    cases body with
    | none => simpa using current
    | some body => simpa using current.2
  refine ⟨aside.spoken informed.spoken,?_,?_,fun closed => (by cases closed),informed.calling⟩
  · intro read rest split seq held
    refine aside.current ?_
    obtain ⟨between,inside,_⟩ | ⟨between,whole,last⟩ := List.append_eq_append_iff.mp split.symm
    · exact informed.positions read between inside seq held
    · cases body with
      | none =>
        simp only [Option.toList_none,List.nil_eq,List.append_eq_nil_iff] at last
        exact informed.positions read [] (by simp [whole,last.1]) seq held
      | some body =>
        cases between with
        | nil => exact informed.positions read [] (by simp [whole]) seq held
        | cons head tail =>
          simp only [Option.toList_some,List.cons_append,List.cons.injEq,List.nil_eq,
            List.append_eq_nil_iff] at last
          obtain ⟨rfl,rfl,_⟩ := last
          subst whole
          simp only [List.foldl_append,List.foldl_cons,List.foldl_nil] at held ⊢
          rw [current.1] at held
          cases held
          exact current.2
  · rintro _ ⟨rfl⟩
    exact aside.current newest

/-- Two clients that differ in one agent, which the second has just read. -/
structure Rereads (store : WhereStore) (id : String) (client client' : Client) : Prop where
  ids : client'.ids = client.ids
  held : client'.held = client.held
  others : ∀ other, other ≠ id →
    client'.unread other = client.unread other ∧ client'.table other = client.table other
  own : (client'.unread id = true ∧ client.unread id = true) ∨
    (client'.unread id = client.unread id ∧ client'.table id = client.table id) ∨
    client'.table id = answer store id

theorem Rereads.apply {store : WhereStore} {id : String} {client client' : Client}
    (rereads : Rereads store id client client') (body : Notice) :
    Rereads store id (client.apply body) (client'.apply body) := by
  obtain ⟨ids,held,others,own⟩ := rereads
  cases body with
  | resync cursor => exact ⟨ids,rfl,fun other differs => ⟨rfl,(others other differs).2⟩,.inl ⟨rfl,rfl⟩⟩
  | changes cursor entries =>
    refine ⟨ids,rfl,fun other differs => ?_,?_⟩
    · simp only [Client.apply,others other differs,and_self]
    · cases found : entries.get? id with
      | none => simpa [Client.apply,found,Table.has] using own
      | some entry => exact .inr (.inl (by simp [Client.apply,found,Table.has]))

theorem Rereads.applied {store : WhereStore} {id : String} {client client' : Client}
    (rereads : Rereads store id client client') (bodies : List Notice) :
    Rereads store id (bodies.foldl Client.apply client) (bodies.foldl Client.apply client') := by
  induction bodies generalizing client client' with
  | nil => exact rereads
  | cons body rest ih => exact ih (rereads.apply body)

theorem Rereads.current {id : String} {client client' : Client} (rereads : Rereads w.store id client client')
    {seq : Nat} (current : Current w seq client) : Current w seq client' := by
  refine ⟨current.listening,current.floor,current.known,fun other seen silent => ?_⟩
  rw [rereads.ids] at seen
  have before := current.rows other seen silent
  by_cases same : other = id
  · subst same
    obtain ⟨owed,_⟩ | ⟨unread,table⟩ | read := rereads.own
    · exact .inr (.inl owed)
    · rw [unread,table]; exact before
    · exact .inr (.inr read)
  · rw [(rereads.others other same).1,(rereads.others other same).2]
    exact before

theorem reread_rereads (client : Client) (store : WhereStore) (id : String) :
    Rereads store id client (client.reread store id) :=
  ⟨rfl,rfl,fun other differs => by simp [Client.reread,differs],.inr (.inr (by simp [Client.reread]))⟩

theorem Informed.rewatched (informed : Informed w) {ringing : Nat} {watch : Option Watch}
    (same : watch.map (·.cursor) = w.watch.map (·.cursor)) :
    Informed { w with ringing := ringing, watch := watch } := by
  have aside : Aside w { w with ringing := ringing, watch := watch } :=
    aside_still rfl rfl rfl rfl rfl rfl rfl
  exact aside.informed informed rfl rfl same informed.calling

theorem Current.older {seq older : Nat} {client : Client} (current : Current w seq client)
    (below : older ≤ seq) (floor : w.floor ≤ older) : Current w older client :=
  ⟨current.listening,floor,le_trans below current.known,fun id seen silent =>
    current.rows id seen fun last word said => le_trans (silent last word said) below⟩

end Reads

section Run

variable {incarnation : String} {encoded : Notice → Nat} {w w' : World}

theorem informed_next {act : Act} (orderly : Orderly incarnation w) (informed : Informed w)
    (holds : fresh w act = true) (taken : next incarnation encoded w act = some w') : Informed w' := by
  cases next_step taken with
  | listen =>
    split
    next => exact informed
    next deaf =>
      have silent : ∀ {seq client}, ¬ Current w seq client := fun current => deaf current.listening
      refine ⟨?_,fun read rest split seq held => absurd (informed.positions read rest split seq held) silent,
        fun watch open_ => absurd (informed.watching watch open_) silent,informed.closed,informed.calling⟩
      intro _ id last row said past
      exact absurd past (Nat.not_lt.mpr (orderly.recorded.lastWord_le said))
  | commit done =>
    have aside := commit_aside done
    obtain ⟨_,claims,foreign,_,rfl⟩ := commit_some done
    have calling := informed.calling
    refine aside.informed informed rfl rfl rfl ⟨by rw [foreign]; exact calling.native,?_⟩
    simpa only [cachedAgentClaim,claims] using calling.noted
  | @adopt _ store adopted =>
    -- a store of another machine has no call under way, and its resync comes
    have idle := informed.calling.native (adoptStore_foreign adopted)
    have aside : Aside w { w with store := store, resuming := true } := by
      refine ⟨rfl,rfl,le_refl _,fun _ id => .inl ⟨rfl,.inl (.inl ?_)⟩⟩
      simp [World.coming]
    refine aside.informed informed rfl rfl rfl ⟨fun _ => idle,fun before observations now writing => ?_⟩
    have writing : w.writer = .observed before observations now := writing
    rw [idle] at writing
    cases writing
  | resume => exact (resume_aside w).informed informed rfl rfl rfl informed.calling
  | announce =>
    have aside := announce_aside w _ rfl
    obtain ⟨_,_,_,store,writer,inbox,client,watch⟩ := resyncAll_aside { w with pending := w.pending - 1 }
    refine aside.informed informed inbox client (by rw [watch]) ?_
    constructor
    · rw [store,writer]; exact informed.calling.native
    · rw [store,writer]; exact informed.calling.noted
  | @observe observations _ _ done =>
    have aside := observe_aside done
    obtain ⟨_,own,rfl⟩ := observe_some done
    refine aside.informed informed rfl rfl rfl ⟨fun foreign => ?_,?_⟩
    · rw [own] at foreign; cases foreign
    · rintro before _ now ⟨rfl⟩
      exact fun id inside => claimsBefore_get? w.store observations inside
  | abandon writing =>
    have aside : Aside w { w with writer := .idle } := by
      refine ⟨rfl,rfl,le_refl _,fun _ id => .same rfl ?_ fun _ => rfl⟩
      rintro (pending | owed)
      · exact .inl pending
      · simp [outstanding,writing] at owed
    exact aside.informed informed rfl rfl rfl (.idle _)
  | cache done =>
    have aside := cache_aside informed done
    obtain ⟨_,observations,now,writing,_,rfl⟩ := cache_some done
    have touches := cacheAgentClaims_touches w.store observations now
    refine aside.informed informed rfl rfl rfl ?_
    refine informed.calling.past (by simp [writing]) touches.foreign fun _ _ _ same => ?_
    dsimp only at same
    split at same <;> cases same
  | cacheAnnounce writing =>
    obtain ⟨_,_,_,store,_,inbox,client,watch⟩ := resyncAll_aside w
    refine cacheAnnounce_aside.informed informed inbox client (congrArg _ watch) ?_
    exact informed.calling.past (by simp [writing]) (by rw [store]) fun _ _ _ same => by cases same
  | recheck done =>
    have aside := recheck_aside done
    obtain ⟨_,_,_,_,writing,rfl⟩ := recheck_some done
    refine aside.informed informed rfl rfl rfl ?_
    exact informed.calling.past (by simp [writing]) rfl fun _ _ _ same => by cases same
  | recheckFails writing =>
    refine (idle_aside writing fun heard => ?_).informed informed rfl rfl rfl (.idle _)
    simpa [fresh,heard,writing] using holds
  | append done =>
    obtain ⟨entries,writing,⟨empty,rfl⟩ | ⟨_,rfl⟩⟩ := appendBatch_some done
    · refine (idle_aside writing fun _ => .inr ?_).informed informed rfl rfl rfl (.idle _)
      simp [nothingNew,empty]
    · refine (append_aside writing fun heard => ?_).informed informed rfl rfl rfl (.idle _)
      simpa [fresh,heard,writing] using holds
  | ring =>
    apply informed.rewatched
    cases w.watch with
    | none => rfl
    | some watch => simp only [Option.map_some]; split <;> rfl
  | connect ready =>
    simp only [Bool.and_eq_true,Option.isNone_iff_eq_none] at ready
    obtain ⟨⟨heard,closed⟩,known⟩ := ready
    have empty := informed.closed closed
    have same : { w with inbox := [] } = w := by rw [← empty]
    rw [same]
    refine emit_informed orderly informed heard fun resumes => ?_
    obtain ⟨c,rfl,own,_,_⟩ := orderly.recorded.later_eq resumes
    simp only [presentable,resumes,Bool.not_true,Bool.false_or,Option.any_some,Bool.and_eq_true,
      decide_eq_true_eq,Option.any_eq_true] at known
    obtain ⟨floor,seq,held,below⟩ := known
    refine ⟨c.seq,by rw [← own],?_⟩
    rw [empty]
    exact (informed.positions [] [] (by simp [empty]) seq held).older below floor
  | wake open_ => exact informed.rewatched (by rw [open_]; rfl)
  | rearm open_ => exact informed.rewatched (by rw [open_]; rfl)
  | @read watch open_ =>
    have current := informed.watching watch open_
    have own := (orderly.watching watch open_).own
    exact emit_informed orderly informed current.listening fun _ =>
      ⟨watch.cursor.seq,by rw [← own],current⟩
  | disconnect =>
    have aside : Aside w { w with watch := none, inbox := [] } := aside_still rfl rfl rfl rfl rfl rfl rfl
    refine ⟨aside.spoken informed.spoken,?_,fun _ none => (by cases none),fun _ => rfl,informed.calling⟩
    intro read rest split seq held
    obtain ⟨rfl,rfl⟩ := List.append_eq_nil_iff.mp split.symm
    exact aside.current (informed.positions [] w.inbox rfl seq held)
  | @receive body rest inbox =>
    have aside : Aside w { w with inbox := rest, client := w.client.apply body } :=
      aside_still rfl rfl rfl rfl rfl rfl rfl
    refine ⟨aside.spoken informed.spoken,?_,?_,?_,informed.calling⟩
    · intro read after split seq held
      have whole : w.inbox = body :: read ++ after := by
        rw [inbox,List.cons_append]
        exact congrArg _ split
      exact aside.current (informed.positions (body :: read) after whole seq held)
    · intro watch open_
      have current := informed.watching watch open_
      rw [inbox] at current
      exact aside.current current
    · intro closed
      have empty := informed.closed closed
      rw [inbox] at empty
      cases empty
  | @reread id =>
    have aside : Aside w { w with client := w.client.reread w.store id } :=
      aside_still rfl rfl rfl rfl rfl rfl rfl
    have rereads := (reread_rereads w.client w.store id).applied
    refine ⟨aside.spoken informed.spoken,?_,?_,informed.closed,informed.calling⟩
    · intro read rest split seq held
      rw [(rereads read).held] at held
      exact aside.current ((rereads read).current (informed.positions read rest split seq held))
    · intro watch open_
      exact aside.current ((rereads w.inbox).current (informed.watching watch open_))
  | @startOver ids cursor _ done =>
    obtain ⟨closed,told,rfl⟩ := startOver_some done
    have aside : Aside w { w with client := ⟨ids,cursor,answer w.store,fun _ => false⟩ } :=
      aside_still rfl rfl rfl rfl rfl rfl rfl
    have empty := informed.closed closed
    refine ⟨aside.spoken informed.spoken,?_,?_,informed.closed,informed.calling⟩
    · intro read rest split seq held
      rw [empty] at split
      obtain ⟨rfl,rfl⟩ := List.append_eq_nil_iff.mp split.symm
      obtain ⟨heard,floor,known⟩ := told seq held
      exact ⟨heard,floor,known,fun _ _ _ => .inr (.inr rfl)⟩
    · intro watch open_
      rw [closed] at open_
      cases open_

theorem informed_start (store : WhereStore) : Informed (start store) := by
  refine ⟨nofun,?_,nofun,fun _ => rfl,.idle _⟩
  intro read rest split seq held
  obtain ⟨rfl,rfl⟩ := List.append_eq_nil_iff.mp split.symm
  cases held

theorem informed_run {store : WhereStore}
    (run : Reach (next incarnation encoded) (fun w act => fresh w act = true) (start store) w) :
    Orderly incarnation w ∧ Informed w :=
  run.invariant (fun w => Orderly incarnation w ∧ Informed w) ⟨orderly_start store,informed_start store⟩
    fun _ _ _ both holds taken => ⟨orderly_next both.1 taken,informed_next both.1 both.2 holds taken⟩

/-- The steps that only finish what was begun. -/
def settling : Act → Bool
  | .announce | .resume | .abandon | .cacheAnnounce | .recheck | .recheckFails | .append | .ring | .wake | .rearm
  | .read | .receive => true
  | _ => false

def CacheWriter.work : CacheWriter → Nat
  | .idle => 0
  | .observed _ _ _ => 1
  | .announcing todo => 12 + todo.length
  | .rereading todo _ => 6 + todo.length

def Watch.work (watch : Watch) : Nat :=
  (match watch.phase with
    | .waiting => 0
    | .waking => 3
    | .reading => 2) + if watch.woken then 4 else 0

/-- What is left to do once nothing more is written. -/
def work (w : World) : Nat :=
  w.writer.work + 6 * w.pending + 6 * w.resuming.toNat + 5 * w.ringing + w.inbox.length +
    (w.watch.map Watch.work).getD 0

def AtRest (w : World) : Prop := work w = 0 ∧ w.watch.isSome = true

theorem resyncAll_work (w : World) : w.resyncAll.writer = w.writer ∧ w.resyncAll.pending = w.pending ∧
    w.resyncAll.resuming = w.resuming ∧ w.resyncAll.ringing ≤ w.ringing + 1 ∧ w.resyncAll.inbox = w.inbox ∧ w.resyncAll.watch = w.watch := by
  unfold World.resyncAll
  split <;> simp [World.append]

/-- Every such step leaves less to do. -/
theorem settling_work {act : Act} (settles : settling act = true)
    (taken : next incarnation encoded w act = some w') : work w' < work w := by
  cases next_step taken with
  | announce some_left =>
    obtain ⟨writer,pending,resuming,ringing,inbox,watch⟩ :=
      resyncAll_work { w with pending := w.pending - 1 }
    simp only [work,writer,pending,resuming,inbox,watch]
    dsimp only at ringing ⊢
    omega
  | resume some_left =>
    simp only [work,some_left,World.append,Bool.toNat_true,Bool.toNat_false]
    omega
  | abandon writing => simp only [work,writing,CacheWriter.work]; omega
  | cacheAnnounce writing =>
    obtain ⟨_,pending,resuming,ringing,inbox,watch⟩ := resyncAll_work w
    simp only [work,writing,pending,resuming,inbox,watch,CacheWriter.work]
    omega
  | recheck done =>
    obtain ⟨_,_,_,_,writing,rfl⟩ := recheck_some done
    simp only [work,writing,CacheWriter.work,List.length_cons]
    omega
  | recheckFails writing => simp only [work,writing,CacheWriter.work]; omega
  | append done =>
    obtain ⟨entries,writing,⟨_,rfl⟩ | ⟨_,rfl⟩⟩ := appendBatch_some done
    · simp only [work,writing,CacheWriter.work]; omega
    · simp only [work,writing,CacheWriter.work,World.append]; omega
  | ring some_left =>
    cases open_ : w.watch with
    | none => simp only [work,open_,Option.map_none,Option.getD_none]; omega
    | some watch =>
      have little : Watch.work (if watch.phase = .waking then watch else { watch with woken := true }) ≤
          watch.work + 4 := by
        split
        next => omega
        next => simp only [Watch.work,if_true]; omega
      simp only [work,open_,Option.map_some,Option.getD_some]
      omega
  | wake open_ ready => simp [work,open_,Watch.work,ready.1,ready.2]
  | rearm open_ ready => simp [work,open_,Watch.work,ready]
  | @read watch open_ ready =>
    simp only [work,World.emit,open_,Watch.work,ready,Option.map_some,Option.getD_some,List.length_append]
    have one : ∀ body : Option Notice, body.toList.length ≤ 1 := fun body => by cases body <;> simp
    have := one (notice encoded ⟨incarnation,w.history.seq⟩
      (changesSince incarnation w.history (some watch.cursor) w.client.ids))
    omega
  | receive inbox => simp only [work,inbox,List.length_cons]; omega
  | listen | commit | adopt | observe | cache | connect | disconnect | reread | startOver => cases settles

/-- Work that is left can be taken up. -/
theorem settling_enabled (busy : work w ≠ 0) :
    ∃ act, settling act = true ∧ (next incarnation encoded w act).isSome = true := by
  cases writing : w.writer with
  | observed before observations now => exact ⟨.abandon,rfl,by simp [next,writing]⟩
  | announcing todo => exact ⟨.cacheAnnounce,rfl,by simp [next,writing]⟩
  | rereading todo entries =>
    cases todo with
    | nil => exact ⟨.append,rfl,by simp [next,appendBatch,writing]⟩
    | cons item rest => exact ⟨.recheck,rfl,by simp [next,recheck,writing]⟩
  | idle =>
    by_cases pending : w.pending = 0
    · cases resuming : w.resuming with
      | true => exact ⟨.resume,rfl,by simp [next,resuming]⟩
      | false =>
      by_cases ringing : w.ringing = 0
      · cases inbox : w.inbox with
        | cons body rest => exact ⟨.receive,rfl,by simp [next,inbox]⟩
        | nil =>
          cases open_ : w.watch with
          | none => simp [work,writing,pending,resuming,ringing,inbox,open_,CacheWriter.work] at busy
          | some watch =>
            cases phase : watch.phase with
            | waking => exact ⟨.rearm,rfl,by simp [next,open_,phase]⟩
            | reading => exact ⟨.read,rfl,by simp [next,open_,phase]⟩
            | waiting =>
              cases woken : watch.woken with
              | true => exact ⟨.wake,rfl,by simp [next,open_,phase,woken]⟩
              | false =>
                simp [work,writing,pending,resuming,ringing,inbox,open_,CacheWriter.work,Watch.work,phase,
                  woken] at busy
      · exact ⟨.ring,rfl,by simp [next,ringing]⟩
    · exact ⟨.announce,rfl,by simp [next,pending]⟩

theorem atRest_facts (rest : AtRest w) : w.writer = .idle ∧ w.coming = false ∧ w.ringing = 0 ∧ w.inbox = [] ∧
    ∃ watch, w.watch = some watch ∧ watch.phase = .waiting ∧ watch.woken = false := by
  obtain ⟨nothing,connected⟩ := rest
  obtain ⟨watch,open_⟩ := Option.isSome_iff_exists.mp connected
  simp only [work,open_,Option.map_some,Option.getD_some,Nat.add_eq_zero_iff,List.length_eq_zero_iff] at nothing
  obtain ⟨⟨⟨⟨⟨writer,pending⟩,resuming⟩,ringing⟩,inbox⟩,still⟩ := nothing
  refine ⟨?_,?_,by omega,inbox,watch,open_,?_,?_⟩
  · cases writing : w.writer with
    | idle => rfl
    | observed | announcing | rereading => simp [writing,CacheWriter.work] at writer
  · have none_pending : w.pending = 0 := by omega
    cases flag : w.resuming with
    | false => simp [World.coming,none_pending,flag]
    | true => simp [flag] at resuming
  · cases phase : watch.phase with
    | waiting => rfl
    | waking | reading => simp [Watch.work,phase] at still
  · cases woken : watch.woken with
    | false => rfl
    | true => simp [Watch.work,woken] at still

/-- A client at rest knows where every agent it watches is. -/
theorem rest_agrees (orderly : Orderly incarnation w) (informed : Informed w) (rest : AtRest w)
    {id : String} (seen : watched w.client.ids id = true) (read : w.client.unread id = false) :
    w.client.table id = answer w.store id := by
  obtain ⟨writing,pending,ringing,inbox,watch,open_,waiting,asleep⟩ := atRest_facts rest
  have newest : watch.cursor.seq = w.history.seq := by
    obtain ringing' | same := (orderly.watching watch open_).awake waiting asleep
    · omega
    · exact same
  have current := informed.watching watch open_
  rw [inbox,List.foldl_nil,newest] at current
  obtain (due | owed) | unread | agrees :=
    current.rows id seen fun last word said => orderly.recorded.lastWord_le said
  · rw [pending] at due; cases due
  · exact absurd owed (outstanding_idle writing)
  · rw [read] at unread; cases unread
  · exact agrees

/-- The rows sent cover every batch past a number, each by the newest batch that
names its agent. -/
def Told (log : List WhereBatch) (ids : Option (List String)) (since : Nat)
    (entries : Table String WhereEntry) : Prop :=
  ∀ batch ∈ log, since < batch.seq → batch.allAgents = false ∧
    ∀ id row, watched ids id = true → batch.entries.get? id = some row →
      ∃ entry, entries.get? id = some entry ∧ ∃ newest ∈ log, newest.seq = entry.version ∧
        batch.seq ≤ newest.seq ∧ newest.entries.get? id = some (some entry.row) ∧
        ∀ other ∈ log, newest.seq < other.seq → other.entries.get? id = none

def Notice.entries : Notice → Table String WhereEntry
  | .resync _ => ∅
  | .changes _ entries => entries

/-- A read either asks for a resync or skips no batch past its cursor, and then
the cursor is one of this process and not of the future. -/
def NeverSkips (incarnation : String) (w : World) (ids : Option (List String)) (cursor : Option Cursor)
    (body : Option Notice) : Prop :=
  (∃ after, body = some (.resync after)) ∨
  ∃ c, cursor = some c ∧ c.incarnation = incarnation ∧ c.seq ≤ w.history.seq ∧
    Told w.log ids c.seq ((body.map Notice.entries).getD ∅)

theorem lastWord_names {log : List WhereBatch} {history : WhereHistory} (recorded : Recorded history log)
    {batch : WhereBatch} {id : String} (inside : batch ∈ log) (named : batch.mentions id = true) :
    ∃ newest ∈ log, newest.mentions id = true ∧ batch.seq ≤ newest.seq ∧
      lastWord log id = some (newest.seq,newest.word id) ∧
      ∀ other ∈ log, newest.seq < other.seq → other.mentions id = false := by
  have ordered := recorded.ordered
  clear recorded
  induction log using List.reverseRecOn with
  | nil => cases inside
  | append_singleton log last ih =>
    rw [List.pairwise_append] at ordered
    have below : ∀ found ∈ log, found.seq < last.seq := fun found member =>
      ordered.2.2 found member last (by simp)
    rw [lastWord_append]
    by_cases newest : last.mentions id = true
    · refine ⟨last,by simp,newest,?_,by rw [if_pos newest],?_⟩
      · obtain inside | same := List.mem_append.mp inside
        · exact le_of_lt (below batch inside)
        · rw [List.mem_singleton.mp same]
      · intro other member past
        obtain member | same := List.mem_append.mp member
        · have := below other member
          omega
        · rw [List.mem_singleton.mp same] at past
          omega
    · have inside : batch ∈ log := by
        obtain inside | same := List.mem_append.mp inside
        · exact inside
        · rw [List.mem_singleton.mp same] at named
          exact absurd named newest
      obtain ⟨found,member,mentions,after,word,others⟩ := ih inside ordered.1
      refine ⟨found,by simp [member],mentions,after,by rw [if_neg newest]; exact word,?_⟩
      intro other among past
      obtain among | same := List.mem_append.mp among
      · exact others other among past
      · rw [List.mem_singleton.mp same]
        simpa using newest

theorem never_skips (recorded : Recorded w.history w.log) (ids : Option (List String))
    (cursor : Option Cursor) (after : Cursor) :
    NeverSkips incarnation w ids cursor
      (notice encoded after (changesSince incarnation w.history cursor ids)) := by
  cases given : changesSince incarnation w.history cursor ids with
  | none => exact .inl ⟨after,rfl⟩
  | some changes =>
    obtain ⟨c,rfl,own,known,_,plain,rows⟩ := recorded.read given
    have told : Told w.log ids c.seq changes := by
      intro batch inside past
      refine ⟨(plain batch inside past).1,fun id row seen found => ?_⟩
      have named : batch.mentions id = true := by simp [WhereBatch.mentions,Table.has,found]
      obtain ⟨newest,member,mentions,above,word,others⟩ := lastWord_names recorded inside named
      have said := rows id seen
      cases sent : changes.get? id with
      | none =>
        rw [sent] at said
        have := said _ _ word
        omega
      | some entry =>
        rw [sent,word] at said
        have same := said.1
        simp only [Option.some.injEq,Prod.mk.injEq] at same
        refine ⟨entry,rfl,newest,member,same.1,above,?_,fun other among later => ?_⟩
        · have several := (plain newest member (by omega)).1
          have joined := same.2
          simp only [WhereBatch.word,several,Bool.false_eq_true,if_false] at joined
          exact Option.join_eq_some_iff.mp joined
        · have silent := others other among later
          simp only [WhereBatch.mentions,Bool.or_eq_false_iff,Table.has,Option.isSome_eq_false_iff,
            Option.isNone_iff_eq_none] at silent
          exact silent.2
    unfold notice
    split
    next => exact .inl ⟨after,rfl⟩
    next same =>
      cases same
      split
      next empty =>
        refine .inr ⟨c,rfl,own,known,?_⟩
        have none_sent : changes = ∅ := Table.ext fun id => by simp [Table.get?,empty,Table.lookup]
        rw [none_sent] at told
        exact told
      next =>
        split
        next => exact .inl ⟨after,rfl⟩
        next => exact .inr ⟨c,rfl,own,known,told⟩

end Run

/-- In every run the numbers of a stream rise and a resumed cursor skips no
batch. Where every batch holds when it is appended, or a resync is still to
come, the client that is left at rest agrees with the store; and what is begun
comes to rest. -/
theorem where_watch_converges (incarnation : String) (encoded : Notice → Nat) (store : WhereStore) :
    (∀ w, Reach (next incarnation encoded) Free (start store) w →
      (∀ watch, w.watch = some watch → watch.sent.Pairwise (· > ·)) ∧
      w.log.map (·.seq) = List.range' 1 w.history.seq ∧
      ∀ cursor ids, NeverSkips incarnation w ids cursor
        (notice encoded ⟨incarnation,w.history.seq⟩ (changesSince incarnation w.history cursor ids))) ∧
    (∀ w, Reach (next incarnation encoded) (fun w act => fresh w act = true) (start store) w → AtRest w →
      ∀ id, watched w.client.ids id = true → w.client.unread id = false →
        w.client.table id = answer w.store id) ∧
    (∀ w act w', settling act = true → next incarnation encoded w act = some w' → work w' < work w) ∧
    ∀ w, work w ≠ 0 → ∃ act, settling act = true ∧ (next incarnation encoded w act).isSome = true := by
  refine ⟨fun w run => ?_,fun w run rest id seen read => ?_,
    fun _ _ _ settles taken => settling_work settles taken,fun _ busy => settling_enabled busy⟩
  · have orderly := orderly_run run
    refine ⟨fun watch open_ => (orderly.watching watch open_).rising,?_,fun cursor ids =>
      never_skips orderly.recorded ids cursor _⟩
    rw [orderly.recorded.seq]
    exact orderly.recorded.numbered
  · obtain ⟨orderly,informed⟩ := informed_run run
    exact rest_agrees orderly informed rest seen read

namespace Overtaken

def agent : String := "agent_00000001"

def before : WhereStore where
  agents := (∅ : Table String AgentLiveness).insert agent ⟨none,none,none⟩
  claimCache := ∅
  selfAuthor := some "self"
  memberName := ∅
  identityLogState := some .enabled
  agentMove := []
  foreign := false

def claim : CachedClaim := ⟨some "other",1,none,1,5,false,false⟩

def cached : WhereStore := cacheAgentClaims before [(agent,.present claim "self")] 5

def named : WhereStore := { cached with memberName := (∅ : Table String String).insert "other" "Studio" }

/-- A member is named between the re-read of a claim and the append of its row. -/
def labels : List Act :=
  [.listen,.connect none,.receive,.reread agent,
   .observe [(agent,.present claim "self")] 5,.cache true,.recheck,
   .commit true false named,.announce,.ring,.wake,.rearm,.read,.receive,.reread agent,
   .append,.ring,.wake,.rearm,.read,.receive]

def size : Notice → Nat := fun _ => 0

theorem ends_stale : ((exec (next "process" size) (start before) labels).map fun w =>
    (work w,w.watch.isSome,watched w.client.ids agent,w.client.unread agent,
      decide (w.client.table agent = answer w.store agent))) = some (0,true,true,false,false) := by
  decide +kernel

end Overtaken

/-- A row read before another writer's resync may be appended after it. -/
theorem where_watch_stale : ∃ w, Reach (next "process" Overtaken.size) Free (start Overtaken.before) w ∧
    AtRest w ∧ watched w.client.ids Overtaken.agent = true ∧ w.client.unread Overtaken.agent = false ∧
    w.client.table Overtaken.agent ≠ answer w.store Overtaken.agent := by
  obtain ⟨w,done,facts⟩ := Option.map_eq_some_iff.mp Overtaken.ends_stale
  simp only [Prod.mk.injEq,decide_eq_false_iff_not] at facts
  obtain ⟨rest,connected,seen,read,differs⟩ := facts
  exact ⟨w,exec_reach done,⟨rest,connected⟩,seen,read,differs⟩

end Entorhinal.Where
