import Entorhinal.Paging
import Entorhinal.SessionRuns
import Mathlib.Data.Int.ConditionallyCompleteOrder
import Mathlib.Data.List.Sort
import Mathlib.Order.ConditionallyCompleteLattice.Basic
import Mathlib.Order.OrderDual

/-! The session list of an agent, page by page, while sessions are registered, ended and
pruned. -/
namespace Entorhinal.SessionPages
open Session SessionRuns Transition Paging

def networkAbsent : String := "unknown"

structure AgentSession where
  runner : Option String
  session : Option String
  harness : Option String
  refKind : String
  sessionRef : String
  projectRoot : Option String
  registeredAtMs : Int
  endedAtMs : Option Int
  network : String
  heldOn : Option String
deriving DecidableEq, Repr

structure SessionCursor where
  registeredAtMs : Int
  refKind : String
  sessionRef : String
deriving DecidableEq, Repr

structure AgentSessionPage where
  sessions : List AgentSession
  next : Option SessionCursor
deriving DecidableEq, Repr

def agentSession (store : SessionStore) (key : RefKey) (row : SessionBinding) : AgentSession where
  runner := row.runner
  session := row.sessionId
  harness := row.harness
  refKind := (ofLex key).1
  sessionRef := (ofLex key).2
  projectRoot := if row.projectRoot = "" then none else some row.projectRoot
  registeredAtMs := row.registeredAtMs
  endedAtMs := row.endedAtMs
  network := ((store.historyOf key).getLast?.map NetworkEntry.network).getD networkAbsent
  heldOn := row.heldOn

/-- The rows after a cursor in list order. -/
def follows (after : Option SessionCursor) (key : RefKey) (row : SessionBinding) : Bool :=
  match after with
  | none => true
  | some c => decide (row.registeredAtMs < c.registeredAtMs) ||
      (row.registeredAtMs == c.registeredAtMs &&
        (decide (c.refKind < (ofLex key).1) ||
          ((ofLex key).1 == c.refKind && decide (c.sessionRef < (ofLex key).2))))

/-- `registered_at_ms DESC, ref_kind, ref`. -/
def listed (a b : RefKey × SessionBinding) : Bool :=
  decide (b.2.registeredAtMs < a.2.registeredAtMs) ||
    (a.2.registeredAtMs == b.2.registeredAtMs && decide (a.1 ≤ b.1))

def cursorOf (s : AgentSession) : SessionCursor := ⟨s.registeredAtMs,s.refKind,s.sessionRef⟩

def selects (agentId : String) (isOpen : Bool) (row : SessionBinding) : Bool :=
  row.agentId == agentId && (!isOpen || row.endedAtMs.isNone)

/-- A page and one row ahead of it, whose count no table reaches the end of `i64` by. -/
def agentSessionsFiltered (store : SessionStore) (agentId : String) (after : Option SessionCursor)
    (limit : Nat) (isOpen : Bool) : Except AgentMutationError AgentSessionPage :=
  match store.agents.get? agentId with
  | none => refuse "unknown_agent" ("unknown agent " ++ agentId) []
  | some _ =>
    let found := ((store.bindings.rows.filter fun r =>
      selects agentId isOpen r.2 && follows after r.1 r.2).mergeSort listed).take (limit + 1)
    let page := lookAhead cursorOf limit (found.map fun r => agentSession store r.1 r.2)
    .ok ⟨page.1,page.2⟩

/-- The place of a row in the list. -/
abbrev ListKey := Intᵒᵈ ×ₗ RefKey

def listKey (s : AgentSession) : ListKey := toLex (OrderDual.toDual s.registeredAtMs,toLex (s.refKind,s.sessionRef))

def boundOf (c : SessionCursor) : Bound ListKey :=
  Bound.key (toLex (OrderDual.toDual c.registeredAtMs,toLex (c.refKind,c.sessionRef)))

def startOf (after : Option SessionCursor) : Bound ListKey :=
  match after with
  | none => ⊥
  | some c => boundOf c

def rowKey (r : RefKey × SessionBinding) : ListKey := toLex (OrderDual.toDual r.2.registeredAtMs,r.1)

/-- The whole list of an agent. -/
def sessionList (store : SessionStore) (agentId : String) (isOpen : Bool) : List AgentSession :=
  ((store.bindings.rows.filter fun r => selects agentId isOpen r.2).mergeSort listed).map
    fun r => agentSession store r.1 r.2

section List

theorem listed_iff (a b : RefKey × SessionBinding) : listed a b = true ↔ rowKey a ≤ rowKey b := by
  rw [rowKey,rowKey,Prod.Lex.toLex_le_toLex]
  simp only [listed,Bool.or_eq_true,Bool.and_eq_true,decide_eq_true_eq,beq_iff_eq,OrderDual.toDual_lt_toDual,
    OrderDual.toDual_inj]

theorem follows_iff {after : Option SessionCursor} {key : RefKey} {row : SessionBinding} :
    follows after key row = true ↔ startOf after < Bound.key (rowKey (key,row)) := by
  cases after with
  | none => simp [follows,startOf]
  | some c =>
    rw [startOf,boundOf,Bound.key_lt,rowKey,Prod.Lex.toLex_lt_toLex]
    have inner : toLex (c.refKind,c.sessionRef) < key ↔
        c.refKind < (ofLex key).1 ∨ c.refKind = (ofLex key).1 ∧ c.sessionRef < (ofLex key).2 :=
      Prod.Lex.toLex_lt_toLex (y := ofLex key)
    rw [inner]
    simp only [follows,Bool.or_eq_true,Bool.and_eq_true,decide_eq_true_eq,beq_iff_eq,
      OrderDual.toDual_lt_toDual,OrderDual.toDual_inj]
    constructor
    · rintro (less | ⟨same,less | ⟨kind,less⟩⟩)
      · exact .inl less
      · exact .inr ⟨same.symm,.inl less⟩
      · exact .inr ⟨same.symm,.inr ⟨kind.symm,less⟩⟩
    · rintro (less | ⟨same,less | ⟨kind,less⟩⟩)
      · exact .inl less
      · exact .inr ⟨same.symm,.inl less⟩
      · exact .inr ⟨same.symm,.inr ⟨kind.symm,less⟩⟩

theorem keys_distinct (bindings : Table RefKey SessionBinding) : (bindings.rows.map Prod.fst).Nodup :=
  List.pairwise_map.mpr (bindings.sorted.imp fun less => ne_of_lt less)

theorem selected_distinct (store : SessionStore) (agentId : String) (isOpen : Bool) :
    ((store.bindings.rows.filter fun r => selects agentId isOpen r.2).map rowKey).Nodup := by
  have keys := (keys_distinct store.bindings).sublist ((List.filter_sublist (p := fun r => selects agentId isOpen r.2)).map _)
  refine List.pairwise_map.mpr ((List.pairwise_map.mp keys).imp fun {a b} apart same => apart ?_)
  exact congrArg (fun k : ListKey => (ofLex k).2) same

theorem listKey_session (store : SessionStore) (r : RefKey × SessionBinding) :
    listKey (agentSession store r.1 r.2) = rowKey r := rfl

theorem sessionList_ordered (store : SessionStore) (agentId : String) (isOpen : Bool) :
    Ordered listKey (sessionList store agentId isOpen) :=
  List.pairwise_map.mpr (sorted_strict listed_iff (selected_distinct store agentId isOpen))

theorem mem_sessionList {store : SessionStore} {agentId : String} {isOpen : Bool} {s : AgentSession} :
    s ∈ sessionList store agentId isOpen ↔ ∃ key row, store.bindings.get? key = some row ∧
      selects agentId isOpen row = true ∧ agentSession store key row = s := by
  simp only [sessionList,List.mem_map,List.mem_mergeSort,List.mem_filter,Prod.exists,Table.mem_rows,and_assoc]

/-- What a page finds is the list from its cursor on. -/
theorem found_eq (store : SessionStore) (agentId : String) (after : Option SessionCursor) (limit : Nat)
    (isOpen : Bool) :
    ((((store.bindings.rows.filter fun r => selects agentId isOpen r.2 && follows after r.1 r.2).mergeSort
        listed).take (limit + 1)).map fun r => agentSession store r.1 r.2) =
      (between listKey (startOf after) ⊤ (sessionList store agentId isOpen)).take (limit + 1) := by
  have split : (store.bindings.rows.filter fun r => selects agentId isOpen r.2 && follows after r.1 r.2) =
      (store.bindings.rows.filter fun r => selects agentId isOpen r.2).filter fun r => follows after r.1 r.2 := by
    rw [List.filter_filter]
    exact List.filter_congr fun r _ => Bool.and_comm _ _
  rw [split,mergeSort_filter listed_iff (selected_distinct store agentId isOpen),List.map_take,between,sessionList,
    List.filter_map]
  refine congrArg (fun rows : List (RefKey × SessionBinding) => (rows.map fun r => agentSession store r.1 r.2).take (limit + 1)) ?_
  apply List.filter_congr
  intro r _
  rw [Bool.eq_iff_iff,follows_iff,Function.comp,decide_eq_true_eq,listKey_session]
  exact ⟨fun after => ⟨after,le_top⟩,fun inside => inside.1⟩

end List

section Walk

/-- One page of a walk: the calls of others since the page before, the store it was read
from, and what was asked and answered. -/
structure Visit where
  between : List Label
  store : SessionStore
  limit : Nat
  page : AgentSessionPage

/-- The stores of the pages follow from each other by the calls between them. -/
def Runs : SessionStore → List Visit → Prop
  | _,[] => True
  | store,v :: later => exec SessionRuns.next store v.between = some v.store ∧ Runs v.store later

/-- Pages taken one after the other, each from the cursor of the one before. -/
def Walk (agentId : String) (isOpen : Bool) : Option SessionCursor → List Visit → Prop
  | _,[] => True
  | after,v :: later => 1 ≤ v.limit ∧
      agentSessionsFiltered v.store agentId after v.limit isOpen = .ok v.page ∧
      (later = [] ∨ ∃ cursor, v.page.next = some cursor ∧ Walk agentId isOpen (some cursor) later)

def Ended (visits : List Visit) : Prop := ∃ last, visits.getLast? = some last ∧ last.page.next = none

def sessionsOf (visits : List Visit) : List AgentSession := visits.flatMap fun v => v.page.sessions

/-- The binding of a key stands with the agent since one time, open if only open ones are listed. -/
def Stands (store : SessionStore) (agentId : String) (isOpen : Bool) (key : RefKey) (time : Int) : Prop :=
  ∃ row, store.bindings.get? key = some row ∧ selects agentId isOpen row = true ∧ row.registeredAtMs = time

def AgentSession.key (s : AgentSession) : RefKey := toLex (s.refKind,s.sessionRef)

def turnOf (agentId : String) (isOpen : Bool) (after : Option SessionCursor) (v : Visit) :
    Turn ListKey AgentSession :=
  ⟨sessionList v.store agentId isOpen,startOf after,stop boundOf v.page.next⟩

variable {agentId : String} {isOpen : Bool}

/-- What one page is: the part of the list between its two bounds. -/
theorem page_between {store : SessionStore} {after : Option SessionCursor} {limit : Nat} {page : AgentSessionPage}
    (some_ : 1 ≤ limit) (ok : agentSessionsFiltered store agentId after limit isOpen = .ok page) :
    page.sessions = between listKey (startOf after) (stop boundOf page.next) (sessionList store agentId isOpen) ∧
      (∀ s ∈ page.sessions, startOf after < Bound.key (listKey s)) ∧
      (page.next.isSome = true → page.sessions ≠ []) ∧
      (∀ cursor, page.next = some cursor → ∃ s ∈ page.sessions, boundOf cursor = Bound.key (listKey s)) := by
  unfold agentSessionsFiltered at ok
  split at ok
  next => cases ok
  next =>
    cases ok
    simp only [found_eq]
    have faithful : ∀ s, boundOf (cursorOf s) = Bound.key (listKey s) := fun _ => rfl
    obtain ⟨shape,beyond,filled⟩ := lookAhead_between faithful (sessionList_ordered store agentId isOpen) some_
    exact ⟨shape,beyond,filled,fun cursor next => lookAhead_cursor faithful next⟩

/-- A walk is a chain of pages. -/
theorem Walk.chained {visits : List Visit} {after : Option SessionCursor} (walk : Walk agentId isOpen after visits) :
    ∃ (turns : List (Turn ListKey AgentSession)) (high : Bound ListKey), Chained (startOf after) high turns ∧
      turns.map Turn.rows = visits.map (fun v => sessionList v.store agentId isOpen) ∧
      turns.map (Turn.returned listKey) = visits.map (fun v => v.page.sessions) ∧
      (Ended visits → high = ⊤) := by
  induction visits generalizing after with
  | nil => exact ⟨[],startOf after,rfl,rfl,rfl,fun ⟨_,none_,_⟩ => by cases none_⟩
  | cons v later ih =>
    obtain ⟨some_,ok,rest⟩ := walk
    obtain ⟨shape,beyond,_,ends⟩ := page_between some_ ok
    have up : startOf after ≤ stop boundOf v.page.next := by
      cases next : v.page.next with
      | none => exact le_top
      | some cursor =>
        obtain ⟨s,member,same⟩ := ends cursor next
        exact (le_of_lt (beyond s member)).trans (le_of_eq same.symm)
    rcases rest with rfl | ⟨cursor,next,rest⟩
    · refine ⟨[turnOf agentId isOpen after v],stop boundOf v.page.next,⟨rfl,up,rfl⟩,rfl,?_,?_⟩
      · rw [List.map_singleton,List.map_singleton,Turn.returned,shape]
        rfl
      · rintro ⟨last,final,none_⟩
        obtain rfl : v = last := by simpa using final
        rw [none_]
        rfl
    · obtain ⟨turns,high,chained,rows,returned_,ended⟩ := ih rest
      have joined : stop boundOf v.page.next = startOf (some cursor) := by
        rw [next]
        rfl
      refine ⟨turnOf agentId isOpen after v :: turns,high,⟨rfl,up,?_⟩,?_,?_,?_⟩
      · rw [turnOf,joined]
        exact chained
      · rw [List.map_cons,List.map_cons,rows]
        rfl
      · rw [List.map_cons,List.map_cons,returned_,Turn.returned,shape]
        rfl
      · rintro ⟨last,final,none_⟩
        cases later with
        | nil =>
          obtain rfl : v = last := by simpa using final
          rw [next] at none_
          cases none_
        | cons w rest => exact ended ⟨last,by rw [List.getLast?_cons_cons] at final; exact final,none_⟩

theorem walk_asks : Paging.Asks (Walk agentId isOpen) fun after v =>
    1 ≤ v.limit ∧ agentSessionsFiltered v.store agentId after v.limit isOpen = .ok v.page where
  nil _ := trivial
  cons walk := ⟨⟨walk.1,walk.2.1⟩,walk.2.2.imp_right fun ⟨cursor,_,rest⟩ => ⟨some cursor,rest⟩⟩

/-- Each page shows rows of its own store. -/
theorem Walk.rows {visits : List Visit} {after : Option SessionCursor} (walk : Walk agentId isOpen after visits) :
    ∀ v ∈ visits, ∀ s ∈ v.page.sessions, s ∈ sessionList v.store agentId isOpen := by
  intro v member s shown
  obtain ⟨cursor,some_,ok⟩ := walk_asks.each walk v member
  rw [(page_between some_ ok).1] at shown
  exact List.mem_of_mem_filter shown

/-- Rows of a list in strict order that agree on the key are one row. -/
theorem one_of_key {rows : List AgentSession} (ordered : Ordered listKey rows) {k : ListKey} {key : RefKey}
    (same : ∀ s ∈ rows, AgentSession.key s = key → listKey s = k) {s : AgentSession} (member : s ∈ rows)
    (own : AgentSession.key s = key) : rows.filter (fun s => decide (AgentSession.key s = key)) = [s] := by
  have inside : s ∈ rows.filter fun s => decide (AgentSession.key s = key) :=
    List.mem_filter.mpr ⟨member,decide_eq_true own⟩
  have alike : ∀ t ∈ rows.filter (fun s => decide (AgentSession.key s = key)), listKey t = k := by
    intro t kept
    obtain ⟨there,named⟩ := List.mem_filter.mp kept
    exact same t there (of_decide_eq_true named)
  have strict : Ordered listKey (rows.filter fun s => decide (AgentSession.key s = key)) := ordered.filter _
  generalize rows.filter (fun s => decide (AgentSession.key s = key)) = kept at inside alike strict
  match kept with
  | [] => cases inside
  | [t] => exact congrArg (fun x => [x]) (List.mem_singleton.mp inside).symm
  | t :: u :: _ =>
    have less := (List.pairwise_cons.mp strict).1 u List.mem_cons_self
    rw [alike t List.mem_cons_self,alike u (List.mem_cons_of_mem _ List.mem_cons_self)] at less
    exact absurd less (lt_irrefl _)

theorem Walk.filled {visits : List Visit} {after : Option SessionCursor} (walk : Walk agentId isOpen after visits)
    (going : ¬Ended visits) : ∀ v ∈ visits, v.page.sessions ≠ [] := by
  induction visits generalizing after with
  | nil => nofun
  | cons v later ih =>
    obtain ⟨some_,ok,rest⟩ := walk
    obtain ⟨_,_,filled,_⟩ := page_between some_ ok
    intro w member
    rcases rest with rfl | ⟨cursor,next,rest⟩
    · obtain rfl := List.mem_singleton.mp member
      apply filled
      by_contra none_
      exact going ⟨w,rfl,by simpa using none_⟩
    · rcases List.mem_cons.mp member with rfl | member
      · exact filled (by rw [next]; rfl)
      · refine ih rest ?_ w member
        rintro ⟨last,final,none_⟩
        refine going ⟨last,?_,none_⟩
        cases later with
        | nil => cases final
        | cons u more =>
          rw [List.getLast?_cons_cons]
          exact final

end Walk

section Runs

/-- The calls that may write when the binding of a key was registered: its registration, and
the activation of a move, which brings bindings of its own. -/
def Restamps (key : RefKey) : Label → Prop
  | .call (.register request _) => request.key = key
  | .call (.activate ..) => True
  | _ => False

variable {store store' : SessionStore} {key : RefKey} {row' : SessionBinding}

theorem put_others {own : RefKey} {row : SessionBinding} (ok : store.put own row = .ok store') (away : key ≠ own) :
    store'.bindings.get? key = store.bindings.get? key := by
  unfold SessionStore.put at ok
  split at ok
  next => cases ok
  next =>
    cases ok
    rw [Table.get?_insert,if_neg away]

theorem relocate_others {request : SessionRegistration} {route : Route} (ok : relocate store request route = .ok store')
    (away : key ≠ request.key) (found : store'.bindings.get? key = some row') :
    store.bindings.get? key = some row' := by
  have rekeyed : ∀ harness, store.rekey route.previous request.key harness = .ok store' →
      store.bindings.get? key = some row' := by
    intro harness ok
    unfold SessionStore.rekey at ok
    split at ok
    next => cases ok; exact found
    next =>
      split at ok
      next => cases ok
      next =>
        rw [put_others ok away] at found
        simp only [Table.get?_erase] at found
        split at found
        next => cases found
        next => exact found
  unfold relocate at ok
  split at ok
  next => exact rekeyed _ ok
  next =>
    split at ok
    next => exact rekeyed _ ok
    next => cases ok; exact found

/-- A registration writes the binding of its own key only. -/
theorem register_others {request : SessionRegistration} {commitMs : Int}
    (ok : registerSession store request commitMs = .ok store') (away : key ≠ request.key)
    (found : store'.bindings.get? key = some row') : store.bindings.get? key = some row' := by
  obtain ⟨route,plan,ok⟩ := registerSession_written ok
  obtain ⟨moved,written,_,relocates,puts,bindings⟩ := writeRegistration_parts ok
  rw [bindings,put_others puts away] at found
  exact relocate_others relocates away found

theorem endSession_stamp {harness sessionId : String} {runner : Option String} {now : Int}
    (found : (Session.endSession store harness sessionId runner now).1.bindings.get? key = some row') :
    ∃ row, store.bindings.get? key = some row ∧ row'.registeredAtMs = row.registeredAtMs := by
  unfold Session.endSession at found
  split at found
  next => exact ⟨row',found,rfl⟩
  next =>
    split at found
    next => exact ⟨row',found,rfl⟩
    next =>
      split at found
      next => exact ⟨row',found,rfl⟩
      next =>
        dsimp only at found
        split at found
        next => exact ⟨row',found,rfl⟩
        next =>
          simp only [endBindings,Table.get?_update,Option.map_eq_some_iff] at found
          obtain ⟨row,before,rfl⟩ := found
          refine ⟨row,before,?_⟩
          split <;> rfl

/-- A call that does not register a key leaves when its binding was registered. -/
theorem next_stamp {label : Label} (taken : SessionRuns.next store label = some store')
    (plain : ¬Restamps key label) (found : store'.bindings.get? key = some row') :
    ∃ row, store.bindings.get? key = some row ∧ row'.registeredAtMs = row.registeredAtMs := by
  cases label with
  | outside =>
    cases taken
    exact ⟨row',found,rfl⟩
  | call call =>
    obtain ⟨result,performed,after⟩ := Option.map_eq_some_iff.mp taken
    cases result with
    | error =>
      cases after
      exact ⟨row',found,rfl⟩
    | ok middle =>
      cases after
      cases call with
      | register request commitMs =>
        exact ⟨row',register_others (Option.some.inj performed) (fun same => plain same.symm) found,rfl⟩
      | endSession harness sessionId runner now =>
        obtain ⟨_,_,rfl⟩ := map_ok (Option.some.inj performed)
        exact endSession_stamp found
      | stampGone stamps =>
        cases performed
        obtain ⟨row,before,rfl | ⟨_,_,_,rfl⟩⟩ := stampGoneSessions_get stamps found
        · exact ⟨row',before,rfl⟩
        · exact ⟨row,before,rfl⟩
      | setNetwork harness sessionId network now =>
        obtain ⟨⟨middle,change⟩,set_,rfl⟩ := map_ok (Option.some.inj performed)
        unfold setSessionNetwork at set_
        split at set_
        next => cases set_
        next =>
          split at set_
          next => cases set_
          next =>
            obtain ⟨_,_,applied⟩ := bind_ok set_
            exact ⟨row',applyNetworkPlan_bindings applied ▸ found,rfl⟩
      | prune now selected =>
        obtain ⟨_,pruned,same⟩ := Option.map_eq_some_iff.mp performed
        cases same
        exact ⟨row',(prune_ok pruned key).2 row' found,rfl⟩
      | activate => exact absurd trivial plain

theorem exec_stamp {labels : List Label} (done : exec SessionRuns.next store labels = some store')
    (plain : ∀ label ∈ labels, ¬Restamps key label) (found : store'.bindings.get? key = some row') :
    ∃ row, store.bindings.get? key = some row ∧ row'.registeredAtMs = row.registeredAtMs := by
  induction labels generalizing store with
  | nil =>
    cases done
    exact ⟨row',found,rfl⟩
  | cons label rest ih =>
    obtain ⟨middle,taken,done⟩ := Option.bind_eq_some_iff.mp done
    obtain ⟨row,there,same⟩ := ih done fun l member => plain l (List.mem_cons_of_mem _ member)
    obtain ⟨first,before,stamp⟩ := next_stamp taken (plain label List.mem_cons_self) there
    exact ⟨first,before,same.trans stamp⟩

/-- Over the pages of a walk, as long as none of the calls between them registers the key. -/
theorem Runs.stamp {visits : List Visit} (runs : Runs store visits) {v : Visit} (member : v ∈ visits)
    (plain : ∀ w ∈ visits, ∀ label ∈ w.between, ¬Restamps key label)
    (found : v.store.bindings.get? key = some row') :
    ∃ row, store.bindings.get? key = some row ∧ row'.registeredAtMs = row.registeredAtMs := by
  induction visits generalizing store with
  | nil => cases member
  | cons w later ih =>
    obtain ⟨done,runs⟩ := runs
    have first := plain w List.mem_cons_self
    rcases List.mem_cons.mp member with rfl | member
    · exact exec_stamp done first found
    · obtain ⟨row,there,same⟩ := ih runs member fun u listed => plain u (List.mem_cons_of_mem _ listed)
      obtain ⟨row,before,stamp⟩ := exec_stamp done first there
      exact ⟨row,before,same.trans stamp⟩

/-- The store a walk has come to. -/
def storeAfter (store : SessionStore) (visits : List Visit) : SessionStore :=
  (visits.getLast?.map Visit.store).getD store

theorem Runs.suffix {earlier later : List Visit} (runs : Runs store (earlier ++ later)) :
    Runs (storeAfter store earlier) later := by
  induction earlier generalizing store with
  | nil => exact runs
  | cons v earlier ih =>
    have rest := ih runs.2
    cases earlier with
    | nil => exact rest
    | cons w more =>
      simp only [storeAfter,List.getLast?_cons_cons] at rest ⊢
      obtain ⟨last,ends⟩ : ∃ last, (w :: more).getLast? = some last :=
        ⟨_,List.getLast?_eq_some_getLast (List.cons_ne_nil _ _)⟩
      rw [ends] at rest ⊢
      exact rest

theorem Runs.front {earlier later : List Visit} (runs : Runs store (earlier ++ later)) : Runs store earlier := by
  induction earlier generalizing store with
  | nil => trivial
  | cons v earlier ih => exact ⟨runs.1,ih runs.2⟩

end Runs

section Laws
variable {agentId : String} {isOpen : Bool} {start : SessionStore} {visits : List Visit}

theorem shown_row {store : SessionStore} {s : AgentSession} (member : s ∈ sessionList store agentId isOpen) :
    ∃ row, store.bindings.get? s.key = some row ∧ row.registeredAtMs = s.registeredAtMs := by
  obtain ⟨key,row,found,_,rfl⟩ := mem_sessionList.mp member
  exact ⟨row,found,rfl⟩

theorem returned_eq {turns : List (Turn ListKey AgentSession)}
    (same : turns.map (Turn.returned listKey) = visits.map fun v => v.page.sessions) :
    returned listKey turns = sessionsOf visits := by
  rw [returned,sessionsOf,List.flatMap_def,List.flatMap_def,same]

theorem turns_rows {turns : List (Turn ListKey AgentSession)}
    (rows : turns.map Turn.rows = visits.map fun v => sessionList v.store agentId isOpen)
    {t : Turn ListKey AgentSession} (member : t ∈ turns) :
    ∃ v ∈ visits, t.rows = sessionList v.store agentId isOpen := by
  have listed : t.rows ∈ turns.map Turn.rows := List.mem_map_of_mem member
  rw [rows] at listed
  obtain ⟨v,there,same⟩ := List.mem_map.mp listed
  exact ⟨v,there,same.symm⟩

theorem Walk.ordered {after : Option SessionCursor} (walk : Walk agentId isOpen after visits) :
    Ordered listKey (sessionsOf visits) := by
  obtain ⟨turns,high,chained,rows,back,_⟩ := walk.chained
  rw [← returned_eq back]
  refine chained.ordered fun t member => ?_
  obtain ⟨v,_,same⟩ := turns_rows rows member
  exact same ▸ sessionList_ordered v.store agentId isOpen

/-- A binding that stands at every page of a whole walk is in it once. -/
theorem Walk.once (walk : Walk agentId isOpen none visits) (ended : Ended visits) {key : RefKey} {time : Int}
    (stands : ∀ v ∈ visits, Stands v.store agentId isOpen key time) :
    ∃ s, s.registeredAtMs = time ∧
      (sessionsOf visits).filter (fun s => decide (AgentSession.key s = key)) = [s] := by
  obtain ⟨turns,high,chained,rows,back,top⟩ := walk.chained
  have whole := top ended
  have present : ∀ t ∈ turns, ∃ s ∈ t.rows, listKey s = toLex (OrderDual.toDual time,key) := by
    intro t member
    obtain ⟨v,there,same⟩ := turns_rows rows member
    obtain ⟨row,found,selected,stamp⟩ := stands v there
    refine ⟨agentSession v.store key row,same ▸ mem_sessionList.mpr ⟨key,row,found,selected,rfl⟩,?_⟩
    rw [← stamp]
    rfl
  obtain ⟨t,member,s,shown,own⟩ := chained.complete ⟨Bound.key_bottom _,whole ▸ le_top⟩ present
  have inside : s ∈ sessionsOf visits := by
    rw [← returned_eq back]
    exact List.mem_flatMap.mpr ⟨t,member,shown⟩
  have keyed : AgentSession.key s = key := congrArg (fun k : ListKey => (ofLex k).2) own
  refine ⟨s,?_,one_of_key (k := toLex (OrderDual.toDual time,key)) walk.ordered ?_ inside keyed⟩
  · exact congrArg (fun k : ListKey => OrderDual.ofDual (ofLex k).1) own
  · intro other listed named
    obtain ⟨v,there,shown⟩ := List.mem_flatMap.mp listed
    obtain ⟨row,found,stamp⟩ := shown_row (walk.rows v there other shown)
    obtain ⟨row',found',_,stamp'⟩ := stands v there
    rw [named,found'] at found
    obtain rfl := Option.some.inj found
    have sameTime : other.registeredAtMs = time := stamp.symm.trans stamp'
    change (toLex (OrderDual.toDual other.registeredAtMs,AgentSession.key other) : ListKey) = _
    rw [named,sameTime]

/-- A binding shown on two pages was registered between them. -/
theorem Walk.again {after : Option SessionCursor} (walk : Walk agentId isOpen after visits)
    (runs : Runs start visits) {earlier middle later : List Visit} {v w : Visit}
    (shape : visits = earlier ++ v :: middle ++ w :: later) {s t : AgentSession} (first : s ∈ v.page.sessions)
    (second : t ∈ w.page.sessions) (same : AgentSession.key s = AgentSession.key t) :
    ∃ u ∈ middle ++ [w], ∃ label ∈ u.between, Restamps (AgentSession.key s) label := by
  have inV : v ∈ visits := by simp [shape]
  have inW : w ∈ visits := by simp [shape]
  obtain ⟨row,found,stamp⟩ := shown_row (walk.rows v inV s first)
  obtain ⟨row',found',stamp'⟩ := shown_row (walk.rows w inW t second)
  have less : listKey s < listKey t := by
    have ordered := walk.ordered
    rw [shape,sessionsOf,List.flatMap_append,List.flatMap_append,Ordered,List.pairwise_append] at ordered
    refine ordered.2.2 s (List.mem_append_right _ ?_) t ?_
    · exact List.mem_flatMap.mpr ⟨v,List.mem_cons_self,first⟩
    · exact List.mem_flatMap.mpr ⟨w,List.mem_cons_self,second⟩
  by_contra none_
  have tail : Runs v.store (middle ++ [w]) := by
    have split : visits = (earlier ++ [v]) ++ ((middle ++ [w]) ++ later) := by simp [shape]
    have onward := Runs.suffix (split ▸ runs)
    rw [storeAfter,List.getLast?_append,List.getLast?_singleton] at onward
    exact Runs.front onward
  obtain ⟨old,before,kept⟩ := Runs.stamp tail (List.mem_append_right _ (List.mem_singleton_self w))
    (fun u member label listed restamps => none_ ⟨u,member,label,listed,restamps⟩) (same ▸ found')
  rw [found] at before
  obtain rfl := Option.some.inj before
  have times : s.registeredAtMs = t.registeredAtMs := by rw [← stamp,← stamp',kept]
  refine absurd less (not_lt_of_ge (le_of_eq ?_))
  change (toLex (OrderDual.toDual t.registeredAtMs,AgentSession.key t) : ListKey) = toLex (_,AgentSession.key s)
  rw [same,times]

/-- Without registrations a walk has at most one page more than there are bindings. -/
theorem Walk.ends {after : Option SessionCursor} (walk : Walk agentId isOpen after visits) (runs : Runs start visits)
    (still : ∀ v ∈ visits, ∀ label ∈ v.between, ∀ key, ¬Restamps key label)
    (long : start.bindings.size < visits.length) : Ended visits := by
  by_contra going
  obtain ⟨turns,high,chained,rows,back,_⟩ := walk.chained
  have filled : ∀ v ∈ visits, v.page.sessions ≠ [] := walk.filled going
  have many : turns.length = visits.length := by
    have := congrArg List.length rows
    rwa [List.length_map,List.length_map] at this
  have few := chained.bounded (fun t member => by
      obtain ⟨v,_,same⟩ := turns_rows rows member
      exact same ▸ sessionList_ordered v.store agentId isOpen)
    (start.bindings.rows.map rowKey) (fun t member s listed => by
      obtain ⟨v,there,same⟩ := turns_rows rows member
      obtain ⟨key,row,found,_,rfl⟩ := mem_sessionList.mp (same ▸ listed)
      obtain ⟨old,before,stamp⟩ := Runs.stamp runs there (fun w listed label own => still w listed label own key) found
      refine List.mem_map.mpr ⟨(key,old),Table.mem_rows.mpr before,?_⟩
      rw [listKey_session v.store (key,row),rowKey,rowKey,stamp])
    (fun t member => by
      have listed : t.returned listKey ∈ turns.map (Turn.returned listKey) := List.mem_map_of_mem member
      rw [back] at listed
      obtain ⟨v,there,same⟩ := List.mem_map.mp listed
      exact same ▸ filled v there)
  rw [many,List.length_map] at few
  exact absurd long (Nat.not_lt_of_le few)

/-- The pages of a walk are in list order, a binding that stands throughout is in a whole one
once, one shown twice was registered in between, and without registrations the walk ends. -/
theorem agent_sessions_exact (walk : Walk agentId isOpen none visits) (runs : Runs start visits) :
    Ordered listKey (sessionsOf visits) ∧
    (Ended visits → ∀ key time, (∀ v ∈ visits, Stands v.store agentId isOpen key time) →
      ∃ s, s.registeredAtMs = time ∧
        (sessionsOf visits).filter (fun s => decide (AgentSession.key s = key)) = [s]) ∧
    (∀ earlier v middle w later s t, visits = earlier ++ v :: middle ++ w :: later → s ∈ v.page.sessions →
      t ∈ w.page.sessions → AgentSession.key s = AgentSession.key t →
      ∃ u ∈ middle ++ [w], ∃ label ∈ u.between, Restamps (AgentSession.key s) label) ∧
    (∀ earlier later, visits = earlier ++ later →
      (∀ v ∈ later, ∀ label ∈ v.between, ∀ key, ¬Restamps key label) →
      (storeAfter start earlier).bindings.size < later.length → Ended visits) := by
  refine ⟨walk.ordered,fun ended key time => walk.once ended,?_,?_⟩
  · rintro earlier v middle w later s t shape first second same
    exact walk.again runs shape first second same
  · rintro earlier later rfl still long
    obtain ⟨after,rest⟩ := walk_asks.suffix walk
    obtain ⟨last,final,none_⟩ := rest.ends (Runs.suffix runs) still long
    refine ⟨last,?_,none_⟩
    rw [List.getLast?_append,final]
    rfl

end Laws

def bound (session : String) (time : Int) : SessionBinding :=
  ⟨"agent",some "claude",some session,"","mason",time,none,none,none⟩

/-- Two sessions of one agent, the later one first in the list. -/
def twoBound : SessionStore where
  cutOver := true
  agents := Table.empty.insert "agent" ⟨none⟩
  moves := Table.empty
  claims := Table.empty
  selfAuthor := none
  memberName := Table.empty
  bindings := (Table.empty.insert (toLex ("thread","1")) (bound "s1" 5)).insert (toLex ("thread","2")) (bound "s2" 3)
  network := Table.empty

theorem twoBound_first : agentSessionsFiltered twoBound "agent" none 1 true =
    .ok ⟨[agentSession twoBound (toLex ("thread","1")) (bound "s1" 5)],some ⟨5,"thread","1"⟩⟩ := by
  have sorted : [((toLex ("thread","1"),bound "s1" 5) : RefKey × SessionBinding),
      (toLex ("thread","2"),bound "s2" 3)].Pairwise fun a b => listed a b = true := by decide
  have kept : (twoBound.bindings.rows.filter fun r => selects "agent" true r.2 && follows none r.1 r.2) =
      [(toLex ("thread","1"),bound "s1" 5),(toLex ("thread","2"),bound "s2" 3)] := by decide
  have known : twoBound.agents.get? "agent" = some ⟨none⟩ := by decide
  unfold agentSessionsFiltered
  rw [known]
  simp only [kept,List.mergeSort_of_pairwise sorted]
  rfl

theorem twoBound_second : agentSessionsFiltered twoBound "agent" (some ⟨5,"thread","1"⟩) 1 true =
    .ok ⟨[agentSession twoBound (toLex ("thread","2")) (bound "s2" 3)],none⟩ := by
  have kept : (twoBound.bindings.rows.filter fun r => selects "agent" true r.2 &&
      follows (some ⟨5,"thread","1"⟩) r.1 r.2) = [(toLex ("thread","2"),bound "s2" 3)] := by decide
  have known : twoBound.agents.get? "agent" = some ⟨none⟩ := by decide
  unfold agentSessionsFiltered
  rw [known]
  simp only [kept,List.mergeSort_of_pairwise (List.pairwise_singleton _ _)]
  rfl

/-- The two pages of two sessions hold the second one once. -/
theorem two_pages_once :
    ∃ s, s.registeredAtMs = 3 ∧ (sessionsOf
      [⟨[],twoBound,1,⟨[agentSession twoBound (toLex ("thread","1")) (bound "s1" 5)],some ⟨5,"thread","1"⟩⟩⟩,
        ⟨[],twoBound,1,⟨[agentSession twoBound (toLex ("thread","2")) (bound "s2" 3)],none⟩⟩]).filter
      (fun s => decide (AgentSession.key s = toLex ("thread","2"))) = [s] := by
  have walk : Walk "agent" true none
      [⟨[],twoBound,1,⟨[agentSession twoBound (toLex ("thread","1")) (bound "s1" 5)],some ⟨5,"thread","1"⟩⟩⟩,
        ⟨[],twoBound,1,⟨[agentSession twoBound (toLex ("thread","2")) (bound "s2" 3)],none⟩⟩] :=
    ⟨le_refl 1,twoBound_first,.inr ⟨_,rfl,le_refl 1,twoBound_second,.inl rfl⟩⟩
  have runs : Runs twoBound
      [⟨[],twoBound,1,⟨[agentSession twoBound (toLex ("thread","1")) (bound "s1" 5)],some ⟨5,"thread","1"⟩⟩⟩,
        ⟨[],twoBound,1,⟨[agentSession twoBound (toLex ("thread","2")) (bound "s2" 3)],none⟩⟩] :=
    ⟨rfl,rfl,trivial⟩
  refine (agent_sessions_exact walk runs).2.1 ⟨_,rfl,rfl⟩ (toLex ("thread","2")) 3 ?_
  have stands : Stands twoBound "agent" true (toLex ("thread","2")) 3 := ⟨bound "s2" 3,by decide,by decide,rfl⟩
  intro v member
  rcases List.mem_cons.mp member with rfl | member
  · exact stands
  · exact List.mem_singleton.mp member ▸ stands

end Entorhinal.SessionPages
