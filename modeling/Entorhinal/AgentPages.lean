import Entorhinal.AgentReads
import Mathlib.Data.List.Forall2

/-! The list of agents and the list of hires, page by page, while agents are created, retired
and renamed. -/
namespace Entorhinal.Agents
open Paging

/-- The rows a list is about, in the order of their ids; none where its filters are refused. -/
def listed (store : AgentStore) (request : ListRequest) : List AgentRow :=
  match scopeFilter validateProjectId request.projectId,scopeFilter validateWorkspaceId request.workspaceId with
  | some project,some workspace =>
    if request.activatedOnly.getD false && !store.activated then []
    else store.rows.filter (selects store request project workspace)
  | _,_ => []

def startOf (cursor : Option String) : Bound String := (cursor.map Bound.key).getD ⊥

theorem AgentStore.rows_ordered (store : AgentStore) : Ordered AgentRow.agentId store.rows := by
  refine List.pairwise_map.mpr ?_
  refine List.Pairwise.imp_of_mem ?_ store.agents.sorted
  rintro ⟨a,left⟩ ⟨b,right⟩ inA inB less
  have first := (store.named a left (Table.mem_rows.mp inA)).1
  have second := (store.named b right (Table.mem_rows.mp inB)).1
  exact first.symm ▸ second.symm ▸ less

theorem AgentStore.mem_rows {store : AgentStore} {row : AgentRow} (member : row ∈ store.rows) :
    store.agents.get? row.agentId = some row ∧ row.agentId ≠ "" := by
  obtain ⟨⟨id,row⟩,inside,rfl⟩ := List.mem_map.mp member
  have there := Table.mem_rows.mp inside
  obtain ⟨same,some_⟩ := store.named id row there
  exact ⟨same.symm ▸ there,same.symm ▸ some_⟩

theorem listed_sublist (store : AgentStore) (request : ListRequest) : (listed store request).Sublist store.rows := by
  unfold listed
  split
  next =>
    split
    next => exact List.nil_sublist _
    next => exact List.filter_sublist
  next => exact List.nil_sublist _

theorem listed_ordered (store : AgentStore) (request : ListRequest) :
    Ordered AgentRow.agentId (listed store request) :=
  store.rows_ordered.sublist (listed_sublist store request)

theorem afterCursor_iff {cursor : Option String} {row : AgentRow} :
    afterCursor cursor row = true ↔ startOf cursor < Bound.key row.agentId := by
  cases cursor with
  | none => simp [afterCursor,startOf]
  | some id => simp [afterCursor,startOf]

/-- A page is the live rows of a stretch of the list, and the ones that are gone. -/
structure ShowsPage (store : AgentStore) (request : ListRequest) (reply : ListReply) (s : Step AgentRow String) : Prop where
  rows : s.rows = listed store request
  next : s.next = reply.nextCursor
  agents : reply.agents = (s.page.filter fun row => row.status == "live").map AgentRow.digest
  gone : reply.gone = s.page.filterMap fun row => row.gone.map fun gone => (row.agentId,gone)
  handed : ∀ next, s.next = some next → ∃ row ∈ s.page, row.agentId = next

theorem agentList_page {store : AgentStore} {request : ListRequest} {reply : ListReply}
    (ok : agentList store request = .ok reply) :
    ∃ s : Step AgentRow String, s.Fits AgentRow.agentId Bound.key (startOf request.cursor) ∧
      ShowsPage store request reply s ∧ s.page.length ≤ (request.limit.getD 50).toNat := by
  have faithful : ∀ row : AgentRow, Bound.key row.agentId = Bound.key (AgentRow.agentId row) := fun _ => rfl
  unfold agentList at ok
  simp only at ok
  split at ok
  next => cases ok
  next valid =>
    split at ok
    next => cases ok
    next project projects =>
      split at ok
      next => cases ok
      next workspace workspaces =>
        have about : listed store request = if request.activatedOnly.getD false && !store.activated then []
            else store.rows.filter (selects store request project workspace) := by
          rw [listed,projects,workspaces]
        split at ok
        next off =>
          cases ok
          rw [if_pos off] at about
          exact ⟨⟨[],[],none⟩,⟨.nil,le_top,rfl,nofun⟩,⟨about.symm,rfl,rfl,rfl,nofun⟩,Nat.zero_le _⟩
        next on =>
          cases ok
          rw [if_neg on] at about
          have limit : 1 ≤ (request.limit.getD 50).toNat := by
            have := not_or.mp valid
            omega
          have found : (store.rows.filter fun row => selects store request project workspace row &&
              afterCursor request.cursor row) =
              between AgentRow.agentId (startOf request.cursor) ⊤ (listed store request) := by
            rw [about,between,List.filter_filter]
            apply List.filter_congr
            intro row _
            rw [Bool.and_comm]
            congr 1
            rw [Bool.eq_iff_iff,afterCursor_iff,decide_eq_true_eq]
            exact ⟨fun after => ⟨after,le_top⟩,fun inside => inside.1⟩
          rw [found]
          refine ⟨_,lookAhead_fits faithful (listed_ordered store request) limit,⟨rfl,rfl,rfl,rfl,?_⟩,
            lookAhead_length _ _ _⟩
          intro next handed
          obtain ⟨row,last,same⟩ := lookAhead_last handed
          exact ⟨row,List.mem_of_getLast? last,same⟩

/-- A limit in range, filters that pass their checks and a cursor that is not empty are enough. -/
theorem agentList_accepts {store store' : AgentStore} {request : ListRequest} {reply : ListReply}
    (ok : agentList store request = .ok reply) {cursor : String} (some_ : cursor ≠ "") {limit : Option Int}
    (range : 1 ≤ limit.getD 50 ∧ limit.getD 50 ≤ 200) :
    ∃ reply', agentList store' { request with cursor := some cursor, limit := limit } = .ok reply' := by
  unfold agentList at ok ⊢
  simp only at ok ⊢
  rw [if_neg (by
    rintro (out | empty)
    · exact out range
    · exact some_ (Option.some.inj empty))]
  split at ok
  next => cases ok
  split at ok
  next => cases ok
  next project projects =>
    split at ok
    next => cases ok
    next workspace workspaces =>
      split
      next => exact ⟨_,rfl⟩
      next => exact ⟨_,rfl⟩

/-- A cursor that is handed out is the id of a row of the list. -/
theorem agentList_handed {store : AgentStore} {request : ListRequest} {reply : ListReply}
    (ok : agentList store request = .ok reply) {next : String} (handed : reply.nextCursor = some next) :
    ∃ row ∈ listed store request, row.agentId = next := by
  obtain ⟨s,fits,shows_,_⟩ := agentList_page ok
  obtain ⟨row,paged,own⟩ := shows_.handed next (shows_.next.trans handed)
  have there : row ∈ s.rows := List.mem_of_mem_filter (fits.page ▸ paged : row ∈ between _ _ _ s.rows)
  exact ⟨row,shows_.rows ▸ there,own⟩

theorem agentList_cursor {store : AgentStore} {request : ListRequest} {reply : ListReply}
    (ok : agentList store request = .ok reply) {cursor : String} (handed : reply.nextCursor = some cursor) :
    cursor ≠ "" := by
  obtain ⟨row,member,own⟩ := agentList_handed ok handed
  exact own ▸ (AgentStore.mem_rows ((listed_sublist store request).subset member)).2

section Walk

structure ListVisit where
  store : AgentStore
  limit : Option Int
  reply : ListReply

/-- Pages of one list, each from the cursor of the one before. -/
def ListWalk (request : ListRequest) : Option String → List ListVisit → Prop
  | _,[] => True
  | cursor,v :: later => agentList v.store { request with cursor := cursor, limit := v.limit } = .ok v.reply ∧
      (later = [] ∨ ∃ next, v.reply.nextCursor = some next ∧ ListWalk request (some next) later)

def ListEnded (visits : List ListVisit) : Prop := ∃ last, visits.getLast? = some last ∧ last.reply.nextCursor = none

variable {request : ListRequest} {cursor : Option String} {visits : List ListVisit}

theorem ListWalk.walk (pages : ListWalk request cursor visits) :
    ∃ steps, Walk AgentRow.agentId Bound.key (startOf cursor) steps ∧
      List.Forall₂ (fun v s => ShowsPage v.store request v.reply s) visits steps := by
  induction visits generalizing cursor with
  | nil => exact ⟨[],trivial,.nil⟩
  | cons v later ih =>
    obtain ⟨ok,rest⟩ := pages
    obtain ⟨s,fits,page,_⟩ := agentList_page ok
    have same : ShowsPage v.store request v.reply s := ⟨page.rows,page.next,page.agents,page.gone,page.handed⟩
    rcases rest with rfl | ⟨next,handed,rest⟩
    · exact ⟨[s],⟨fits,.inl rfl⟩,.cons same .nil⟩
    · obtain ⟨steps,walk,all⟩ := ih rest
      exact ⟨s :: steps,⟨fits,.inr ⟨next,page.next.trans handed,walk⟩⟩,.cons same all⟩

variable {steps : List (Step AgentRow String)}

theorem shows_agents (all : List.Forall₂ (fun v s => ShowsPage v.store request v.reply s) visits steps) :
    visits.flatMap (fun v => v.reply.agents) =
      ((steps.flatMap Step.page).filter fun row => row.status == "live").map AgentRow.digest := by
  rw [List.filter_flatMap,List.map_flatMap]
  exact flatMap_pairs (fun _ _ page => page.agents) all

theorem shows_gone (all : List.Forall₂ (fun v s => ShowsPage v.store request v.reply s) visits steps) :
    visits.flatMap (fun v => v.reply.gone) =
      (steps.flatMap Step.page).filterMap fun row => row.gone.map fun gone => (row.agentId,gone) := by
  rw [List.filterMap_flatMap]
  exact flatMap_pairs (fun _ _ page => page.gone) all

theorem shows_ended (all : List.Forall₂ (fun v s => ShowsPage v.store request v.reply s) visits steps) :
    ListEnded visits ↔ Ended steps := by
  refine last_pairs (fun v s page => ?_) all
  rw [page.next]

theorem shows_step (all : List.Forall₂ (fun v s => ShowsPage v.store request v.reply s) visits steps)
    {s : Step AgentRow String} (member : s ∈ steps) : ∃ v ∈ visits, s.rows = listed v.store request := by
  obtain ⟨v,inside,page⟩ := pair_right all member
  exact ⟨v,inside,page.rows⟩

/-- What the pages of a list come to. -/
structure ListExact (request : ListRequest) (visits : List ListVisit) : Prop where
  ordered : (visits.flatMap fun v => v.reply.agents).Pairwise fun a b => a.agentId < b.agentId
  orderedGone : (visits.flatMap fun v => v.reply.gone).Pairwise fun a b => a.1 < b.1
  once : ListEnded visits → ∀ row : AgentRow, (∀ v ∈ visits, row ∈ listed v.store request) → row.status = "live" →
    (visits.flatMap fun v => v.reply.agents).filter (fun d => decide (d.agentId = row.agentId)) = [row.digest]
  onceGone : ListEnded visits → ∀ (row : AgentRow) (gone : Gone), (∀ v ∈ visits, row ∈ listed v.store request) →
    row.gone = some gone →
    (visits.flatMap fun v => v.reply.gone).filter (fun g => decide (g.1 = row.agentId)) = [(row.agentId,gone)]
  accepted : ∀ v ∈ visits, ∀ next, v.reply.nextCursor = some next → ∀ (store : AgentStore) (limit : Option Int),
    1 ≤ limit.getD 50 ∧ limit.getD 50 ≤ 200 →
    ∃ reply, agentList store { request with cursor := some next, limit := limit } = .ok reply
  ends : ∀ (earlier later : List ListVisit) (store : AgentStore), visits = earlier ++ later →
    (∀ v ∈ later, v.store = store) → store.agents.size < later.length → ListEnded visits

theorem listWalk_asks : Paging.Asks (ListWalk request) fun cursor v =>
    agentList v.store { request with cursor := cursor, limit := v.limit } = .ok v.reply where
  nil _ := trivial
  cons pages := ⟨pages.1,pages.2.imp_right fun ⟨next,_,rest⟩ => ⟨some next,rest⟩⟩

theorem ListWalk.ends (pages : ListWalk request cursor visits) {store : AgentStore}
    (still : ∀ v ∈ visits, v.store = store) (long : store.agents.size < visits.length) : ListEnded visits := by
  obtain ⟨steps,walk,all⟩ := pages.walk
  refine (shows_ended all).mpr (walk.ends (store.rows.map AgentRow.agentId) ?_ ?_)
  · intro s member row inside
    obtain ⟨v,there,same⟩ := shows_step all member
    rw [same,still v there] at inside
    exact List.mem_map_of_mem ((listed_sublist store request).subset inside)
  · rw [List.length_map,AgentStore.rows,List.length_map,← all.length_eq]
    exact long

/-- The pages of a list of agents are exact. -/
theorem ListWalk.exact_ (pages : ListWalk request none visits) : ListExact request visits := by
  obtain ⟨steps,walk,all⟩ := pages.walk
  have present : ∀ row : AgentRow, (∀ v ∈ visits, row ∈ listed v.store request) → ∀ s ∈ steps, row ∈ s.rows := by
    intro row there s member
    obtain ⟨v,inside,same⟩ := shows_step all member
    exact same ▸ there v inside
  refine ⟨?_,?_,?_,?_,?_,?_⟩
  · rw [shows_agents all]
    exact List.pairwise_map.mpr (walk.ordered.filter _)
  · rw [shows_gone all,List.pairwise_filterMap]
    refine walk.ordered.imp fun {a b} less g fromA h fromB => ?_
    obtain ⟨_,_,rfl⟩ := Option.map_eq_some_iff.mp fromA
    obtain ⟨_,_,rfl⟩ := Option.map_eq_some_iff.mp fromB
    exact less
  · intro ended row there live
    have once := walk.once ((shows_ended all).mp ended) (Bound.key_bottom _) (present row there)
    rw [shows_agents all,List.filter_map,List.filter_filter]
    have swapped : ((steps.flatMap Step.page).filter fun x =>
        ((fun d : Digest => decide (d.agentId = row.agentId)) ∘ AgentRow.digest) x && x.status == "live") =
        ((steps.flatMap Step.page).filter fun x => decide (x.agentId = row.agentId)).filter
          fun x => x.status == "live" := by
      rw [List.filter_filter]
      exact List.filter_congr fun x _ => Bool.and_comm _ _
    rw [swapped,once,List.filter_cons_of_pos (by rw [live]; rfl)]
    rfl
  · intro ended row gone there is
    have once := walk.once ((shows_ended all).mp ended) (Bound.key_bottom _) (present row there)
    rw [shows_gone all,List.filter_filterMap]
    have swapped : ((steps.flatMap Step.page).filterMap fun x =>
        (x.gone.map fun gone => (x.agentId,gone)).filter fun g => decide (g.1 = row.agentId)) =
        ((steps.flatMap Step.page).filter fun x => decide (x.agentId = row.agentId)).filterMap
          fun x => x.gone.map fun gone => (x.agentId,gone) := by
      rw [List.filterMap_filter]
      refine List.filterMap_congr fun x _ => ?_
      by_cases same : x.agentId = row.agentId
      · cases x.gone <;> simp [same]
      · cases x.gone <;> simp [same]
    rw [swapped,once,List.filterMap_cons_some (by rw [is]; rfl)]
    rfl
  · intro v member next handed store limit range
    obtain ⟨cursor,ok⟩ := listWalk_asks.each pages v member
    exact agentList_accepts ok (agentList_cursor ok handed) range
  · rintro earlier later store rfl still long
    obtain ⟨cursor,rest⟩ := listWalk_asks.suffix pages
    obtain ⟨last,final,none_⟩ := rest.ends still long
    refine ⟨last,?_,none_⟩
    rw [List.getLast?_append,final]
    rfl

end Walk

end Entorhinal.Agents
