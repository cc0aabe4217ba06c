import Entorhinal.AgentPages

/-! The hires an agent lists with its tool: pages of one agent each, put together into replies
that stay below the size a model is shown. -/
namespace Entorhinal.Agents
open Paging

/-- The stores of one turn: the list is read from one, and the row it names from the other. -/
structure Read where
  listed : AgentStore
  rows : AgentStore

abbrev HiresReply := List Digest × Option String

def hireOf (store : AgentStore) (caller id : String) : Bool :=
  (store.agents.get? id).any fun row => row.status == "live" && row.supervisorAgentId == some caller

section Tool
-- whether a reply of hires and a cursor is small enough to be shown
variable (fits : List Digest → Option String → Bool)

/-- The agents of a page: hires go on, or the reply that is full is answered, from before the
one that did not fit. -/
def addHires (rows : AgentStore) (caller : String) (cursor next : Option String) :
    List Digest → List Digest → List Digest ⊕ HiresReply
  | hires,[] => .inl hires
  | hires,agent :: later =>
    if hireOf rows caller agent.agentId then
      if fits (hires ++ [agent]) next then addHires rows caller cursor next (hires ++ [agent]) later
      else if hires.isEmpty then .inr (hires ++ [agent],next)
      else .inr (hires,cursor)
    else addHires rows caller cursor next hires later

def encodeToolReply (reply : HiresReply) : Except AgentMutationError HiresReply :=
  if fits reply.1 reply.2 then .ok reply
  else .error ⟨"tool_result_too_large","The complete reply exceeds 65,536 model-visible bytes.",[]⟩

def hireRequest (cursor : Option String) : ListRequest := { role := some .hiree, limit := some 1, cursor := cursor }

/-- The loop of the tool, over the stores its turns find; nothing while it still goes on. -/
def hiresLoop (caller : String) :
    List Read → Option String → List Digest → Option (Except AgentMutationError HiresReply)
  | [],_,_ => none
  | read :: later,cursor,hires =>
    match agentList read.listed (hireRequest cursor) with
    | .error e => some (.error e)
    | .ok page =>
      match addHires fits read.rows caller cursor page.nextCursor hires page.agents with
      | .inr reply => some (encodeToolReply fits reply)
      | .inl hires =>
        match page.nextCursor with
        | none => some (encodeToolReply fits (hires,none))
        | some next =>
          if hires.length = 50 then some (encodeToolReply fits (hires,some next))
          else hiresLoop caller later (some next) hires

end Tool

section Kept
variable {fits : List Digest → Option String → Bool} {caller : String}

/-- A turn whose page went into the reply. -/
structure Kept where
  read : Read
  step : Step AgentRow String

def Kept.shown (caller : String) (k : Kept) : List Digest :=
  (k.step.page.filter fun row => hireOf k.read.rows caller row.agentId).map AgentRow.digest

def Kept.From (reads : List Read) (k : Kept) : Prop :=
  k.read ∈ reads ∧ k.step.rows = listed k.read.listed (hireRequest none) ∧
    ∀ next, k.step.next = some next → next ≠ "" ∧ ∃ row ∈ listed k.read.listed (hireRequest none), row.agentId = next

/-- Where the turns that were kept stopped. -/
def StoppedAt (cursor : Option String) (kept : List Kept) (next : Option String) : Prop :=
  (kept = [] ∧ next = cursor) ∨ ∃ last, kept.getLast? = some last ∧ last.step.next = next

theorem hire_live {store : AgentStore} {row : AgentRow} (member : row ∈ listed store (hireRequest none)) :
    row.status = "live" ∧ row.role = "hiree" ∧ row ∈ store.rows := by
  have sub := (listed_sublist store (hireRequest none)).subset member
  unfold listed at member
  simp only [hireRequest,scopeFilter,Option.getD_none,Bool.false_and,Bool.false_eq_true,if_false] at member
  have kept := (List.mem_filter.mp member).2
  simp only [selects,Option.getD_none,Bool.false_or,Option.all_some,Option.all_none,Bool.and_true,Bool.and_eq_true,
    beq_iff_eq] at kept
  exact ⟨kept.1,kept.2,sub⟩

/-- The page of a turn is empty or one hiree. -/
theorem hire_page {read : Read} {cursor : Option String} {page : ListReply}
    (ok : agentList read.listed (hireRequest cursor) = .ok page) :
    ∃ step : Step AgentRow String, step.Fits AgentRow.agentId Bound.key (startOf cursor) ∧
      step.rows = listed read.listed (hireRequest none) ∧ step.next = page.nextCursor ∧
      ((step.page = [] ∧ page.agents = []) ∨ ∃ row, step.page = [row] ∧ page.agents = [row.digest]) := by
  obtain ⟨step,fits,shows_,few⟩ := agentList_page ok
  have few : step.page.length ≤ 1 := few
  have rows : step.rows = listed read.listed (hireRequest none) := shows_.rows
  refine ⟨step,fits,rows,shows_.next,?_⟩
  match shape : step.page with
  | [] => exact .inl ⟨rfl,by rw [shows_.agents,shape]; rfl⟩
  | [row] =>
    have inside : row ∈ step.rows := List.mem_of_mem_filter (fits.page ▸ shape ▸ List.mem_cons_self : row ∈ between _ _ _ step.rows)
    have live := (hire_live (rows ▸ inside)).1
    refine .inr ⟨row,rfl,?_⟩
    rw [shows_.agents,shape,List.filter_cons_of_pos (by rw [live]; rfl)]
    rfl
  | _ :: _ :: _ =>
    rw [shape] at few
    simp at few

/-- A page hands out the id of an agent of the list. -/
theorem hire_next {read : Read} {cursor : Option String} {page : ListReply}
    (ok : agentList read.listed (hireRequest cursor) = .ok page) {next : String} (handed : page.nextCursor = some next) :
    next ≠ "" ∧ ∃ row ∈ listed read.listed (hireRequest none), row.agentId = next :=
  ⟨agentList_cursor ok handed,agentList_handed ok handed⟩

/-- What the loop answers: the hires so far and those of the turns it kept, up to its cursor. -/
theorem hiresLoop_kept {reads : List Read} {cursor : Option String} {hires : List Digest} {reply : HiresReply}
    (done : hiresLoop fits caller reads cursor hires = some (.ok reply)) :
    ∃ kept : List Kept, Walk AgentRow.agentId Bound.key (startOf cursor) (kept.map Kept.step) ∧
      (∀ k ∈ kept, k.From reads) ∧ reply.1 = hires ++ kept.flatMap (Kept.shown caller) ∧
      StoppedAt cursor kept reply.2 ∧ (kept = [] → hires ≠ []) ∧ (reply.2.isSome = true → reply.1 ≠ []) := by
  have encoded : ∀ {answer : HiresReply}, some (encodeToolReply fits answer) = some (.ok reply) → answer = reply := by
    intro answer same
    unfold encodeToolReply at same
    split at same
    next => exact Except.ok.inj (Option.some.inj same)
    next => cases Option.some.inj same
  induction reads generalizing cursor hires with
  | nil => cases done
  | cons read later ih =>
    unfold hiresLoop at done
    split at done
    next => cases Option.some.inj done
    next page ok =>
      obtain ⟨step,fitting,rows,next,few⟩ := hire_page ok
      have from_ : Kept.From (read :: later) ⟨read,step⟩ :=
        ⟨List.mem_cons_self,rows,fun _ more => hire_next ok (next.symm.trans more)⟩
      -- the turn is kept, and `more` is what it adds
      have goes : ∀ more : List Digest, Kept.shown caller ⟨read,step⟩ = more →
          (match page.nextCursor with
            | none => some (encodeToolReply fits (hires ++ more,none))
            | some next =>
              if (hires ++ more).length = 50 then some (encodeToolReply fits (hires ++ more,some next))
              else hiresLoop fits caller later (some next) (hires ++ more)) = some (.ok reply) →
          ∃ kept : List Kept, Walk AgentRow.agentId Bound.key (startOf cursor) (kept.map Kept.step) ∧
            (∀ k ∈ kept, k.From (read :: later)) ∧ reply.1 = hires ++ kept.flatMap (Kept.shown caller) ∧
            StoppedAt cursor kept reply.2 ∧ (kept = [] → hires ≠ []) ∧ (reply.2.isSome = true → reply.1 ≠ []) := by
        intro more adds done
        have single : ∀ k ∈ [Kept.mk read step], k.From (read :: later) := fun k member =>
          List.mem_singleton.mp member ▸ from_
        cases handed : page.nextCursor with
        | none =>
          rw [handed] at done
          obtain rfl := encoded done
          refine ⟨[⟨read,step⟩],⟨fitting,.inl rfl⟩,single,?_,.inr ⟨_,rfl,next.trans handed⟩,nofun,nofun⟩
          rw [List.flatMap_singleton,adds]
        | some onward =>
          rw [handed] at done
          dsimp only at done
          split at done
          next full =>
            obtain rfl := encoded done
            refine ⟨[⟨read,step⟩],⟨fitting,.inl rfl⟩,single,?_,.inr ⟨_,rfl,next.trans handed⟩,nofun,fun _ empty => ?_⟩
            · rw [List.flatMap_singleton,adds]
            · have := congrArg List.length empty
              rw [List.length_nil] at this
              dsimp only at this
              omega
          next =>
            obtain ⟨kept,walk,all,replied,stopped,some_,filled⟩ := ih done
            refine ⟨⟨read,step⟩ :: kept,⟨fitting,?_⟩,?_,?_,?_,nofun,filled⟩
            · cases kept with
              | nil => exact .inl rfl
              | cons k rest => exact .inr ⟨onward,next.trans handed,walk⟩
            · intro k member
              rcases List.mem_cons.mp member with rfl | member
              · exact from_
              · exact ⟨List.mem_cons_of_mem _ (all k member).1,(all k member).2⟩
            · rw [replied,List.flatMap_cons,adds,List.append_assoc]
            · rcases stopped with ⟨rfl,same⟩ | ⟨last,final,same⟩
              · exact .inr ⟨_,rfl,(next.trans handed).trans same.symm⟩
              · cases kept with
                | nil => cases final
                | cons k rest => exact .inr ⟨last,by rw [List.getLast?_cons_cons]; exact final,same⟩
      rcases few with ⟨empty,agents⟩ | ⟨row,only,agents⟩
      · rw [agents] at done
        refine goes [] ?_ ?_
        · rw [Kept.shown,empty]
          rfl
        · rw [List.append_nil]
          exact done
      · rw [agents] at done
        simp only [addHires] at done
        have named : row.digest.agentId = row.agentId := rfl
        rw [named] at done
        by_cases mine : hireOf read.rows caller row.agentId = true
        · have adds : Kept.shown caller ⟨read,step⟩ = [row.digest] := by
            simp only [Kept.shown,only,List.filter_cons,mine,if_true,List.filter_nil,List.map_singleton]
          rw [if_pos mine] at done
          by_cases small : fits (hires ++ [row.digest]) page.nextCursor = true
          · rw [if_pos small] at done
            exact goes _ adds done
          · rw [if_neg small] at done
            by_cases first : hires.isEmpty = true
            · rw [if_pos first] at done
              obtain rfl := encoded done
              refine ⟨[⟨read,step⟩],⟨fitting,.inl rfl⟩,fun k member => List.mem_singleton.mp member ▸ from_,?_,
                .inr ⟨_,rfl,next⟩,nofun,fun _ => by simp⟩
              rw [List.flatMap_singleton,adds]
            · rw [if_neg first] at done
              obtain rfl := encoded done
              have some_ : hires ≠ [] := fun empty => first (by rw [empty]; rfl)
              exact ⟨[],trivial,nofun,(List.append_nil _).symm,.inl ⟨rfl,rfl⟩,fun _ => some_,fun _ => some_⟩
        · have adds : Kept.shown caller ⟨read,step⟩ = [] := by simp [Kept.shown,only,mine]
          rw [if_neg mine] at done
          refine goes [] adds ?_
          rw [List.append_nil]
          exact done

end Kept

section Walk

/-- One call of the tool: the stores it read, and what it answered. -/
structure HiresCall where
  reads : List Read
  reply : HiresReply

/-- Calls of the tool, each from the cursor of the one before. -/
def HiresWalk (fits : List Digest → Option String → Bool) (caller : String) : Option String → List HiresCall → Prop
  | _,[] => True
  | cursor,c :: later => hiresLoop fits caller c.reads cursor [] = some (.ok c.reply) ∧
      (later = [] ∨ ∃ next, c.reply.2 = some next ∧ HiresWalk fits caller (some next) later)

def HiresEnded (calls : List HiresCall) : Prop := ∃ last, calls.getLast? = some last ∧ last.reply.2 = none

def hiresOf (calls : List HiresCall) : List Digest := calls.flatMap fun c => c.reply.1

/-- The agent stands as a hire of the caller in both stores of a turn. -/
def Hired (caller : String) (row : AgentRow) (read : Read) : Prop :=
  read.listed.agents.get? row.agentId = some row ∧ read.rows.agents.get? row.agentId = some row ∧
    row.status = "live" ∧ row.role = "hiree" ∧ row.supervisorAgentId = some caller

variable {fits : List Digest → Option String → Bool} {caller : String} {cursor : Option String}
  {calls : List HiresCall}

theorem Hired.listed {row : AgentRow} {read : Read} (hired : Hired caller row read) :
    row ∈ listed read.listed (hireRequest none) := by
  obtain ⟨there,_,live,role,_⟩ := hired
  unfold Agents.listed
  simp only [hireRequest,scopeFilter,Option.getD_none,Bool.false_and,Bool.false_eq_true,if_false]
  refine List.mem_filter.mpr ⟨List.mem_map.mpr ⟨_,Table.mem_rows.mpr there,rfl⟩,?_⟩
  simp [selects,live,role,Role.asStr]

theorem Hired.mine {row : AgentRow} {read : Read} (hired : Hired caller row read) :
    hireOf read.rows caller row.agentId = true := by
  obtain ⟨_,there,live,_,own⟩ := hired
  simp [hireOf,there,live,own]

/-- The turns kept over a whole walk are one walk of the list. -/
theorem HiresWalk.kept (pages : HiresWalk fits caller cursor calls) :
    ∃ kept : List Kept, Walk AgentRow.agentId Bound.key (startOf cursor) (kept.map Kept.step) ∧
      (∀ k ∈ kept, ∃ c ∈ calls, k.From c.reads) ∧ hiresOf calls = kept.flatMap (Kept.shown caller) ∧
      (HiresEnded calls → Ended (kept.map Kept.step)) := by
  induction calls generalizing cursor with
  | nil => exact ⟨[],trivial,nofun,rfl,fun ⟨_,none_,_⟩ => by cases none_⟩
  | cons c later ih =>
    obtain ⟨done,rest⟩ := pages
    obtain ⟨kept,walk,all,replied,stopped,some_,_⟩ := hiresLoop_kept done
    obtain ⟨last,final,same⟩ : ∃ last, kept.getLast? = some last ∧ last.step.next = c.reply.2 := by
      rcases stopped with ⟨empty,_⟩ | found
      · exact absurd rfl (some_ empty)
      · exact found
    have final_ : (kept.map Kept.step).getLast? = some last.step := by
      rw [List.getLast?_map,final]
      rfl
    have own : ∀ k ∈ kept, ∃ d ∈ c :: later, k.From d.reads := fun k member => ⟨c,List.mem_cons_self,all k member⟩
    rcases rest with rfl | ⟨next,handed,rest⟩
    · refine ⟨kept,walk,own,?_,?_⟩
      · rw [hiresOf,List.flatMap_singleton,replied,List.nil_append]
      · rintro ⟨d,ends,none_⟩
        obtain rfl : c = d := by simpa using ends
        exact ⟨_,final_,same.trans none_⟩
    · obtain ⟨more,onward,others,shown,ended⟩ := ih rest
      refine ⟨kept ++ more,?_,?_,?_,?_⟩
      · rw [List.map_append]
        exact walk.append final_ (same.trans handed) onward
      · intro k member
        rcases List.mem_append.mp member with first | second
        · exact own k first
        · obtain ⟨d,there,from_⟩ := others k second
          exact ⟨d,List.mem_cons_of_mem _ there,from_⟩
      · rw [hiresOf,List.flatMap_cons,replied,List.nil_append,List.flatMap_append,← shown]
        rfl
      · rintro ⟨d,ends,none_⟩
        cases later with
        | nil =>
          obtain rfl : c = d := by simpa using ends
          rw [handed] at none_
          cases none_
        | cons e rest' =>
          obtain ⟨end_,closes,stop⟩ := ended ⟨d,by rw [List.getLast?_cons_cons] at ends; exact ends,none_⟩
          refine ⟨end_,?_,stop⟩
          rw [List.map_append,List.getLast?_append,closes]
          rfl

theorem shown_sublist (kept : List Kept) :
    (kept.flatMap (Kept.shown caller)).Sublist (((kept.map Kept.step).flatMap Step.page).map AgentRow.digest) := by
  induction kept with
  | nil => exact List.Sublist.refl _
  | cons k kept ih =>
    rw [List.flatMap_cons,List.map_cons,List.flatMap_cons,List.map_append]
    exact (List.filter_sublist.map _).append ih

theorem HiresWalk.ordered (pages : HiresWalk fits caller cursor calls) :
    (hiresOf calls).Pairwise fun a b => a.agentId < b.agentId := by
  obtain ⟨kept,walk,_,shown,_⟩ := pages.kept
  have ordered : (((kept.map Kept.step).flatMap Step.page).map AgentRow.digest).Pairwise
      fun a b => a.agentId < b.agentId := List.pairwise_map.mpr walk.ordered
  rw [shown]
  exact ordered.sublist (shown_sublist kept)

/-- Of one agent there is at most one digest. -/
theorem one_digest {hires : List Digest} (ordered : hires.Pairwise fun a b => a.agentId < b.agentId) {d : Digest}
    (member : d ∈ hires) : hires.filter (fun e => decide (e.agentId = d.agentId)) = [d] := by
  induction hires with
  | nil => cases member
  | cons e rest ih =>
    obtain ⟨after,ordered⟩ := List.pairwise_cons.mp ordered
    rcases List.mem_cons.mp member with rfl | member
    · have none_ : rest.filter (fun e => decide (e.agentId = d.agentId)) = [] :=
        List.filter_eq_nil_iff.mpr fun x there => by
          rw [decide_eq_true_eq]
          exact (after x there).ne'
      rw [List.filter_cons,if_pos (decide_eq_true rfl),none_]
    · have other : e.agentId ≠ d.agentId := (after d member).ne
      rw [List.filter_cons,if_neg (by rw [decide_eq_true_eq]; exact other),ih ordered member]

theorem HiresWalk.once (pages : HiresWalk fits caller none calls) (ended : HiresEnded calls) {row : AgentRow}
    (hired : ∀ c ∈ calls, ∀ read ∈ c.reads, Hired caller row read) :
    (hiresOf calls).filter (fun d => decide (d.agentId = row.agentId)) = [row.digest] := by
  have ordered := pages.ordered
  obtain ⟨kept,walk,all,shown,stop⟩ := pages.kept
  have there : ∀ s ∈ kept.map Kept.step, row ∈ s.rows := by
    intro s member
    obtain ⟨k,inside,rfl⟩ := List.mem_map.mp member
    obtain ⟨c,listed,from_,rows,_⟩ := all k inside
    exact rows ▸ (hired c listed k.read from_).listed
  obtain ⟨s,member,x,page,own⟩ := walk.complete (stop ended) (Bound.key_bottom row.agentId)
    fun s member => ⟨row,there s member,rfl⟩
  obtain ⟨k,inside,rfl⟩ := List.mem_map.mp member
  obtain ⟨step_ordered,from_page⟩ := walk.each k.step (List.mem_map_of_mem inside)
  obtain rfl : x = row := List.inj_on_of_nodup_map step_ordered.nodup (from_page x page) (there _ member) own
  obtain ⟨c,listed,from_,_⟩ := all k inside
  have answered : x.digest ∈ hiresOf calls := by
    rw [shown]
    exact List.mem_flatMap.mpr ⟨k,inside,List.mem_map.mpr
      ⟨x,List.mem_filter.mpr ⟨page,(hired c listed k.read from_).mine⟩,rfl⟩⟩
  exact one_digest ordered answered

theorem hiresWalk_asks : Paging.Asks (HiresWalk fits caller) fun cursor c =>
    hiresLoop fits caller c.reads cursor [] = some (.ok c.reply) where
  nil _ := trivial
  cons pages := ⟨pages.1,pages.2.imp_right fun ⟨next,_,rest⟩ => ⟨some next,rest⟩⟩

theorem HiresWalk.filled (pages : HiresWalk fits caller cursor calls) (going : ¬HiresEnded calls) :
    ∀ c ∈ calls, c.reply.1 ≠ [] := by
  induction calls generalizing cursor with
  | nil => nofun
  | cons c later ih =>
    obtain ⟨done,rest⟩ := pages
    obtain ⟨_,_,_,_,_,_,filled⟩ := hiresLoop_kept done
    intro d member
    rcases rest with rfl | ⟨next,handed,rest⟩
    · obtain rfl := List.mem_singleton.mp member
      apply filled
      by_contra none_
      exact going ⟨d,rfl,by simpa using none_⟩
    · rcases List.mem_cons.mp member with rfl | member
      · exact filled (by rw [handed]; rfl)
      · refine ih rest ?_ d member
        rintro ⟨last,final,none_⟩
        refine going ⟨last,?_,none_⟩
        cases later with
        | nil => cases final
        | cons u more =>
          rw [List.getLast?_cons_cons]
          exact final

/-- On stores that rest at one a walk longer than its agents has ended. -/
theorem HiresWalk.ends (pages : HiresWalk fits caller cursor calls) {store : AgentStore}
    (still : ∀ c ∈ calls, ∀ read ∈ c.reads, read.listed = store) (long : store.agents.size < calls.length) :
    HiresEnded calls := by
  by_contra going
  have ordered := pages.ordered
  have filled := pages.filled going
  have many : calls.length ≤ (hiresOf calls).length := by
    have count : ∀ calls : List HiresCall, (∀ c ∈ calls, c.reply.1 ≠ []) → calls.length ≤ (hiresOf calls).length := by
      intro calls filled
      induction calls with
      | nil => exact Nat.le_refl 0
      | cons c calls ih =>
        have first := List.length_pos_of_ne_nil (filled c List.mem_cons_self)
        have rest := ih fun d member => filled d (List.mem_cons_of_mem _ member)
        rw [hiresOf,List.flatMap_cons,List.length_append,List.length_cons]
        rw [hiresOf] at rest
        omega
    exact count calls filled
  obtain ⟨kept,walk,all,shown,_⟩ := pages.kept
  have known : ∀ id ∈ (hiresOf calls).map Digest.agentId, id ∈ store.agents.keys := by
    intro id member
    obtain ⟨d,inside,rfl⟩ := List.mem_map.mp member
    rw [shown] at inside
    obtain ⟨k,listed,page⟩ := List.mem_flatMap.mp inside
    obtain ⟨row,kept_,rfl⟩ := List.mem_map.mp page
    obtain ⟨c,called,from_,rows,_⟩ := all k listed
    have in_ := (walk.each k.step (List.mem_map_of_mem listed)).2 row (List.mem_of_mem_filter kept_)
    rw [rows,still c called k.read from_] at in_
    have found := (AgentStore.mem_rows (hire_live in_).2.2).1
    exact Table.mem_keys.mpr (Table.has_iff.mpr ⟨row,found⟩)
  have distinct : ((hiresOf calls).map Digest.agentId).Nodup :=
    List.pairwise_map.mpr (ordered.imp fun less same => less.ne same)
  have few := (distinct.subperm known).length_le
  rw [List.length_map,Table.keys,List.length_map] at few
  exact absurd long (Nat.not_lt_of_le (many.trans few))

end Walk

section Roomy
variable (fits : List Digest → Option String → Bool)

/-- The agents the turns of a call may meet. -/
def Met (reads : List Read) (row : AgentRow) : Prop := ∃ read ∈ reads, row ∈ listed read.listed (hireRequest none)

/-- What the size of a reply comes to over some turns: one agent is small enough to be shown, a
cursor weighs no more than the one checked before it, and none weighs nothing. -/
structure Roomy (reads : List Read) : Prop where
  empty : fits [] none = true
  alone : ∀ row, Met reads row → ∀ next : Option AgentRow, (∀ other ∈ next, Met reads other) →
    fits [row.digest] (next.map AgentRow.agentId) = true
  even : ∀ hires a b, Met reads a → Met reads b → fits hires (some a.agentId) = true → fits hires (some b.agentId) = true
  last : ∀ hires a, Met reads a → fits hires (some a.agentId) = true → fits hires none = true

variable {fits : List Digest → Option String → Bool} {caller : String}

/-- What a call has to go on with: a cursor of an agent it met, and hires that were small enough
with one of these. -/
structure Ready (fits : List Digest → Option String → Bool) (reads : List Read) (cursor : Option String)
    (hires : List Digest) : Prop where
  known : ∀ id, cursor = some id → id ≠ "" ∧ ∃ row, Met reads row ∧ row.agentId = id
  shown : hires = [] ∨ ∃ row, Met reads row ∧ fits hires (some row.agentId) = true

theorem hire_accepts {store : AgentStore} {cursor : Option String} (some_ : cursor ≠ some "") :
    ∃ page, agentList store (hireRequest cursor) = .ok page := by
  unfold agentList
  simp [hireRequest,scopeFilter,some_]

theorem encode_answers {hires : List Digest} {next : Option String} (small : fits hires next = true)
    {e : AgentMutationError} : some (encodeToolReply fits (hires,next)) ≠ some (.error e) := by
  intro same
  rw [encodeToolReply,if_pos small] at same
  cases Option.some.inj same

/-- With room for its replies a call is never refused. -/
theorem Roomy.answered {reads : List Read} (roomy : Roomy fits reads) {later : List Read}
    (sub : ∀ read ∈ later, read ∈ reads) {cursor : Option String} {hires : List Digest}
    (ready : Ready fits reads cursor hires) {e : AgentMutationError} :
    hiresLoop fits caller later cursor hires ≠ some (.error e) := by
  induction later generalizing cursor hires with
  | nil => nofun
  | cons read rest ih =>
    have own := sub read List.mem_cons_self
    unfold hiresLoop
    split
    next refused failed =>
      have some_ : cursor ≠ some "" := fun blank => (ready.known "" blank).1 rfl
      obtain ⟨page,ok⟩ := hire_accepts some_
      cases failed.symm.trans ok
    next page ok =>
      obtain ⟨step,fitting,rows,_,few⟩ := hire_page ok
      have nextMet : ∀ next, page.nextCursor = some next → next ≠ "" ∧ ∃ row, Met reads row ∧ row.agentId = next := by
        intro next handed
        obtain ⟨some_,row,member,same⟩ := hire_next ok handed
        exact ⟨some_,row,⟨read,own,member⟩,same⟩
      -- the hires go on to the next turn, or are answered
      have goes : ∀ more : List Digest, more = [] ∨ fits more page.nextCursor = true ∨
            (∃ row, Met reads row ∧ fits more (some row.agentId) = true) →
          (match page.nextCursor with
            | none => some (encodeToolReply fits (more,none))
            | some next =>
              if more.length = 50 then some (encodeToolReply fits (more,some next))
              else hiresLoop fits caller rest (some next) more) ≠ some (.error e) := by
        intro more weighed
        cases handed : page.nextCursor with
        | none =>
          dsimp only
          apply encode_answers
          rw [handed] at weighed
          rcases weighed with rfl | small | ⟨row,met,small⟩
          · exact roomy.empty
          · exact small
          · exact roomy.last _ row met small
        | some next =>
          obtain ⟨known,row,met,same⟩ := nextMet next handed
          have onward : more = [] ∨ fits more (some next) = true := by
            rw [handed] at weighed
            rcases weighed with none_ | small | ⟨before,seen,small⟩
            · exact .inl none_
            · exact .inr small
            · exact .inr (same ▸ roomy.even _ before row seen met small)
          dsimp only
          split
          next full =>
            apply encode_answers
            rcases onward with rfl | small
            · cases full
            · exact small
          next =>
            refine ih (fun r member => sub r (List.mem_cons_of_mem _ member)) ⟨?_,?_⟩
            · intro id is
              obtain rfl := Option.some.inj is
              exact ⟨known,row,met,same⟩
            · exact onward.imp id fun small => ⟨row,met,same.symm ▸ small⟩
      rcases few with ⟨_,agents⟩ | ⟨row,only,agents⟩
      · rw [agents]
        exact goes hires (ready.shown.imp id .inr)
      · have paged : row ∈ between _ _ _ step.rows := fitting.page ▸ only ▸ List.mem_cons_self
        have met : Met reads row := ⟨read,own,rows ▸ List.mem_of_mem_filter paged⟩
        rw [agents]
        simp only [addHires]
        by_cases mine : hireOf read.rows caller row.digest.agentId = true
        · rw [if_pos mine]
          by_cases small : fits (hires ++ [row.digest]) page.nextCursor = true
          · rw [if_pos small]
            exact goes _ (.inr (.inl small))
          · rw [if_neg small]
            by_cases first : hires.isEmpty = true
            · obtain rfl := List.isEmpty_iff.mp first
              refine absurd ?_ small
              cases handed : page.nextCursor with
              | none => exact roomy.alone row met none nofun
              | some next =>
                obtain ⟨_,other,seen,rfl⟩ := nextMet next handed
                exact roomy.alone row met (some other) fun x is => Option.mem_some.mp is ▸ seen
            · rw [if_neg first]
              apply encode_answers
              rcases ready.shown with none_ | ⟨before,seen,small⟩
              · exact absurd (List.isEmpty_iff.mpr none_) first
              · cases cursor with
                | none => exact roomy.last _ before seen small
                | some id =>
                  obtain ⟨_,at_,there,rfl⟩ := ready.known id rfl
                  exact roomy.even _ before at_ seen there small
        · rw [if_neg mine]
          exact goes hires (ready.shown.imp id .inr)

/-- A call that is still going is a walk of the list. -/
theorem hiresLoop_going {reads : List Read} {cursor : Option String} {hires : List Digest}
    (going : hiresLoop fits caller reads cursor hires = none) :
    ∃ steps : List (Step AgentRow String), Walk AgentRow.agentId Bound.key (startOf cursor) steps ∧
      steps.length = reads.length ∧
      (∀ s ∈ steps, s.next ≠ none ∧ ∃ read ∈ reads, s.rows = listed read.listed (hireRequest none)) := by
  induction reads generalizing cursor hires with
  | nil => exact ⟨[],trivial,rfl,nofun⟩
  | cons read rest ih =>
    unfold hiresLoop at going
    split at going
    next => cases going
    next page ok =>
      obtain ⟨step,fitting,rows,next,_⟩ := hire_page ok
      split at going
      next => cases going
      next more _ =>
        cases handed : page.nextCursor with
        | none =>
          rw [handed] at going
          cases going
        | some onward =>
          rw [handed] at going
          dsimp only at going
          split at going
          next => cases going
          next =>
            obtain ⟨steps,walk,long,all⟩ := ih going
            refine ⟨step :: steps,⟨fitting,.inr ⟨onward,next.trans handed,walk⟩⟩,by
              rw [List.length_cons,List.length_cons,long],?_⟩
            intro s member
            rcases List.mem_cons.mp member with rfl | member
            · exact ⟨by rw [next,handed]; nofun,read,List.mem_cons_self,rows⟩
            · obtain ⟨goes,r,there,same⟩ := all s member
              exact ⟨goes,r,List.mem_cons_of_mem _ there,same⟩

/-- A call answers once its turns on one store are more than the agents of it. -/
theorem hiresLoop_ends {reads : List Read} {cursor : Option String} {hires : List Digest} {store : AgentStore}
    (still : ∀ read ∈ reads, read.listed = store) (long : store.agents.size < reads.length) :
    hiresLoop fits caller reads cursor hires ≠ none := by
  intro going
  obtain ⟨steps,walk,same,all⟩ := hiresLoop_going going
  obtain ⟨last,final,none_⟩ := walk.ends (store.rows.map AgentRow.agentId) (fun s member row inside => by
    obtain ⟨_,read,there,rows⟩ := all s member
    rw [rows,still read there] at inside
    exact List.mem_map_of_mem ((listed_sublist store _).subset inside)) (by
    rw [List.length_map,AgentStore.rows,List.length_map,same]
    exact long)
  exact (all last (List.mem_of_getLast? final)).1 none_

/-- The cursors of a walk are ids of agents it met. -/
theorem HiresWalk.handed {cursor : Option String} {calls : List HiresCall} (pages : HiresWalk fits caller cursor calls)
    {c : HiresCall} (member : c ∈ calls) {next : String} (more : c.reply.2 = some next) :
    next ≠ "" ∧ ∃ row, Met c.reads row ∧ row.agentId = next := by
  induction calls generalizing cursor with
  | nil => cases member
  | cons d later ih =>
    obtain ⟨done,rest⟩ := pages
    rcases List.mem_cons.mp member with rfl | member
    · obtain ⟨kept,_,all,_,stopped,some_,_⟩ := hiresLoop_kept done
      rcases stopped with ⟨empty,_⟩ | ⟨last,final,same⟩
      · exact absurd rfl (some_ empty)
      · obtain ⟨read,_,named⟩ := all last (List.mem_of_getLast? final)
        obtain ⟨filled,row,there,own⟩ := named next (same.trans more)
        exact ⟨filled,row,⟨last.read,read,there⟩,own⟩
    · rcases rest with rfl | ⟨_,_,rest⟩
      · cases member
      · exact ih rest member

/-- What the calls of the tool come to. -/
structure HiresExact (fits : List Digest → Option String → Bool) (caller : String) (calls : List HiresCall) : Prop where
  ordered : (hiresOf calls).Pairwise fun a b => a.agentId < b.agentId
  once : HiresEnded calls → ∀ row : AgentRow, (∀ c ∈ calls, ∀ read ∈ c.reads, Hired caller row read) →
    (hiresOf calls).filter (fun d => decide (d.agentId = row.agentId)) = [row.digest]
  accepted : ∀ c ∈ calls, ∀ next, c.reply.2 = some next → ∀ onward : List Read, Roomy fits (c.reads ++ onward) →
    (∀ e, hiresLoop fits caller onward (some next) [] ≠ some (.error e)) ∧
      ∀ store : AgentStore, (∀ read ∈ onward, read.listed = store) → store.agents.size < onward.length →
        ∃ reply, hiresLoop fits caller onward (some next) [] = some (.ok reply)
  ends : ∀ (earlier later : List HiresCall) (store : AgentStore), calls = earlier ++ later →
    (∀ c ∈ later, ∀ read ∈ c.reads, read.listed = store) → store.agents.size < later.length → HiresEnded calls

/-- The replies of the tool are exact, and with room for them no call is refused. -/
theorem HiresWalk.exact_ {calls : List HiresCall} (pages : HiresWalk fits caller none calls) :
    HiresExact fits caller calls := by
  refine ⟨pages.ordered,fun ended row hired => pages.once ended hired,?_,?_⟩
  · intro c member next more onward roomy
    obtain ⟨filled,row,⟨read,there,listed⟩,own⟩ := pages.handed member more
    have ready : Ready fits (c.reads ++ onward) (some next) [] := by
      refine ⟨fun id is => ?_,.inl rfl⟩
      obtain rfl := Option.some.inj is
      exact ⟨filled,row,⟨read,List.mem_append_left _ there,listed⟩,own⟩
    have never : ∀ e, hiresLoop fits caller onward (some next) [] ≠ some (.error e) := fun e =>
      roomy.answered (fun read inside => List.mem_append_right _ inside) ready
    refine ⟨never,fun store still long => ?_⟩
    have done : hiresLoop fits caller onward (some next) [] ≠ none := hiresLoop_ends still long
    cases answer : hiresLoop fits caller onward (some next) [] with
    | none => exact absurd answer done
    | some result =>
      cases result with
      | error e => exact absurd answer (never e)
      | ok reply => exact ⟨reply,rfl⟩
  · rintro earlier later store rfl still long
    obtain ⟨cursor,rest⟩ := hiresWalk_asks.suffix pages
    obtain ⟨last,final,none_⟩ := rest.ends still long
    refine ⟨last,?_,none_⟩
    rw [List.getLast?_append,final]
    rfl

end Roomy

end Entorhinal.Agents
