import Entorhinal.Paging
import Entorhinal.JsonValue

/-! The registry journal as project consumers read it, page by page, while rows are appended
to it. -/
namespace Entorhinal
open Json (Doubles)

def IDENTITY_MARKER_OP : String := "agent.cutover"

def IDENTITY_CHANGE_OPS : List String :=
  ["agent.create","agent.rename","agent.update_tag","agent.set_labels","agent.set_avatar",
    "agent.set_github_identity","agent.dispose","agent.merge","agent.import","agent.set_namespace"]

def PIN_OP : String := "catalog.pin"

section Payload
variable {F : Type} [Doubles F]

/-- A payload with the tables of a user's own left out of a snapshot. -/
def publicJournalPayload (payload : String) : String :=
  match (Json.parse payload.toList : Option (Json F)) with
  | none => payload
  | some tree =>
    let value := tree.ordered
    match ((value.get? "snapshot_part").bind fun part => part.get? "tables").bind Json.members with
    | none => payload
    | some tables =>
      let kept := tables.filter fun t => t.1 != "user_profile" && t.1 != "user_expertise"
      if kept.length < tables.length then
        String.ofList (value.set "snapshot_part"
          ((value.field "snapshot_part").set "tables" (.object kept))).emit
      else payload

end Payload

namespace JournalTail

structure JournalRow where
  seq : Int
  op : String
  payloadJson : String
  actor : String
  requestKey : Option String
  createdAt : Int
  principal : Option String
deriving DecidableEq, Repr

structure JournalEntry where
  seq : Int
  op : String
  payloadJson : String
  actor : String
  requestKey : Option String
  createdAt : Int
  principal : Option String
deriving DecidableEq, Repr

structure JournalTailReply where
  entries : List JournalEntry
  generation : Int
deriving DecidableEq, Repr

/-- The journal in the order of its rows, whose numbers start above zero and rise. -/
structure Journal where
  rows : List JournalRow
  rising : Paging.Ordered JournalRow.seq rows
  positive : ∀ r ∈ rows, 0 < r.seq

def generationFromConnection (j : Journal) : Int := (j.rows.map JournalRow.seq).max?.getD 0

/-- The rows a project consumer is shown. -/
def projectRelevant (r : JournalRow) : Bool :=
  r.op ∉ IDENTITY_CHANGE_OPS ++ [IDENTITY_MARKER_OP,PIN_OP,"user.set","store.adopt"]

def clampLimit (limit : Int) : Int := max 1 (min limit 1000)

/-- A later state of the journal. -/
def Journal.Extends (earlier later : Journal) : Prop := earlier.rows <+: later.rows

/-- The rows for a project consumer with numbers above one and up to another. -/
def tailRows (j : Journal) (low high : Int) : List JournalRow :=
  Paging.between JournalRow.seq (Paging.Bound.key low) (Paging.Bound.key high) (j.rows.filter projectRelevant)

section Tail
variable (F : Type) [Doubles F]

def entryOf (r : JournalRow) : JournalEntry :=
  ⟨r.seq,r.op,publicJournalPayload (F := F) r.payloadJson,r.actor,r.requestKey,r.createdAt,r.principal⟩

def journalTail (j : Journal) (afterSeq limit : Int) : JournalTailReply :=
  let limit := clampLimit limit
  let found := (j.rows.filter fun r => decide (afterSeq < r.seq) && projectRelevant r).take limit.toNat
  ⟨found.map (entryOf F),generationFromConnection j⟩

/-- Where a consumer that takes a page of `full` rows for a full one goes on. -/
def follow (full cursor : Int) (reply : JournalTailReply) : Int :=
  if full ≤ reply.entries.length then (reply.entries.getLast?.map JournalEntry.seq).getD cursor
  else reply.generation

structure Call where
  journal : Journal
  limit : Int

/-- What a consumer receives over its calls, and where it stands then. `size` is the number
of rows it takes for a full page of a limit. -/
def consume (size : Int → Int) : Int → List Call → List JournalEntry × Int
  | cursor,[] => ([],cursor)
  | cursor,call :: later =>
    let reply := journalTail F call.journal cursor call.limit
    let rest := consume size (follow (size call.limit) cursor reply) later
    (reply.entries ++ rest.1,rest.2)

/-- The journal of each call is a later state of the one before. -/
def Grows (calls : List Call) : Prop := calls.Pairwise fun a b => a.journal.Extends b.journal

end Tail

theorem le_generation {j : Journal} {r : JournalRow} (member : r ∈ j.rows) :
    r.seq ≤ generationFromConnection j := by
  have listed : r.seq ∈ j.rows.map JournalRow.seq := List.mem_map_of_mem member
  unfold generationFromConnection
  cases found : (j.rows.map JournalRow.seq).max? with
  | none =>
    rw [List.max?_eq_none_iff.mp found] at listed
    cases listed
  | some top => exact (List.max?_eq_some_iff.mp found).2 _ listed

theorem generation_cases (j : Journal) :
    (j.rows = [] ∧ generationFromConnection j = 0) ∨ ∃ r ∈ j.rows, r.seq = generationFromConnection j := by
  unfold generationFromConnection
  cases found : (j.rows.map JournalRow.seq).max? with
  | none => exact .inl ⟨List.map_eq_nil_iff.mp (List.max?_eq_none_iff.mp found),rfl⟩
  | some top => exact .inr (List.mem_map.mp (List.max?_eq_some_iff.mp found).1)

theorem generation_nonneg (j : Journal) : 0 ≤ generationFromConnection j := by
  rcases generation_cases j with ⟨_,zero⟩ | ⟨r,member,same⟩
  · exact le_of_eq zero.symm
  · exact same ▸ (j.positive r member).le

theorem Journal.Extends.generation_le {a b : Journal} (grown : a.Extends b) :
    generationFromConnection a ≤ generationFromConnection b := by
  rcases generation_cases a with ⟨_,zero⟩ | ⟨r,member,same⟩
  · exact zero ▸ generation_nonneg b
  · exact same ▸ le_generation (grown.subset member)

/-- What is appended is numbered after everything there is. -/
theorem Journal.Extends.appended {a b : Journal} (grown : a.Extends b) :
    ∃ more, b.rows = a.rows ++ more ∧ ∀ r ∈ more, generationFromConnection a < r.seq := by
  obtain ⟨more,shape⟩ := grown
  refine ⟨more,shape.symm,fun r member => ?_⟩
  have inside : r ∈ b.rows := shape ▸ List.mem_append_right _ member
  rcases generation_cases a with ⟨_,zero⟩ | ⟨last,held,same⟩
  · exact zero ▸ b.positive r inside
  · have rising := b.rising
    rw [← shape] at rising
    exact same ▸ (List.pairwise_append.mp rising).2.2 last held r member

theorem mem_tailRows {j : Journal} {low high : Int} {r : JournalRow} :
    r ∈ tailRows j low high ↔ r ∈ j.rows ∧ projectRelevant r = true ∧ low < r.seq ∧ r.seq ≤ high := by
  simp only [tailRows,Paging.between,List.mem_filter,decide_eq_true_eq,Paging.within,Paging.Bound.key_lt,
    Paging.Bound.key_le,and_assoc]

theorem Journal.relevant_rising (j : Journal) : Paging.Ordered JournalRow.seq (j.rows.filter projectRelevant) :=
  j.rising.filter _

theorem tailRows_rising (j : Journal) (low high : Int) : Paging.Ordered JournalRow.seq (tailRows j low high) :=
  j.relevant_rising.filter _

theorem tailRows_empty {j : Journal} {low high : Int} (down : high ≤ low) : tailRows j low high = [] := by
  apply List.eq_nil_iff_forall_not_mem.mpr
  intro r member
  obtain ⟨_,_,above,upto⟩ := mem_tailRows.mp member
  omega

theorem tailRows_append {j : Journal} {low middle high : Int} (up : low ≤ middle) (on : middle ≤ high) :
    tailRows j low middle ++ tailRows j middle high = tailRows j low high :=
  Paging.Ordered.between_append j.relevant_rising (Paging.Bound.key_le.mpr up) (Paging.Bound.key_le.mpr on)

/-- Rows numbered up to the generation of a journal are the same in every later one. -/
theorem Journal.Extends.tailRows {a b : Journal} (grown : a.Extends b) {low high : Int}
    (upto : high ≤ generationFromConnection a) : tailRows a low high = JournalTail.tailRows b low high := by
  obtain ⟨more,shape,beyond⟩ := grown.appended
  have none_ : (more.filter projectRelevant).filter
      (fun r => decide (Paging.within (Paging.Bound.key low) (Paging.Bound.key high) r.seq)) = [] := by
    apply List.filter_eq_nil_iff.mpr
    intro r member
    have later := beyond r (List.mem_of_mem_filter member)
    rw [decide_eq_true_eq]
    intro inside
    have := Paging.Bound.key_le.mp inside.2
    omega
  rw [JournalTail.tailRows,JournalTail.tailRows,shape,List.filter_append,Paging.between,Paging.between,
    List.filter_append,none_,List.append_nil]

section Laws
variable {F : Type} [Doubles F]

theorem clampLimit_pos (limit : Int) : 1 ≤ clampLimit limit := le_max_left _ _

theorem found_eq (j : Journal) (cursor : Int) :
    (j.rows.filter fun r => decide (cursor < r.seq) && projectRelevant r) =
      (j.rows.filter projectRelevant).filter fun r => decide (cursor < r.seq) := by
  rw [List.filter_filter]

/-- One page of a consumer that counts a page as full by the limit the journal goes by. -/
theorem journalTail_page (j : Journal) (cursor limit : Int) :
    let reply := journalTail F j cursor limit
    let next := follow (clampLimit limit) cursor reply
    reply.entries = (tailRows j cursor next).map (entryOf F) ∧ next ≤ generationFromConnection j ∧
      (cursor ≤ generationFromConnection j → cursor ≤ next) ∧
      (cursor < next ∨ next = generationFromConnection j) := by
  intro reply next
  have pos := clampLimit_pos limit
  set found := (j.rows.filter projectRelevant).filter fun r => decide (cursor < r.seq) with foundEq
  have entries : reply.entries = (found.take (clampLimit limit).toNat).map (entryOf F) := by
    simp only [reply,journalTail,found_eq,foundEq]
  have after : ∀ r ∈ found, cursor < r.seq := fun r member => of_decide_eq_true (List.mem_filter.mp member).2
  have inside : ∀ r ∈ found, r ∈ j.rows := fun r member =>
    List.mem_of_mem_filter (List.mem_of_mem_filter member)
  have rising : Paging.Ordered JournalRow.seq found := j.relevant_rising.filter _
  have same : ∀ high, tailRows j cursor high =
      Paging.between JournalRow.seq (Paging.Bound.key cursor) (Paging.Bound.key high) found := by
    intro high
    rw [tailRows,Paging.between,Paging.between,foundEq]
    generalize j.rows.filter projectRelevant = shown
    rw [List.filter_filter]
    apply List.filter_congr
    intro r _
    rw [← Bool.decide_and,decide_eq_decide]
    exact ⟨fun held => ⟨held,Paging.Bound.key_lt.mp held.1⟩,fun held => held.1⟩
  by_cases full : clampLimit limit ≤ reply.entries.length
  · have many : found.take (clampLimit limit).toNat ≠ [] := by
      intro empty
      rw [entries,empty] at full
      simp only [List.map_nil,List.length_nil] at full
      omega
    obtain ⟨last,ends⟩ : ∃ last, (found.take (clampLimit limit).toNat).getLast? = some last :=
      ⟨_,List.getLast?_eq_some_getLast many⟩
    have stands : next = last.seq := by
      simp only [next,follow]
      rw [if_pos full,entries,List.getLast?_map,ends]
      rfl
    have held := List.mem_of_mem_take (List.mem_of_getLast? ends)
    have above := after last held
    have upto := le_generation (inside last held)
    refine ⟨?_,stands ▸ upto,fun _ => by omega,.inl (by omega)⟩
    rw [entries,stands,same,
      ← Paging.Ordered.take_between rising (fun r member => Paging.Bound.key_lt.mpr (after r member)) ends]
  · have stands : next = generationFromConnection j := by
      simp only [next,follow]
      rw [if_neg full]
      rfl
    refine ⟨?_,le_of_eq stands,fun below => by omega,.inr stands⟩
    have whole : found.take (clampLimit limit).toNat = found := by
      rw [entries,List.length_map,List.length_take] at full
      exact List.take_of_length_le (by omega)
    have all : tailRows j cursor next = found := by
      rw [same,Paging.between]
      apply List.filter_eq_self.mpr
      intro r member
      exact decide_eq_true ⟨Paging.Bound.key_lt.mpr (after r member),
        Paging.Bound.key_le.mpr (stands ▸ le_generation (inside r member))⟩
    rw [entries,whole,all]

/-- A walk from a place the journal has reached receives the rows from there on. -/
theorem consume_rows {calls : List Call} (grows : Grows calls) {cursor : Int}
    (reached : ∀ call ∈ calls, cursor ≤ generationFromConnection call.journal) {last : Call}
    (final : calls.getLast? = some last) :
    (consume F clampLimit cursor calls).1 =
        (tailRows last.journal cursor (consume F clampLimit cursor calls).2).map (entryOf F) ∧
      cursor ≤ (consume F clampLimit cursor calls).2 ∧
      (consume F clampLimit cursor calls).2 ≤ generationFromConnection last.journal := by
  induction calls generalizing cursor with
  | nil => cases final
  | cons call later ih =>
    obtain ⟨onward,grows⟩ := List.pairwise_cons.mp grows
    obtain ⟨entries,upto,up,_⟩ := journalTail_page (F := F) call.journal cursor call.limit
    have on := up (reached call List.mem_cons_self)
    simp only [consume]
    rw [entries]
    set next := follow (clampLimit call.limit) cursor (journalTail F call.journal cursor call.limit)
    cases later with
    | nil =>
      obtain rfl : call = last := by simpa using final
      rw [consume,List.append_nil]
      exact ⟨rfl,on,upto⟩
    | cons second rest =>
      have final : (second :: rest).getLast? = some last := by
        rw [List.getLast?_cons_cons] at final
        exact final
      have grown := onward last (List.mem_of_getLast? final)
      obtain ⟨received,above,bounded⟩ := ih grows (fun c member => upto.trans (onward c member).generation_le) final
      rw [received,grown.tailRows upto,← List.map_append,tailRows_append on above]
      exact ⟨rfl,on.trans above,bounded⟩

/-- From any place: a cursor past the journal falls back to its end. -/
theorem consume_from {calls : List Call} (grows : Grows calls) {start : Int} {last : Call}
    (final : calls.getLast? = some last) :
    ∃ low ≤ start, (consume F clampLimit start calls).1 =
      (tailRows last.journal low (consume F clampLimit start calls).2).map (entryOf F) := by
  cases calls with
  | nil => cases final
  | cons call later =>
    by_cases within_ : start ≤ generationFromConnection call.journal
    · obtain ⟨onward,_⟩ := List.pairwise_cons.mp grows
      refine ⟨start,le_refl _,(consume_rows grows (fun c member => ?_) final).1⟩
      rcases List.mem_cons.mp member with rfl | member
      · exact within_
      · exact within_.trans (onward c member).generation_le
    · have past := lt_of_not_ge within_
      obtain ⟨entries,upto,_,moved⟩ := journalTail_page (F := F) call.journal start call.limit
      set next := follow (clampLimit call.limit) start (journalTail F call.journal start call.limit) with nextEq
      have stands : next = generationFromConnection call.journal := moved.resolve_left (by omega)
      have none_ : (journalTail F call.journal start call.limit).entries = [] := by
        rw [entries,tailRows_empty (by omega),List.map_nil]
      refine ⟨next,by omega,?_⟩
      simp only [consume]
      rw [none_,← nextEq,List.nil_append]
      obtain ⟨onward,grows⟩ := List.pairwise_cons.mp grows
      cases later with
      | nil =>
        rw [consume,tailRows_empty (le_refl _),List.map_nil]
      | cons second rest =>
        have final : (second :: rest).getLast? = some last := by
          rw [List.getLast?_cons_cons] at final
          exact final
        exact (consume_rows grows (fun c member => upto.trans (onward c member).generation_le) final).1

theorem consume_append (size : Int → Int) (cursor : Int) (earlier later : List Call) :
    consume F size cursor (earlier ++ later) =
      ((consume F size cursor earlier).1 ++ (consume F size (consume F size cursor earlier).2 later).1,
        (consume F size (consume F size cursor earlier).2 later).2) := by
  induction earlier generalizing cursor with
  | nil => rfl
  | cons call earlier ih => simp only [List.cons_append,consume,ih,List.append_assoc]

theorem consume_low (cursor : Int) (calls : List Call) : min cursor 0 ≤ (consume F clampLimit cursor calls).2 := by
  induction calls generalizing cursor with
  | nil => exact min_le_left _ _
  | cons call later ih =>
    obtain ⟨_,_,_,moved⟩ := journalTail_page (F := F) call.journal cursor call.limit
    have := ih (follow (clampLimit call.limit) cursor (journalTail F call.journal cursor call.limit))
    have := generation_nonneg call.journal
    simp only [consume]
    omega

/-- Every call that sees a row brings the cursor closer to it. -/
theorem consume_reaches {r : JournalRow} {calls : List Call} (seen : ∀ call ∈ calls, r ∈ call.journal.rows)
    {cursor : Int} (enough : r.seq - cursor ≤ calls.length) : r.seq ≤ (consume F clampLimit cursor calls).2 := by
  induction calls generalizing cursor with
  | nil =>
    simp only [consume,List.length_nil] at enough ⊢
    omega
  | cons call later ih =>
    obtain ⟨_,_,_,moved⟩ := journalTail_page (F := F) call.journal cursor call.limit
    have held := le_generation (seen call List.mem_cons_self)
    simp only [consume]
    refine ih (fun c member => seen c (List.mem_cons_of_mem _ member)) ?_
    rw [List.length_cons] at enough
    omega

theorem entries_rising (j : Journal) (low high : Int) :
    ((tailRows j low high).map (entryOf F)).Pairwise fun a b => a.seq < b.seq :=
  List.pairwise_map.mpr (tailRows_rising j low high)

/-- A consumer that takes a page for full by the clamped limit receives the rows of projects
after its start in order and each once, while rows are appended, and every row in the end. -/
theorem journalTail_exact (start : Int) (calls : List Call) (grows : Grows calls) :
    (consume F clampLimit start calls).1.Pairwise (fun a b => a.seq < b.seq) ∧
      (∀ last, calls.getLast? = some last →
        ((consume F clampLimit start calls).1.filter fun e => decide (start < e.seq)) =
          (tailRows last.journal start (consume F clampLimit start calls).2).map (entryOf F)) ∧
      ∀ (earlier later : List Call) (r : JournalRow), calls = earlier ++ later →
        (∀ call ∈ later, r ∈ call.journal.rows) → projectRelevant r = true → start < r.seq →
        r.seq - min start 0 ≤ later.length →
        (consume F clampLimit start calls).1.count (entryOf F r) = 1 := by
  have ordered : (consume F clampLimit start calls).1.Pairwise (fun a b => a.seq < b.seq) := by
    cases final : calls.getLast? with
    | none =>
      obtain rfl := List.getLast?_eq_none_iff.mp final
      exact .nil
    | some last =>
      obtain ⟨low,_,received⟩ := consume_from (F := F) grows final
      rw [received]
      exact entries_rising _ _ _
  have exact_ : ∀ last, calls.getLast? = some last →
      ((consume F clampLimit start calls).1.filter fun e => decide (start < e.seq)) =
        (tailRows last.journal start (consume F clampLimit start calls).2).map (entryOf F) := by
    intro last final
    obtain ⟨low,below,received⟩ := consume_from (F := F) grows final
    rw [received]
    set cursor := (consume F clampLimit start calls).2
    rw [List.filter_map,tailRows,tailRows,Paging.between,Paging.between]
    generalize last.journal.rows.filter projectRelevant = shown
    rw [List.filter_filter]
    refine congrArg _ (List.filter_congr fun r _ => ?_)
    change (decide (start < r.seq) && decide _) = decide _
    rw [← Bool.decide_and,decide_eq_decide]
    constructor
    · rintro ⟨after,inside⟩
      exact ⟨Paging.Bound.key_lt.mpr after,inside.2⟩
    · intro inside
      have after := Paging.Bound.key_lt.mp inside.1
      exact ⟨after,Paging.Bound.key_lt.mpr (by omega),inside.2⟩
  refine ⟨ordered,exact_,?_⟩
  rintro earlier later r shape seen relevant after enough
  cases final : later.getLast? with
  | none =>
    obtain rfl := List.getLast?_eq_none_iff.mp final
    rw [List.length_nil] at enough
    omega
  | some last =>
    have held := seen last (List.mem_of_getLast? final)
    have whole : calls.getLast? = some last := by
      rw [shape,List.getLast?_append,final]
      rfl
    have reached : r.seq ≤ (consume F clampLimit start calls).2 := by
      rw [shape,consume_append]
      refine consume_reaches seen ?_
      have := consume_low (F := F) start earlier
      omega
    have member : entryOf F r ∈ (consume F clampLimit start calls).1 := by
      have inside := List.mem_map_of_mem (f := entryOf F)
        (mem_tailRows.mpr ⟨held,relevant,after,reached⟩ : r ∈ tailRows last.journal start _)
      rw [← exact_ last whole] at inside
      exact List.mem_of_mem_filter inside
    exact List.count_eq_one_of_mem (ordered.imp fun {a b} less same => by rw [same] at less; omega) member

end Laws

def countedRow (n : Nat) : JournalRow := ⟨(n : Int) + 1,"register","","operator",none,0,none⟩

def countedJournal (count : Nat) : Journal where
  rows := (List.range count).map countedRow
  rising := List.pairwise_map.mpr (List.pairwise_lt_range.imp fun {a b} less => by
    show (a : Int) + 1 < b + 1
    omega)
  positive := by
    intro r member
    obtain ⟨n,_,rfl⟩ := List.mem_map.mp member
    show (0 : Int) < n + 1
    omega

theorem mem_countedJournal {count : Nat} {r : JournalRow} :
    r ∈ (countedJournal count).rows ↔ ∃ n < count, countedRow n = r := by
  simp only [countedJournal,List.mem_map,List.mem_range]

theorem countedJournal_found (count : Nat) :
    ((countedJournal count).rows.filter fun r => decide (0 < r.seq) && projectRelevant r) =
      (countedJournal count).rows := by
  apply List.filter_eq_self.mpr
  intro r member
  obtain ⟨n,_,rfl⟩ := mem_countedJournal.mp member
  have after : decide (0 < (countedRow n).seq) = true := decide_eq_true (by show (0 : Int) < n + 1; omega)
  rw [after]
  rfl

/-- A consumer at the end of a journal stays there. -/
theorem consume_resting {F : Type} [Doubles F] (j : Journal) (limit : Int) (full : 1 ≤ limit) (n : Nat) :
    consume F id (generationFromConnection j) (List.replicate n ⟨j,limit⟩) = ([],generationFromConnection j) := by
  induction n with
  | zero => rfl
  | succ n ih =>
    have none_ : (journalTail F j (generationFromConnection j) limit).entries = [] := by
      have past : (j.rows.filter fun r => decide (generationFromConnection j < r.seq) && projectRelevant r) = [] := by
        apply List.filter_eq_nil_iff.mpr
        intro r member
        have := le_generation member
        simp only [Bool.and_eq_true,decide_eq_true_eq]
        omega
      simp only [journalTail,past,List.take_nil,List.map_nil]
    have stays : follow (id limit) (generationFromConnection j) (journalTail F j (generationFromConnection j) limit) =
        generationFromConnection j := by
      rw [follow,none_,if_neg (by simp only [id,List.length_nil]; omega)]
      rfl
    simp only [List.replicate_succ,consume]
    rw [none_,stays,ih]
    rfl

/-- A consumer that asks for all of more than a thousand rows is given a thousand, goes on from
the generation and never receives the last one. -/
theorem clamped_page_skips {F : Type} [Doubles F] (count : Nat) (many : 1000 < count) (n : Nat) :
    entryOf F (countedRow (count - 1)) ∉
      (consume F id 0 (List.replicate n ⟨countedJournal count,count⟩)).1 := by
  cases n with
  | zero => exact List.not_mem_nil
  | succ n =>
    have clamped : clampLimit count = 1000 := by
      unfold clampLimit
      omega
    have entries : (journalTail F (countedJournal count) 0 count).entries =
        ((countedJournal count).rows.take 1000).map (entryOf F) := by
      simp only [journalTail,countedJournal_found,clamped]
      rfl
    have moved : follow (id (count : Int)) 0 (journalTail F (countedJournal count) 0 count) =
        generationFromConnection (countedJournal count) := by
      have short : (journalTail F (countedJournal count) 0 count).entries.length = min 1000 count := by
        rw [entries,List.length_map,List.length_take,countedJournal,List.length_map,List.length_range]
      rw [follow,short,if_neg (by simp only [id]; omega)]
      rfl
    simp only [List.replicate_succ,consume]
    rw [moved,consume_resting _ _ (by omega),List.append_nil,entries]
    intro member
    obtain ⟨r,taken,same⟩ := List.mem_map.mp member
    rw [countedJournal,← List.map_take,List.take_range] at taken
    obtain ⟨k,small,rfl⟩ := List.mem_map.mp taken
    have less := List.mem_range.mp small
    have seqs : (k : Int) + 1 = ((count - 1 : Nat) : Int) + 1 := congrArg JournalEntry.seq same
    omega

theorem thousandth_page_skips :
    (countedRow 1000 ∈ (countedJournal 1001).rows ∧ projectRelevant (countedRow 1000) = true ∧
      0 < (countedRow 1000).seq) ∧
    ∀ n : Nat, entryOf Empty (countedRow 1000) ∉
      (consume Empty id 0 (List.replicate n ⟨countedJournal 1001,(1001 : Nat)⟩)).1 :=
  ⟨⟨mem_countedJournal.mpr ⟨1000,by decide,rfl⟩,by decide,by decide⟩,clamped_page_skips 1001 (by decide)⟩

theorem countedJournal_extends {a b : Nat} (less : a ≤ b) : (countedJournal a).Extends (countedJournal b) := by
  have shape : List.range a = (List.range b).take a := by rw [List.take_range,Nat.min_eq_left less]
  change (List.range a).map countedRow <+: (List.range b).map countedRow
  rw [shape,List.map_take]
  exact List.take_prefix _ _

/-- A row appended after the first call is received once. -/
theorem journalTail_exact_appended :
    (consume Empty clampLimit 0 [⟨countedJournal 1,1⟩,⟨countedJournal 2,5000⟩,⟨countedJournal 2,7⟩]).1.count
      (entryOf Empty (countedRow 1)) = 1 := by
  have grows : Grows [⟨countedJournal 1,1⟩,⟨countedJournal 2,5000⟩,⟨countedJournal 2,7⟩] := by
    refine .cons ?_ (.cons ?_ (.cons ?_ .nil))
    · intro c member
      have : c.journal = countedJournal 2 := by
        rcases List.mem_cons.mp member with rfl | member
        · rfl
        · exact List.mem_singleton.mp member ▸ rfl
      rw [this]
      exact countedJournal_extends (by decide)
    · intro c member
      exact List.mem_singleton.mp member ▸ countedJournal_extends (le_refl 2)
    · intro c member
      cases member
  have held : countedRow 1 ∈ (countedJournal 2).rows := mem_countedJournal.mpr ⟨1,by decide,rfl⟩
  refine (journalTail_exact 0 _ grows).2.2 [_] [_,_] (countedRow 1) rfl ?_ (by decide) (by decide) (by decide)
  intro c member
  rcases List.mem_cons.mp member with rfl | member
  · exact held
  · exact List.mem_singleton.mp member ▸ held

end JournalTail

end Entorhinal
