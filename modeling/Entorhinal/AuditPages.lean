import Entorhinal.Paging
import Entorhinal.Refusal
import Entorhinal.Json
import Mathlib.Data.Int.ConditionallyCompleteOrder
import Mathlib.Data.Prod.Lex
import Mathlib.Data.List.Forall2
import Mathlib.Order.ConditionallyCompleteLattice.Basic
import Mathlib.Order.Lex

/-! The audit page: rows from the newest time down, and the text of the cursor between pages. -/
namespace Entorhinal.Agents
open Paging

/-- A row of the audit table; the last three hold the texts of JSON values. -/
structure AuditRow where
  rowId : Int
  timeMs : Int
  agentId : String
  action : String
  target : String
  authorization : String
  outcome : String
deriving DecidableEq, Repr

/-- The audit table: row ids count up from one, and both numbers of a row are 64-bit. -/
structure AuditLog where
  rows : List AuditRow
  distinct : (rows.map AuditRow.rowId).Nodup
  counted : ∀ r ∈ rows, 0 < r.rowId ∧ r.rowId < 2 ^ 63
  timed : ∀ r ∈ rows, -2 ^ 63 ≤ r.timeMs ∧ r.timeMs < 2 ^ 63

structure AuditPage where
  rows : List AuditRow
  nextCursor : Option String
deriving DecidableEq, Repr

section Cursor

/-- `{:x}` of an `i64`: the digits of its two's complement. -/
def lowerHex (value : Int) : List Char := Nat.toDigits 16 (value % 2 ^ 64).toNat

def cursorText (time rowId : Int) : List Char := ['a','1',':'] ++ lowerHex time ++ ':' :: lowerHex rowId

def hexDigits (digits : List Char) : Option Nat :=
  digits.foldl (fun value c => value.bind fun value => (Json.hexValue c).map fun digit => value * 16 + digit) (some 0)

/-- `i64::from_str_radix(text,16)`. -/
def fromStrRadix16 : List Char → Option Int
  | [] => none
  | ['+'] => none
  | ['-'] => none
  | '-' :: digits => (hexDigits digits).bind fun value => if value ≤ 2 ^ 63 then some (-(value : Int)) else none
  | '+' :: digits => (hexDigits digits).bind fun value => if value < 2 ^ 63 then some (value : Int) else none
  | digits => (hexDigits digits).bind fun value => if value < 2 ^ 63 then some (value : Int) else none

def splitOnce (text : List Char) : Option (List Char × List Char) :=
  match text.dropWhile (· != ':') with
  | _ :: after => some (text.takeWhile (· != ':'),after)
  | [] => none

/-- The time and row id of a cursor's text. -/
def parseCursor : List Char → Option (Int × Int)
  | 'a' :: '1' :: ':' :: text =>
    match splitOnce text with
    | some (time,id) =>
      match fromStrRadix16 time,fromStrRadix16 id with
      | some time,some id => some (time,id)
      | _,_ => none
    | none => none
  | _ => none

theorem hexDigits_append {front back : List Char} : hexDigits (front ++ back) =
    back.foldl (fun value c => value.bind fun value => (Json.hexValue c).map fun digit => value * 16 + digit)
      (hexDigits front) := List.foldl_append

theorem hexValue_digitChar : ∀ d < 16, Json.hexValue (Nat.digitChar d) = some d := by decide

theorem digitChar_plain : ∀ d < 16, Nat.digitChar d ≠ ':' ∧ Nat.digitChar d ≠ '+' ∧ Nat.digitChar d ≠ '-' := by decide

theorem hexDigits_toDigits (n : Nat) : hexDigits (Nat.toDigits 16 n) = some n := by
  induction n using Nat.strongRecOn with
  | ind n ih =>
    by_cases small : n < 16
    · rw [Nat.toDigits_of_lt_base small]
      simp [hexDigits,hexValue_digitChar n small]
    · have part := ih (n / 16) (by omega)
      rw [Nat.toDigits_of_base_le (by omega) (by omega),hexDigits_append,part]
      have digit := hexValue_digitChar (n % 16) (Nat.mod_lt _ (by omega))
      simp only [List.foldl_cons,List.foldl_nil,Option.bind_some,digit,Option.map_some]
      congr 1
      omega

theorem toDigits_plain (n : Nat) : ∀ c ∈ Nat.toDigits 16 n, c ≠ ':' ∧ c ≠ '+' ∧ c ≠ '-' := by
  induction n using Nat.strongRecOn with
  | ind n ih =>
    intro c member
    by_cases small : n < 16
    · rw [Nat.toDigits_of_lt_base small,List.mem_singleton] at member
      exact member ▸ digitChar_plain n small
    · rw [Nat.toDigits_of_base_le (by omega) (by omega),List.mem_append,List.mem_singleton] at member
      rcases member with high | low
      · exact ih (n / 16) (by omega) c high
      · exact low ▸ digitChar_plain _ (Nat.mod_lt _ (by omega))

/-- The digits of a two's complement are read as the number they are the digits of. -/
theorem fromStrRadix16_lowerHex {value : Int} (low : -2 ^ 63 ≤ value) (high : value < 2 ^ 63) :
    fromStrRadix16 (lowerHex value) = if 0 ≤ value then some value else none := by
  have plain := toDigits_plain (value % 2 ^ 64).toNat
  have number := hexDigits_toDigits (value % 2 ^ 64).toNat
  have some_ : 0 < (Nat.toDigits 16 (value % 2 ^ 64).toNat).length := Nat.length_toDigits_pos
  unfold lowerHex
  generalize Nat.toDigits 16 (value % 2 ^ 64).toNat = digits at plain number some_
  have read : fromStrRadix16 digits =
      (hexDigits digits).bind fun value => if value < 2 ^ 63 then some (value : Int) else none := by
    unfold fromStrRadix16
    split
    next => cases some_
    next => exact absurd rfl (plain '+' List.mem_cons_self).2.1
    next => exact absurd rfl (plain '-' List.mem_cons_self).2.2
    next => exact absurd rfl (plain '-' List.mem_cons_self).2.2
    next => exact absurd rfl (plain '+' List.mem_cons_self).2.1
    next => rfl
  rw [read,number,Option.bind_some]
  by_cases positive : 0 ≤ value
  · rw [if_pos positive,if_pos (by omega)]
    congr 1
    omega
  · rw [if_neg positive,if_neg (by omega)]

theorem splitOnce_append {front back : List Char} (plain : ∀ c ∈ front, c ≠ ':') :
    splitOnce (front ++ ':' :: back) = some (front,back) := by
  have keep : ∀ c ∈ front, (c != ':') = true := fun c member => bne_iff_ne.mpr (plain c member)
  unfold splitOnce
  rw [List.dropWhile_append_of_pos keep,List.takeWhile_append_of_pos keep]
  simp

/-- A cursor is read back where its time is not negative, and refused otherwise. -/
theorem parseCursor_text {time rowId : Int} (timed : -2 ^ 63 ≤ time ∧ time < 2 ^ 63) (counted : 0 < rowId ∧ rowId < 2 ^ 63) :
    parseCursor (cursorText time rowId) = if 0 ≤ time then some (time,rowId) else none := by
  have front : ∀ c ∈ lowerHex time, c ≠ ':' := fun c member => (toDigits_plain _ c member).1
  have id := fromStrRadix16_lowerHex (by omega : -2 ^ 63 ≤ rowId) counted.2
  rw [if_pos counted.1.le] at id
  have cut : splitOnce (lowerHex time ++ ':' :: lowerHex rowId) = some (lowerHex time,lowerHex rowId) :=
    splitOnce_append front
  simp only [cursorText,List.cons_append,List.nil_append,parseCursor,cut,id,
    fromStrRadix16_lowerHex timed.1 timed.2]
  by_cases positive : 0 ≤ time
  · simp only [if_pos positive]
  · simp only [if_neg positive]

end Cursor

section Page

def auditRefusal {α : Type} (message : String) : Except AgentMutationError α := .error ⟨"invalid_request",message,[]⟩

/-- Newest time first, and the later row first of one time. -/
def newer (a b : AuditRow) : Bool := decide (b.timeMs < a.timeMs) || (a.timeMs == b.timeMs && decide (b.rowId ≤ a.rowId))

def readCursor : Option String → Except AgentMutationError (Option (Int × Int))
  | none => .ok none
  | some cursor =>
    match parseCursor cursor.toList with
    | some place => .ok (some place)
    | none => auditRefusal "invalid audit cursor"

def beyond (place : Int × Int) (r : AuditRow) : Bool :=
  decide (r.timeMs < place.1) || (r.timeMs == place.1 && decide (r.rowId < place.2))

def auditCursor (r : AuditRow) : String := String.ofList (cursorText r.timeMs r.rowId)

/-- The scan stops one row after the page. -/
def agentAuditPage (log : AuditLog) (sinceMs limit : Option Int) (cursor : Option String) :
    Except AgentMutationError AuditPage :=
  let limit := limit.getD 200
  if ¬(1 ≤ limit ∧ limit ≤ 200) then auditRefusal "audit limit must be 1..=200"
  else match readCursor cursor with
    | .error e => .error e
    | .ok after =>
      let found := ((log.rows.filter fun r => sinceMs.all (fun since => decide (since ≤ r.timeMs)) &&
        after.all fun place => beyond place r).mergeSort newer).take (limit.toNat + 1)
      let page := lookAhead auditCursor limit.toNat found
      .ok ⟨page.1,page.2⟩

end Page

section Walk

/-- Rows stand from the newest time down, and from the later row down within one time. -/
def auditKey (r : AuditRow) : Intᵒᵈ ×ₗ Intᵒᵈ := toLex (OrderDual.toDual r.timeMs,OrderDual.toDual r.rowId)

def placeKey (place : Int × Int) : Intᵒᵈ ×ₗ Intᵒᵈ := toLex (OrderDual.toDual place.1,OrderDual.toDual place.2)

def placeBound (place : Int × Int) : Bound (Intᵒᵈ ×ₗ Intᵒᵈ) := Bound.key (placeKey place)

def afterPlace (place : Option (Int × Int)) : Bound (Intᵒᵈ ×ₗ Intᵒᵈ) := (place.map placeBound).getD ⊥

/-- The rows a page is about, in its order. -/
def matching (log : AuditLog) (sinceMs : Option Int) : List AuditRow :=
  (log.rows.filter fun r => sinceMs.all fun since => decide (since ≤ r.timeMs)).mergeSort newer

theorem newer_iff (a b : AuditRow) : newer a b = true ↔ auditKey a ≤ auditKey b := by
  rw [newer,auditKey,auditKey,Prod.Lex.toLex_le_toLex,Bool.or_eq_true,Bool.and_eq_true,decide_eq_true_eq,
    decide_eq_true_eq,beq_iff_eq]
  exact Iff.rfl

theorem beyond_iff (place : Int × Int) (r : AuditRow) : beyond place r = true ↔ placeKey place < auditKey r := by
  rw [beyond,auditKey,placeKey,Prod.Lex.toLex_lt_toLex,Bool.or_eq_true,Bool.and_eq_true,decide_eq_true_eq,
    decide_eq_true_eq,beq_iff_eq]
  exact or_congr Iff.rfl (and_congr eq_comm Iff.rfl)

theorem afterPlace_iff (place : Option (Int × Int)) (r : AuditRow) :
    (place.all fun place => beyond place r) = true ↔ afterPlace place < Bound.key (auditKey r) := by
  cases place with
  | none => simp [afterPlace]
  | some place => simp [afterPlace,placeBound,beyond_iff]

theorem AuditLog.keys_distinct (log : AuditLog) : (log.rows.map auditKey).Nodup := by
  refine List.pairwise_map.mpr ((List.pairwise_map.mp log.distinct).imp fun {a b} apart same => apart ?_)
  have both := toLex.injective same
  exact OrderDual.toDual.injective (congrArg Prod.snd both)

theorem matching_ordered (log : AuditLog) (sinceMs : Option Int) : Ordered auditKey (matching log sinceMs) :=
  sorted_strict newer_iff (log.keys_distinct.sublist (List.filter_sublist.map _))

theorem mem_matching {log : AuditLog} {sinceMs : Option Int} {r : AuditRow} :
    r ∈ matching log sinceMs ↔ r ∈ log.rows ∧ ∀ since ∈ sinceMs, since ≤ r.timeMs := by
  rw [matching,List.mem_mergeSort,List.mem_filter]
  cases sinceMs with
  | none => simp
  | some since => simp

structure AuditVisit where
  log : AuditLog
  limit : Option Int
  page : AuditPage

/-- Pages of one list of audit rows, each from the cursor of the one before. -/
def AuditWalk (sinceMs : Option Int) : Option String → List AuditVisit → Prop
  | _,[] => True
  | cursor,v :: later => agentAuditPage v.log sinceMs v.limit cursor = .ok v.page ∧
      (later = [] ∨ ∃ next, v.page.nextCursor = some next ∧ AuditWalk sinceMs (some next) later)

def AuditEnded (visits : List AuditVisit) : Prop := ∃ last, visits.getLast? = some last ∧ last.page.nextCursor = none

/-- A page is a stretch of the rows it is about, up to the place its cursor writes down. -/
structure AuditShows (sinceMs : Option Int) (v : AuditVisit) (s : Step AuditRow (Int × Int)) : Prop where
  rows : s.rows = matching v.log sinceMs
  page : s.page = v.page.rows
  next : v.page.nextCursor = s.next.map fun place => String.ofList (cursorText place.1 place.2)
  last : ∀ place, s.next = some place → ∃ r, v.page.rows.getLast? = some r ∧ place = (r.timeMs,r.rowId)

variable {sinceMs : Option Int} {cursor : Option String} {visits : List AuditVisit}

theorem agentAuditPage_step {log : AuditLog} {limit : Option Int} {page : AuditPage}
    (ok : agentAuditPage log sinceMs limit cursor = .ok page) :
    ∃ place, readCursor cursor = .ok place ∧ ∃ s : Step AuditRow (Int × Int),
      s.Fits auditKey placeBound (afterPlace place) ∧ AuditShows sinceMs ⟨log,limit,page⟩ s := by
  unfold agentAuditPage at ok
  simp only at ok
  split at ok
  next => cases ok
  next range =>
    split at ok
    next => cases ok
    next place read =>
      cases ok
      have limit_ : 1 ≤ (limit.getD 200).toNat := by
        have := not_not.mp range
        omega
      have found : (log.rows.filter fun r => sinceMs.all (fun since => decide (since ≤ r.timeMs)) &&
          place.all fun place => beyond place r).mergeSort newer =
          between auditKey (afterPlace place) ⊤ (matching log sinceMs) := by
        have swapped : (log.rows.filter fun r => sinceMs.all (fun since => decide (since ≤ r.timeMs)) &&
            place.all fun place => beyond place r) =
            (log.rows.filter fun r => sinceMs.all fun since => decide (since ≤ r.timeMs)).filter
              fun r => decide (within (afterPlace place) ⊤ (auditKey r)) := by
          rw [List.filter_filter]
          refine List.filter_congr fun r _ => ?_
          rw [Bool.and_comm]
          congr 1
          rw [Bool.eq_iff_iff,afterPlace_iff,decide_eq_true_eq]
          exact ⟨fun after => ⟨after,le_top⟩,fun inside => inside.1⟩
        rw [swapped]
        exact mergeSort_filter newer_iff (log.keys_distinct.sublist (List.filter_sublist.map _)) _
      have written := lookAhead_map (fun r : AuditRow => (r.timeMs,r.rowId))
        (fun place => String.ofList (cursorText place.1 place.2)) (limit.getD 200).toNat
        ((between auditKey (afterPlace place) ⊤ (matching log sinceMs)).take ((limit.getD 200).toNat + 1))
      have shape : lookAhead auditCursor (limit.getD 200).toNat
          ((between auditKey (afterPlace place) ⊤ (matching log sinceMs)).take ((limit.getD 200).toNat + 1)) = _ := written
      rw [found,shape]
      have faithful : ∀ r : AuditRow, placeBound (r.timeMs,r.rowId) = Bound.key (auditKey r) := fun _ => rfl
      refine ⟨place,read,_,lookAhead_fits faithful (matching_ordered log sinceMs) limit_,⟨rfl,rfl,rfl,?_⟩⟩
      intro next more
      obtain ⟨r,ends,same⟩ := lookAhead_last more
      exact ⟨r,ends,same.symm⟩

/-- The cursor of a row is read back unless its time is negative. -/
theorem readCursor_of {log : AuditLog} {r : AuditRow} (member : r ∈ log.rows) :
    readCursor (some (auditCursor r)) =
      if 0 ≤ r.timeMs then .ok (some (r.timeMs,r.rowId)) else auditRefusal "invalid audit cursor" := by
  have text : (auditCursor r).toList = cursorText r.timeMs r.rowId := String.toList_ofList
  rw [readCursor,text,parseCursor_text (log.timed r member) (log.counted r member)]
  by_cases positive : 0 ≤ r.timeMs
  · simp only [if_pos positive]
  · simp only [if_neg positive]

/-- A cursor that is handed out is that of the last row of its page. -/
theorem AuditShows.handed_row {v : AuditVisit} {s : Step AuditRow (Int × Int)} (shows_ : AuditShows sinceMs v s)
    {low : Bound (Intᵒᵈ ×ₗ Intᵒᵈ)} (fits : s.Fits auditKey placeBound low) {next : String}
    (handed : v.page.nextCursor = some next) :
    ∃ r ∈ v.log.rows, v.page.rows.getLast? = some r ∧ next = auditCursor r ∧ s.next = some (r.timeMs,r.rowId) := by
  obtain ⟨place,more,rfl⟩ := Option.map_eq_some_iff.mp (shows_.next.symm.trans handed)
  obtain ⟨r,ends,rfl⟩ := shows_.last place more
  have paged : r ∈ s.page := shows_.page ▸ List.mem_of_getLast? ends
  have there : r ∈ s.rows := List.mem_of_mem_filter (fits.page ▸ paged : r ∈ between _ _ _ s.rows)
  exact ⟨r,(mem_matching.mp (shows_.rows ▸ there)).1,ends,rfl,more⟩

/-- The steps of a walk from a place. -/
theorem AuditWalk.walk (pages : AuditWalk sinceMs cursor visits) {place : Option (Int × Int)}
    (read : readCursor cursor = .ok place) :
    ∃ steps, Walk auditKey placeBound (afterPlace place) steps ∧ List.Forall₂ (AuditShows sinceMs) visits steps := by
  induction visits generalizing cursor place with
  | nil => exact ⟨[],trivial,.nil⟩
  | cons v later ih =>
    obtain ⟨ok,rest⟩ := pages
    obtain ⟨start,own,s,fits,shows_⟩ := agentAuditPage_step ok
    obtain rfl := Except.ok.inj (own.symm.trans read)
    rcases rest with rfl | ⟨next,handed,rest⟩
    · exact ⟨[s],⟨fits,.inl rfl⟩,.cons shows_ .nil⟩
    · obtain ⟨r,member,_,rfl,onward⟩ := shows_.handed_row fits handed
      cases later with
      | nil => exact ⟨[s],⟨fits,.inl rfl⟩,.cons shows_ .nil⟩
      | cons u more =>
        -- the next page read the cursor, and so it is one that is read back
        obtain ⟨back,readBack,_⟩ := agentAuditPage_step rest.1
        have same : readCursor (some (auditCursor r)) = .ok (some (r.timeMs,r.rowId)) := by
          rw [readCursor_of member] at readBack ⊢
          split at readBack
          next positive => rw [if_pos positive]
          next => cases readBack
        obtain ⟨steps,walk,all⟩ := ih rest same
        exact ⟨s :: steps,⟨fits,.inr ⟨_,onward,walk⟩⟩,.cons shows_ all⟩

theorem auditWalk_asks : Paging.Asks (AuditWalk sinceMs) fun cursor v =>
    agentAuditPage v.log sinceMs v.limit cursor = .ok v.page where
  nil _ := trivial
  cons pages := ⟨pages.1,pages.2.imp_right fun ⟨next,_,rest⟩ => ⟨some next,rest⟩⟩

variable {steps : List (Step AuditRow (Int × Int))}

theorem shows_rows (all : List.Forall₂ (AuditShows sinceMs) visits steps) :
    visits.flatMap (fun v => v.page.rows) = steps.flatMap Step.page :=
  flatMap_pairs (fun _ _ page => page.page.symm) all

theorem audit_ended (all : List.Forall₂ (AuditShows sinceMs) visits steps) : AuditEnded visits ↔ Ended steps := by
  refine last_pairs (fun v s page => ?_) all
  rw [page.next,Option.map_eq_none_iff]

theorem audit_step (all : List.Forall₂ (AuditShows sinceMs) visits steps) {s : Step AuditRow (Int × Int)}
    (member : s ∈ steps) : ∃ v ∈ visits, s.rows = matching v.log sinceMs := by
  obtain ⟨v,inside,page⟩ := pair_right all member
  exact ⟨v,inside,page.rows⟩

/-- What the pages of audit rows come to; a cursor is refused where the last row of its page has
a negative time. -/
structure AuditExact (sinceMs : Option Int) (visits : List AuditVisit) : Prop where
  ordered : (visits.flatMap fun v => v.page.rows).Pairwise fun a b =>
    b.timeMs < a.timeMs ∨ a.timeMs = b.timeMs ∧ b.rowId < a.rowId
  once : AuditEnded visits → ∀ r : AuditRow, (∀ v ∈ visits, r ∈ v.log.rows) →
    (∀ since ∈ sinceMs, since ≤ r.timeMs) →
    (visits.flatMap fun v => v.page.rows).filter (fun x => decide (x.timeMs = r.timeMs ∧ x.rowId = r.rowId)) = [r]
  matching : ∀ v ∈ visits, ∀ r ∈ v.page.rows, r ∈ v.log.rows ∧ ∀ since ∈ sinceMs, since ≤ r.timeMs
  accepted : ∀ v ∈ visits, ∀ next, v.page.nextCursor = some next → ∃ r, v.page.rows.getLast? = some r ∧
    ∀ (log : AuditLog) (limit : Option Int), 1 ≤ limit.getD 200 ∧ limit.getD 200 ≤ 200 →
      ((∃ page, agentAuditPage log sinceMs limit (some next) = .ok page) ↔ 0 ≤ r.timeMs)
  ends : ∀ (earlier later : List AuditVisit) (log : AuditLog), visits = earlier ++ later →
    (∀ v ∈ later, v.log = log) → log.rows.length < later.length → AuditEnded visits

theorem AuditWalk.ends (pages : AuditWalk sinceMs cursor visits) {log : AuditLog} (still : ∀ v ∈ visits, v.log = log)
    (long : log.rows.length < visits.length) : AuditEnded visits := by
  cases visits with
  | nil => cases long
  | cons v later =>
    obtain ⟨place,read,_⟩ := agentAuditPage_step pages.1
    obtain ⟨steps,walk,all⟩ := pages.walk read
    refine (audit_ended all).mpr (walk.ends (log.rows.map auditKey) ?_ ?_)
    · intro s member r inside
      obtain ⟨u,there,same⟩ := audit_step all member
      rw [same,still u there] at inside
      exact List.mem_map_of_mem (mem_matching.mp inside).1
    · rw [List.length_map,← all.length_eq]
      exact long

/-- The pages of audit rows are exact up to a cursor that is refused. -/
theorem AuditWalk.exact_ (pages : AuditWalk sinceMs none visits) : AuditExact sinceMs visits := by
  obtain ⟨steps,walk,all⟩ := pages.walk (rfl : readCursor none = .ok none)
  refine ⟨?_,?_,?_,?_,?_⟩
  · rw [shows_rows all]
    refine walk.ordered.imp fun {a b} less => ?_
    have split := Prod.Lex.toLex_lt_toLex.mp less
    exact split
  · intro ended r there since
    have present : ∀ s ∈ steps, r ∈ s.rows := by
      intro s member
      obtain ⟨v,listed,same⟩ := audit_step all member
      exact same ▸ mem_matching.mpr ⟨there v listed,since⟩
    have once := walk.once ((audit_ended all).mp ended) (Bound.key_bottom _) present
    rw [shows_rows all,← once]
    refine List.filter_congr fun x _ => ?_
    rw [decide_eq_decide]
    exact ⟨fun ⟨time,id⟩ => by rw [auditKey,auditKey,time,id],fun same =>
      ⟨congrArg (fun k => (ofLex k).1) same,congrArg (fun k => (ofLex k).2) same⟩⟩
  · intro v member r shown
    obtain ⟨cursor,ok⟩ := auditWalk_asks.each pages v member
    obtain ⟨place,_,s,fits,shows_⟩ := agentAuditPage_step ok
    have paged : r ∈ s.page := shows_.page ▸ shown
    have there : r ∈ s.rows := List.mem_of_mem_filter (fits.page ▸ paged : r ∈ between _ _ _ s.rows)
    exact mem_matching.mp (shows_.rows ▸ there)
  · intro v member next handed
    obtain ⟨cursor,ok⟩ := auditWalk_asks.each pages v member
    obtain ⟨place,_,s,fits,shows_⟩ := agentAuditPage_step ok
    obtain ⟨r,inside,last,rfl,_⟩ := shows_.handed_row fits handed
    refine ⟨r,last,fun log limit range => ?_⟩
    have read := readCursor_of inside
    constructor
    · rintro ⟨page,accepted⟩
      obtain ⟨_,back,_⟩ := agentAuditPage_step accepted
      rw [read] at back
      split at back
      next positive => exact positive
      next => cases back
    · intro positive
      rw [if_pos positive] at read
      unfold agentAuditPage
      simp only
      rw [if_neg (not_not.mpr range),read]
      exact ⟨_,rfl⟩
  · rintro earlier later log rfl still long
    obtain ⟨cursor,rest⟩ := auditWalk_asks.suffix pages
    obtain ⟨last,final,none_⟩ := rest.ends still long
    refine ⟨last,?_,none_⟩
    rw [List.getLast?_append,final]
    rfl

end Walk

end Entorhinal.Agents
