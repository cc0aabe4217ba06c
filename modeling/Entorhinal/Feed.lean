import Mathlib.Data.List.Induction
import Mathlib.Data.Prod.Lex
import Entorhinal.Paging
import Entorhinal.Status
import Entorhinal.Table

/-! The feed of statuses. It names the latest write of each version, and what it returns after a cursor
brings what was known at the cursor up to date. -/
namespace Entorhinal.Feed

open Package (Refusal StatusRecord)
open Paging (Ordered sorted_strict)

section Model

structure FeedWrite where
  feedSeq : Nat
  id : String
  record : StatusRecord
deriving DecidableEq, Repr

structure FeedItem where
  feedSeq : Nat
  id : String
deriving DecidableEq, Repr

structure FeedView where
  feedSeq : Nat
  records : List FeedItem
deriving DecidableEq, Repr

abbrev VersionKey := String ×ₗ String

def FeedWrite.key (w : FeedWrite) : VersionKey := toLex (w.record.name,w.record.version)

def FeedWrite.item (w : FeedWrite) : FeedItem := ⟨w.feedSeq,w.id⟩

/-- The highest sequence, zero of no writes. -/
def current (log : List FeedWrite) : Nat := (log.map FeedWrite.feedSeq).foldl max 0

def latestStep (latest : Table VersionKey FeedWrite) (w : FeedWrite) : Table VersionKey FeedWrite :=
  if (latest.get? w.key).all fun prior => decide (prior.feedSeq < w.feedSeq) then latest.insert w.key w else latest

def latest (log : List FeedWrite) : Table VersionKey FeedWrite := log.foldl latestStep ∅

/-- The latest write of each version is taken before the cursor is. -/
def selectFeed (log : List FeedWrite) (oldestServableAfter : Nat) (after : Option Nat) : Except Refusal FeedView :=
  if after.any fun n => decide (current log < n) || decide (n < oldestServableAfter) then .error (.new .feedAfterUnavailable)
  else
    let records := (((latest log).rows.map Prod.snd).filter fun w => decide (after.getD 0 < w.feedSeq)).map FeedWrite.item
    .ok ⟨current log,records.mergeSort fun a b => decide (a.feedSeq ≤ b.feedSeq)⟩

/-- The version that an item of the log is of. -/
def versionOf (log : List FeedWrite) (item : FeedItem) : Option VersionKey :=
  (log.find? fun w => w.feedSeq == item.feedSeq).map FeedWrite.key

/-- What a view says of a version. -/
def itemOf (log : List FeedWrite) (view : FeedView) (key : VersionKey) : Option FeedItem :=
  view.records.find? fun item => versionOf log item == some key

end Model

section Latest
variable {log : List FeedWrite}

/-- The write of a version that none is after. -/
structure IsLatest (log : List FeedWrite) (key : VersionKey) (w : FeedWrite) : Prop where
  logged : w ∈ log
  own : w.key = key
  last : ∀ x ∈ log, x.key = key → x.feedSeq ≤ w.feedSeq

theorem latest_append (log : List FeedWrite) (w : FeedWrite) : latest (log ++ [w]) = latestStep (latest log) w :=
  List.foldl_append

theorem IsLatest.append {key : VersionKey} {w x : FeedWrite} (is : IsLatest log key w)
    (later : x.key = key → x.feedSeq ≤ w.feedSeq) : IsLatest (log ++ [x]) key w := by
  refine ⟨List.mem_append_left _ is.logged,is.own,fun y member same => ?_⟩
  rcases List.mem_append.mp member with old | new
  · exact is.last y old same
  · obtain rfl := List.mem_singleton.mp new
    exact later same

theorem latestStep_other {table : Table VersionKey FeedWrite} {key : VersionKey} {w : FeedWrite} (other : w.key ≠ key) :
    (latestStep table w).get? key = table.get? key := by
  unfold latestStep
  split_ifs
  · rw [Table.get?_insert,if_neg other.symm]
  · rfl

/-- The table holds the latest write of each version that was written. -/
theorem latest_get (log : List FeedWrite) (key : VersionKey) :
    (∃ w, (latest log).get? key = some w ∧ IsLatest log key w) ∨ ((latest log).get? key = none ∧ ∀ x ∈ log, x.key ≠ key) := by
  induction log using List.reverseRecOn with
  | nil => exact .inr ⟨rfl,fun _ member => absurd member List.not_mem_nil⟩
  | append_singleton log x ih =>
    rw [latest_append]
    by_cases own : x.key = key
    · subst own
      rcases ih with ⟨w,found,is⟩ | ⟨absent,none_⟩
      · by_cases later : w.feedSeq < x.feedSeq
        · refine .inl ⟨x,?_,List.mem_append_right _ (List.mem_singleton_self _),rfl,fun y member same => ?_⟩
          · rw [latestStep,found,Option.all_some,if_pos (decide_eq_true later),Table.get?_insert,if_pos rfl]
          · rcases List.mem_append.mp member with old | new
            · exact (is.last y old same).trans later.le
            · rw [List.mem_singleton.mp new]
        · refine .inl ⟨w,?_,is.append fun _ => not_lt.mp later⟩
          rw [latestStep,found,Option.all_some,if_neg (fun holds => later (of_decide_eq_true holds)),found]
      · refine .inl ⟨x,?_,List.mem_append_right _ (List.mem_singleton_self _),rfl,fun y member same => ?_⟩
        · rw [latestStep,absent,Option.all_none,if_pos rfl,Table.get?_insert,if_pos rfl]
        · rcases List.mem_append.mp member with old | new
          · exact absurd same (none_ y old)
          · rw [List.mem_singleton.mp new]
    · rw [latestStep_other own]
      rcases ih with ⟨w,found,is⟩ | ⟨absent,none_⟩
      · exact .inl ⟨w,found,is.append fun same => absurd same own⟩
      · refine .inr ⟨absent,fun y member => ?_⟩
        rcases List.mem_append.mp member with old | new
        · exact none_ y old
        · rw [List.mem_singleton.mp new]
          exact own

theorem latest_is {key : VersionKey} {w : FeedWrite} (found : (latest log).get? key = some w) : IsLatest log key w := by
  rcases latest_get log key with ⟨x,is,last⟩ | ⟨absent,_⟩
  · rw [Option.some.inj (found.symm.trans is)]
    exact last
  · cases found.symm.trans absent

variable (distinct : (log.map FeedWrite.feedSeq).Nodup)
include distinct

theorem same_write {w x : FeedWrite} (first : w ∈ log) (second : x ∈ log) (same : w.feedSeq = x.feedSeq) : w = x :=
  List.inj_on_of_nodup_map distinct first second same

theorem latest_iff {key : VersionKey} {w : FeedWrite} : (latest log).get? key = some w ↔ IsLatest log key w := by
  refine ⟨latest_is,fun is => ?_⟩
  rcases latest_get log key with ⟨x,found,last⟩ | ⟨_,none_⟩
  · have same : x.feedSeq = w.feedSeq := le_antisymm (is.last x last.logged last.own) (last.last w is.logged is.own)
    rw [found,same_write distinct last.logged is.logged same]
  · exact absurd is.own (none_ w is.logged)

theorem versionOf_item {w : FeedWrite} (logged : w ∈ log) : versionOf log w.item = some w.key := by
  unfold versionOf
  cases found : log.find? fun x => x.feedSeq == w.item.feedSeq with
  | none => exact absurd (beq_self_eq_true w.feedSeq) (List.find?_eq_none.mp found w logged)
  | some x =>
    have same : x.feedSeq = w.feedSeq := beq_iff_eq.mp (List.find?_some (p := fun x : FeedWrite => x.feedSeq == w.item.feedSeq) found)
    rw [same_write distinct (List.mem_of_find?_eq_some found) logged same]
    rfl

end Latest

section Views
variable {log part : List FeedWrite} {oldest : Nat} {after : Option Nat} {view : FeedView}

theorem mem_records (selected : selectFeed part oldest after = .ok view) {item : FeedItem} :
    item ∈ view.records ↔ ∃ key w, (latest part).get? key = some w ∧ after.getD 0 < w.feedSeq ∧ w.item = item := by
  unfold selectFeed at selected
  split_ifs at selected
  rw [← Except.ok.inj selected]
  simp only [List.mem_mergeSort,List.mem_map,List.mem_filter,decide_eq_true_eq,Prod.exists,exists_eq_right]
  constructor
  · rintro ⟨w,⟨⟨key,row⟩,later⟩,is⟩
    exact ⟨key,w,Table.mem_rows.mp row,later,is⟩
  · rintro ⟨key,w,row,later,is⟩
    exact ⟨w,⟨⟨key,Table.mem_rows.mpr row⟩,later⟩,is⟩

theorem row_own (within : part.Sublist log) {key : VersionKey} {w : FeedWrite} (row : (latest part).get? key = some w) :
    w.key = key ∧ w ∈ log :=
  ⟨(latest_is row).own,within.subset (latest_is row).logged⟩

variable (distinct : (log.map FeedWrite.feedSeq).Nodup) (within : part.Sublist log)
include distinct within

theorem records_ordered (selected : selectFeed part oldest after = .ok view) : Ordered FeedItem.feedSeq view.records := by
  unfold selectFeed at selected
  split_ifs at selected
  rw [← Except.ok.inj selected]
  refine sorted_strict (fun a b => decide_eq_true_iff) ?_
  have rows : (((latest part).rows.map Prod.snd).map FeedWrite.feedSeq).Nodup := by
    rw [List.map_map]
    refine List.Nodup.map_on (fun x member y member' same => ?_) (List.Nodup.of_map Prod.fst (latest part).keys_nodup)
    obtain ⟨key,w⟩ := x
    obtain ⟨key',w'⟩ := y
    obtain ⟨own,logged⟩ := row_own within (Table.mem_rows.mp member)
    obtain ⟨own',logged'⟩ := row_own within (Table.mem_rows.mp member')
    obtain rfl := same_write distinct logged logged' same
    rw [← own,← own']
  rw [List.map_map]
  exact rows.sublist (List.filter_sublist.map _)

theorem itemOf_iff (selected : selectFeed part oldest after = .ok view) {key : VersionKey} {item : FeedItem} :
    itemOf log view key = some item ↔ ∃ w, (latest part).get? key = some w ∧ after.getD 0 < w.feedSeq ∧ w.item = item := by
  have version {item : FeedItem} (member : item ∈ view.records) (is : versionOf log item = some key) :
      ∃ w, (latest part).get? key = some w ∧ after.getD 0 < w.feedSeq ∧ w.item = item := by
    obtain ⟨key',w,row,later,rfl⟩ := (mem_records selected).mp member
    obtain ⟨own,logged⟩ := row_own within row
    rw [versionOf_item distinct logged,own] at is
    exact ⟨w,Option.some.inj is ▸ row,later,rfl⟩
  constructor
  · intro found
    have is : versionOf log item = some key :=
      beq_iff_eq.mp (List.find?_some (p := fun item => versionOf log item == some key) found)
    exact version (List.mem_of_find?_eq_some found) is
  · rintro ⟨w,row,later,rfl⟩
    obtain ⟨own,logged⟩ := row_own within row
    have member : w.item ∈ view.records := (mem_records selected).mpr ⟨key,w,row,later,rfl⟩
    have is : versionOf log w.item = some key := (versionOf_item distinct logged).trans (congrArg some own)
    unfold itemOf
    cases found : view.records.find? fun item => versionOf log item == some key with
    | none => exact absurd (beq_iff_eq.mpr is) (List.find?_eq_none.mp found _ member)
    | some other =>
      have is' : versionOf log other = some key :=
        beq_iff_eq.mp (List.find?_some (p := fun item => versionOf log item == some key) found)
      obtain ⟨w',row',_,rfl⟩ := version (List.mem_of_find?_eq_some found) is'
      rw [Option.some.inj (row.symm.trans row')]

theorem versions_nodup (selected : selectFeed part oldest after = .ok view) : (view.records.map (versionOf log)).Nodup := by
  have apart : view.records.Nodup :=
    List.Nodup.of_map FeedItem.feedSeq (List.pairwise_map.mpr ((records_ordered distinct within selected).imp fun less => less.ne))
  refine List.Nodup.map_on (fun x member y member' same => ?_) apart
  obtain ⟨key,w,row,_,rfl⟩ := (mem_records selected).mp member
  obtain ⟨key',w',row',_,rfl⟩ := (mem_records selected).mp member'
  obtain ⟨own,logged⟩ := row_own within row
  obtain ⟨own',logged'⟩ := row_own within row'
  rw [versionOf_item distinct logged,versionOf_item distinct logged',own,own'] at same
  rw [Option.some.inj same] at row
  rw [Option.some.inj (row.symm.trans row')]

end Views

section Overlay
variable {log : List FeedWrite}

/-- The latest write of a version is the latest up to a cut that it is not after. -/
theorem latest_before (distinct : (log.map FeedWrite.feedSeq).Nodup) {n : Nat} {key : VersionKey} {w : FeedWrite} (early : w.feedSeq ≤ n)
    (row : (latest log).get? key = some w) : (latest (log.filter fun w => decide (w.feedSeq ≤ n))).get? key = some w := by
  obtain ⟨logged,own,last⟩ := latest_is row
  refine (latest_iff (distinct.sublist (List.filter_sublist.map _))).mpr ⟨List.mem_filter.mpr ⟨logged,decide_eq_true early⟩,own,?_⟩
  exact fun x member same => last x (List.mem_of_mem_filter member) same

/-- What was known at a cursor, overlaid with what the feed returns after it, is the whole feed. -/
theorem feed_overlays (log : List FeedWrite) (oldest n : Nat) (distinct : (log.map FeedWrite.feedSeq).Nodup)
    (positive : ∀ w ∈ log, 0 < w.feedSeq) (served : oldest ≤ n) (cut : n ≤ current log) :
    ∃ base increment full, selectFeed (log.filter fun w => decide (w.feedSeq ≤ n)) oldest none = .ok base ∧
      selectFeed log oldest (some n) = .ok increment ∧ selectFeed log oldest none = .ok full ∧
      increment.feedSeq = full.feedSeq ∧
      (∀ key, ((itemOf log increment key).or (itemOf log base key)) = itemOf log full key) ∧
      ∀ view ∈ [base,increment,full], view.records.Pairwise (fun a b => a.feedSeq < b.feedSeq) ∧
        (view.records.map (versionOf log)).Nodup := by
  have allowed : ¬ ((some n).any fun n => decide (current log < n) || decide (n < oldest)) = true := by
    rw [Option.any_some,Bool.or_eq_true,decide_eq_true_eq,decide_eq_true_eq]
    omega
  have base : ∃ view, selectFeed (log.filter fun w => decide (w.feedSeq ≤ n)) oldest none = .ok view := ⟨_,rfl⟩
  have increment : ∃ view, selectFeed log oldest (some n) = .ok view ∧ view.feedSeq = current log := ⟨_,if_neg allowed,rfl⟩
  have full : ∃ view, selectFeed log oldest none = .ok view ∧ view.feedSeq = current log := ⟨_,rfl,rfl⟩
  obtain ⟨base,known⟩ := base
  obtain ⟨increment,new,seq⟩ := increment
  obtain ⟨full,all,seq'⟩ := full
  have before : (log.filter fun w => decide (w.feedSeq ≤ n)).Sublist log := List.filter_sublist
  refine ⟨base,increment,full,known,new,all,seq.trans seq'.symm,fun key => ?_,?_⟩
  · have whole : log.Sublist log := List.Sublist.refl _
    cases row : (latest log).get? key with
    | none =>
      have absent {view : FeedView} {part : List FeedWrite} {after : Option Nat} (within : part.Sublist log)
          (selected : selectFeed part oldest after = .ok view) : itemOf log view key = none := by
        refine Option.eq_none_iff_forall_ne_some.mpr fun item found => ?_
        obtain ⟨w,row',_⟩ := (itemOf_iff distinct within selected).mp found
        obtain ⟨own,logged⟩ := row_own within row'
        rcases latest_get log key with ⟨x,is,_⟩ | ⟨_,none_⟩
        · cases row.symm.trans is
        · exact none_ w logged own
      rw [absent whole new,absent before known,absent whole all]
      rfl
    | some w =>
      have logged := (latest_is row).logged
      rw [(itemOf_iff distinct whole all).mpr ⟨w,row,positive w logged,rfl⟩]
      by_cases early : w.feedSeq ≤ n
      · have old := (itemOf_iff distinct before known).mpr ⟨w,latest_before distinct early row,positive w logged,rfl⟩
        have unchanged : itemOf log increment key = none := by
          refine Option.eq_none_iff_forall_ne_some.mpr fun item found => ?_
          obtain ⟨x,row',later,_⟩ := (itemOf_iff distinct whole new).mp found
          rw [← Option.some.inj (row.symm.trans row')] at later
          exact absurd early (not_le.mpr later)
        rw [unchanged,Option.none_or,old]
      · rw [(itemOf_iff distinct whole new).mpr ⟨w,row,not_le.mp early,rfl⟩,Option.some_or]
  · intro view member
    simp only [List.mem_cons,List.not_mem_nil,or_false] at member
    rcases member with rfl | rfl | rfl
    · exact ⟨records_ordered distinct before known,versions_nodup distinct before known⟩
    · exact ⟨records_ordered distinct (List.Sublist.refl _) new,versions_nodup distinct (List.Sublist.refl _) new⟩
    · exact ⟨records_ordered distinct (List.Sublist.refl _) all,versions_nodup distinct (List.Sublist.refl _) all⟩

theorem feed_overlays_again : ∃ log increment full, log.length = 3 ∧ selectFeed log 0 (some 2) = .ok increment ∧
    selectFeed log 0 none = .ok full ∧ increment.feedSeq = full.feedSeq := by
  let write (n : Nat) (name : String) : FeedWrite :=
    ⟨n,name,⟨"ck-status/v1","k1",name,"1.0.0","","",n,.available,none,none,"2026-01-01T00:00:00Z","2026-01-01T00:00:00Z"⟩⟩
  obtain ⟨_,increment,full,_,new,all,same,_⟩ :=
    feed_overlays [write 1 "@a/b",write 2 "@a/c",write 3 "@a/b"] 0 2 (by decide) (by decide) (by decide) (by decide)
  exact ⟨_,increment,full,rfl,new,all,same⟩

end Overlay

end Entorhinal.Feed
