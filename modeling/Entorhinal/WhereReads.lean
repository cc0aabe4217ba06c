import Mathlib.Data.List.Induction
import Entorhinal.WhereWatch

/-! What one read of the history says of every batch ever appended, whether the
history still holds it or not. -/
namespace Entorhinal.Where

def WhereBatch.mentions (batch : WhereBatch) (id : String) : Bool :=
  batch.allAgents || batch.entries.has id

/-- What the batch says of an agent it mentions; nothing where it asks for a resync. -/
def WhereBatch.word (batch : WhereBatch) (id : String) : Option AgentWhere :=
  if batch.allAgents then none else (batch.entries.get? id).join

/-- The last batch that mentions an agent: its number and its word. -/
def lastWord (log : List WhereBatch) (id : String) : Option (Nat × Option AgentWhere) :=
  log.foldl (fun found batch => if batch.mentions id then some (batch.seq,batch.word id) else found) none

@[simp] theorem lastWord_append (log : List WhereBatch) (batch : WhereBatch) (id : String) :
    lastWord (log ++ [batch]) id =
      if batch.mentions id then some (batch.seq,batch.word id) else lastWord log id := by
  simp [lastWord]

theorem lastWord_some {log : List WhereBatch} {id : String} {seq : Nat} {word : Option AgentWhere}
    (last : lastWord log id = some (seq,word)) :
    ∃ batch ∈ log, batch.seq = seq ∧ batch.mentions id = true ∧ batch.word id = word := by
  induction log using List.reverseRecOn with
  | nil => cases last
  | append_singleton log batch ih =>
    rw [lastWord_append] at last
    split at last
    next mentioned =>
      cases last
      exact ⟨batch,by simp,rfl,mentioned,rfl⟩
    next =>
      obtain ⟨found,inside,facts⟩ := ih last
      exact ⟨found,by simp [inside],facts⟩

/-- Every batch ever appended is in the log, numbered from one, and the history
is what is left of it after its oldest batches were dropped. -/
structure Recorded (history : WhereHistory) (log : List WhereBatch) : Prop where
  numbered : log.map (·.seq) = List.range' 1 log.length
  seq : history.seq = log.length
  suffix : ∃ evicted, log = evicted ++ history.batches
  kept : history.batches = [] → log = []

theorem Recorded.push {history : WhereHistory} {log : List WhereBatch} (recorded : Recorded history log)
    (entries : Table String (Option AgentWhere)) (allAgents : Bool) :
    Recorded (history.push entries allAgents) (log ++ [⟨history.seq + 1,entries,allAgents⟩]) := by
  obtain ⟨evicted,split⟩ := recorded.suffix
  constructor
  · simp [recorded.numbered,List.range'_concat,recorded.seq,Nat.add_comm]
  · simp [WhereHistory.push,recorded.seq]
  · simp only [WhereHistory.push]
    split
    next =>
      cases batches : history.batches with
      | nil => exact ⟨log ++ [⟨history.seq + 1,entries,allAgents⟩],by simp⟩
      | cons first rest => exact ⟨evicted ++ [first],by simp [split,batches]⟩
    next => exact ⟨evicted,by simp [split]⟩
  · simp only [WhereHistory.push]
    split
    next full =>
      intro empty
      have size := congrArg List.length empty
      simp only [List.length_tail,List.length_nil] at size
      simp only [historyLimit] at full
      omega
    next => intro empty; simp at empty

theorem Recorded.ordered {history : WhereHistory} {log : List WhereBatch} (recorded : Recorded history log) :
    log.Pairwise fun first second => first.seq < second.seq := by
  have numbers : (log.map (·.seq)).Pairwise (· < ·) := by
    rw [recorded.numbered]
    exact List.pairwise_lt_range'
  exact List.pairwise_map.mp numbers

theorem Recorded.bounded {history : WhereHistory} {log : List WhereBatch} (recorded : Recorded history log)
    {batch : WhereBatch} (inside : batch ∈ log) : 1 ≤ batch.seq ∧ batch.seq ≤ history.seq := by
  have member : batch.seq ∈ log.map (·.seq) := List.mem_map_of_mem inside
  rw [recorded.numbered,List.mem_range'_1] at member
  have := recorded.seq
  omega

theorem Recorded.lastWord_le {history : WhereHistory} {log : List WhereBatch}
    (recorded : Recorded history log) {id : String} {seq : Nat} {word : Option AgentWhere}
    (last : lastWord log id = some (seq,word)) : seq ≤ history.seq := by
  obtain ⟨batch,inside,rfl,_⟩ := lastWord_some last
  exact (recorded.bounded inside).2

/-- A cursor that can be resumed from has lost nothing to eviction. -/
theorem Recorded.later_eq {history : WhereHistory} {log : List WhereBatch}
    (recorded : Recorded history log) {incarnation : String} {cursor : Option Cursor}
    (resumes : resumable incarnation history cursor = true) :
    ∃ c, cursor = some c ∧ c.incarnation = incarnation ∧ c.seq ≤ history.seq ∧
      later history cursor = log.filter fun batch => decide (c.seq < batch.seq) := by
  cases cursor with
  | none => cases resumes
  | some c =>
    simp only [resumable,Option.any_some,Bool.and_eq_true,beq_iff_eq,decide_eq_true_eq] at resumes
    obtain ⟨⟨own,known⟩,front⟩ := resumes
    refine ⟨c,rfl,own,known,?_⟩
    obtain ⟨evicted,split⟩ := recorded.suffix
    have gone : ∀ batch ∈ evicted, batch.seq ≤ c.seq := by
      intro batch inside
      cases batches : history.batches with
      | nil =>
        have empty := recorded.kept batches
        simp [empty,batches] at split
        simp [split] at inside
      | cons first rest =>
        have ordered := recorded.ordered
        rw [split,List.pairwise_append] at ordered
        have before := ordered.2.2 batch inside first (by simp [batches])
        simp only [batches,List.head?_cons,Option.all_some,decide_eq_true_eq] at front
        omega
    have dropped : evicted.filter (fun batch => decide (c.seq < batch.seq)) = [] := by
      rw [List.filter_eq_nil_iff]
      intro batch inside
      simpa using gone batch inside
    rw [split,List.filter_append,dropped]
    rfl

/-- The newest row of an agent among some batches. -/
def latest (batches : List WhereBatch) (id : String) : Option WhereEntry :=
  batches.foldl (fun found batch => match batch.entries.get? id with
    | some (some row) => some ⟨batch.seq,row⟩
    | _ => found) none

/-- The rows of watched agents in a batch can all be sent. -/
def WhereBatch.plain (ids : Option (List String)) (batch : WhereBatch) : Prop :=
  batch.allAgents = false ∧ ∀ id, watched ids id = true → batch.entries.get? id ≠ some none

private theorem rows_read (ids : Option (List String)) (seq : Nat) (rows : List (String × Option AgentWhere))
    (sorted : rows.Pairwise fun a b => a.1 < b.1) (read : Coalesced) :
    (((rows.foldl (coalesceRow ids seq) read).safe = true ↔ read.safe = true ∧
      ∀ id, watched ids id = true → Table.lookup rows id ≠ some none)) ∧
    ∀ id, watched ids id = true → (rows.foldl (coalesceRow ids seq) read).changes.get? id =
      match Table.lookup rows id with
      | some (some row) => some ⟨seq,row⟩
      | _ => read.changes.get? id := by
  induction rows generalizing read with
  | nil => simp [Table.lookup]
  | cons item rest ih =>
    obtain ⟨key,value⟩ := item
    obtain ⟨first,rest_sorted⟩ := List.pairwise_cons.mp sorted
    have absent : Table.lookup rest key = none := by
      cases found : Table.lookup rest key with
      | none => rfl
      | some row => exact absurd (first _ (Table.mem_of_lookup found)) (lt_irrefl key)
    obtain ⟨safe,changes⟩ := ih rest_sorted (coalesceRow ids seq read (key,value))
    simp only [List.foldl_cons]
    constructor
    · rw [safe]
      constructor
      · rintro ⟨before,others⟩
        by_cases here : watched ids key = true
        · cases value with
          | none => simp [coalesceRow,here] at before
          | some row =>
            simp only [coalesceRow,here,if_true] at before
            refine ⟨before,fun id seen => ?_⟩
            by_cases same : key = id
            · simp [Table.lookup,same]
            · simpa [Table.lookup,same] using others id seen
        · simp only [coalesceRow,here] at before
          refine ⟨before,fun id seen => ?_⟩
          have other : key ≠ id := by rintro rfl; exact here seen
          simpa [Table.lookup,other] using others id seen
      · rintro ⟨before,others⟩
        constructor
        · by_cases here : watched ids key = true
          · cases value with
            | none => exact absurd (by simp [Table.lookup]) (others key here)
            | some row => simpa [coalesceRow,here] using before
          · simpa [coalesceRow,here] using before
        · intro id seen
          by_cases same : key = id
          · subst same; simp [absent]
          · simpa [Table.lookup,same] using others id seen
    · intro id seen
      rw [changes id seen]
      by_cases same : key = id
      · subst same
        cases value <;> simp [absent,Table.lookup,coalesceRow,seen]
      · have kept : (coalesceRow ids seq read (key,value)).changes.get? id = read.changes.get? id := by
          cases value <;> by_cases here : watched ids key = true <;>
            simp [coalesceRow,here,Ne.symm same]
        simp [Table.lookup,same,kept]

private theorem batch_read (ids : Option (List String)) (read : Coalesced) (batch : WhereBatch) :
    ((coalesce ids read batch).safe = true ↔ read.safe = true ∧ batch.plain ids) ∧
    ∀ id, watched ids id = true → (coalesce ids read batch).changes.get? id =
      match batch.entries.get? id with
      | some (some row) => some ⟨batch.seq,row⟩
      | _ => read.changes.get? id := by
  obtain ⟨safe,changes⟩ := rows_read ids batch.seq batch.entries.rows batch.entries.sorted
    { read with safe := read.safe && !batch.allAgents }
  refine ⟨?_,changes⟩
  unfold coalesce
  rw [safe]
  simp only [Bool.and_eq_true,Bool.not_eq_true',WhereBatch.plain,Table.get?]
  tauto

private theorem batches_read (ids : Option (List String)) (batches : List WhereBatch) (safe : Bool) :
    ((batches.foldl (coalesce ids) ⟨safe,∅⟩).safe = true ↔
      safe = true ∧ ∀ batch ∈ batches, batch.plain ids) ∧
    ∀ id, watched ids id = true →
      (batches.foldl (coalesce ids) ⟨safe,∅⟩).changes.get? id = latest batches id := by
  induction batches using List.reverseRecOn with
  | nil => simp [latest]
  | append_singleton batches batch ih =>
    obtain ⟨safe_batch,changes_batch⟩ := batch_read ids (batches.foldl (coalesce ids) ⟨safe,∅⟩) batch
    simp only [List.foldl_append,List.foldl_cons,List.foldl_nil]
    constructor
    · rw [safe_batch,ih.1]
      simp only [List.mem_append,List.mem_singleton]
      constructor
      · rintro ⟨⟨before,others⟩,here⟩
        refine ⟨before,fun found inside => ?_⟩
        obtain inside | rfl := inside
        · exact others found inside
        · exact here
      · rintro ⟨before,every⟩
        exact ⟨⟨before,fun found inside => every found (.inl inside)⟩,every batch (.inr rfl)⟩
    · intro id seen
      rw [changes_batch id seen,ih.2 id seen]
      simp [latest]

/-- Without a resync in between, the newest row past a cursor is the last word. -/
theorem latest_lastWord {log : List WhereBatch} (ordered : log.Pairwise fun a b => a.seq < b.seq)
    {ids : Option (List String)} {seq : Nat} {id : String} (seen : watched ids id = true)
    (plain : ∀ batch ∈ log, seq < batch.seq → batch.plain ids) :
    match latest (log.filter fun batch => decide (seq < batch.seq)) id with
    | some entry => lastWord log id = some (entry.version,some entry.row) ∧ seq < entry.version
    | none => ∀ last word, lastWord log id = some (last,word) → last ≤ seq := by
  induction log using List.reverseRecOn with
  | nil => intro last word absurd; cases absurd
  | append_singleton log batch ih =>
    rw [List.pairwise_append] at ordered
    have before := ih ordered.1 fun found inside => plain found (by simp [inside])
    by_cases past : seq < batch.seq
    · obtain ⟨several,rows⟩ := plain batch (by simp) past
      have row := rows id seen
      simp only [List.filter_append,List.filter_cons,List.filter_nil,past,decide_true,if_true]
      have step : latest (log.filter (fun batch => decide (seq < batch.seq)) ++ [batch]) id =
          match batch.entries.get? id with
          | some (some row) => some ⟨batch.seq,row⟩
          | _ => latest (log.filter fun batch => decide (seq < batch.seq)) id := by simp [latest]
      rw [step,lastWord_append]
      cases found : batch.entries.get? id with
      | none => simpa [WhereBatch.mentions,several,Table.has,found] using before
      | some value =>
        cases value with
        | none => exact absurd found row
        | some value =>
          simp [WhereBatch.mentions,WhereBatch.word,several,Table.has,found,past]
    · have none_past : log.filter (fun batch => decide (seq < batch.seq)) = [] := by
        rw [List.filter_eq_nil_iff]
        intro found inside
        have := ordered.2.2 found inside batch (by simp)
        simp only [decide_eq_true_eq]
        omega
      simp only [List.filter_append,none_past,List.filter_cons,List.filter_nil,past,decide_false] at before ⊢
      intro last word found
      rw [lastWord_append] at found
      split at found
      next => cases found; omega
      next => exact before last word found

/-- What the read under the lock gives: nothing is left out silently. -/
theorem Recorded.read {history : WhereHistory} {log : List WhereBatch} (recorded : Recorded history log)
    {incarnation : String} {cursor : Option Cursor} {ids : Option (List String)}
    {changes : Table String WhereEntry}
    (given : changesSince incarnation history cursor ids = some changes) :
    ∃ c, cursor = some c ∧ c.incarnation = incarnation ∧ c.seq ≤ history.seq ∧
      resumable incarnation history cursor = true ∧
      (∀ batch ∈ log, c.seq < batch.seq → batch.plain ids) ∧
      ∀ id, watched ids id = true →
        match changes.get? id with
        | some entry => lastWord log id = some (entry.version,some entry.row) ∧ c.seq < entry.version
        | none => ∀ last word, lastWord log id = some (last,word) → last ≤ c.seq := by
  simp only [changesSince] at given
  obtain ⟨safe,rows⟩ := batches_read ids (later history cursor) (resumable incarnation history cursor)
  split at given
  next sent =>
    cases given
    obtain ⟨resumes,plain⟩ := safe.mp sent
    obtain ⟨c,rfl,own,known,all⟩ := recorded.later_eq resumes
    have every : ∀ batch ∈ log, c.seq < batch.seq → batch.plain ids := by
      intro batch inside past
      refine plain batch ?_
      rw [all]
      exact List.mem_filter.mpr ⟨inside,by simpa using past⟩
    refine ⟨c,rfl,own,known,resumes,every,fun id seen => ?_⟩
    rw [rows id seen,all]
    exact latest_lastWord recorded.ordered seen every
  next => cases given

/-- A cursor that stands at the newest batch is answered with no notice. -/
theorem Recorded.nothing_new {history : WhereHistory} {log : List WhereBatch}
    (recorded : Recorded history log) (incarnation : String) (ids : Option (List String)) :
    changesSince incarnation history (some ⟨incarnation,history.seq⟩) ids = some ∅ := by
  have old : ∀ batch ∈ history.batches, batch.seq ≤ history.seq := by
    obtain ⟨evicted,split⟩ := recorded.suffix
    intro batch inside
    exact (recorded.bounded (by rw [split]; simp [inside])).2
  have resumes : resumable incarnation history (some ⟨incarnation,history.seq⟩) = true := by
    cases batches : history.batches with
    | nil => simp [resumable,batches]
    | cons first rest =>
      have := old first (by simp [batches])
      simp only [resumable,batches,Option.any_some,beq_self_eq_true,le_refl,decide_true,Bool.and_self,
        List.head?_cons,Option.all_some,Bool.true_and,decide_eq_true_eq]
      omega
  have none_later : later history (some ⟨incarnation,history.seq⟩) = [] := by
    simp only [later,List.filter_eq_nil_iff,decide_eq_true_eq]
    intro batch inside
    exact Nat.not_lt.mpr (old batch inside)
  simp [changesSince,none_later,resumes]

end Entorhinal.Where
