import Entorhinal.ApprovalsLaw
import Entorhinal.Avatars

/-! What a batch of avatars writes, whatever else is written in between, and that it resumes. -/
namespace Entorhinal.Avatars

open Approvals (if_refused validAgentId)

section Writes
variable {digest : AvatarManifestPlan → List Char} {store next : Store} {plan : AvatarManifestPlan}

theorem cached_get {op key : String} {reply : Reply} (found : store.keys.get? key = some (op,some reply)) :
    cached store op (some key) = .ok (some reply) := by
  unfold cached
  rw [Option.bind_some,found]
  exact if_neg (not_not.mpr rfl)

theorem cached_free {op key : String} (free : store.keys.get? key = none) : cached store op (some key) = .ok none := by
  unfold cached
  rw [Option.bind_some,free]

theorem cached_some {op : String} {key : Option String} {reply : Reply} (ok : cached store op key = .ok (some reply)) :
    ∃ k, key = some k ∧ store.keys.get? k = some (op,some reply) := by
  unfold cached at ok
  split at ok
  next => cases ok
  next stored found is =>
    obtain ⟨k,some_,there⟩ := Option.bind_eq_some_iff.mp is
    obtain ⟨same,ok⟩ := if_refused ok
    cases ok
    exact ⟨k,some_,not_not.mp same ▸ there⟩

theorem loadRow_get {id : String} {row : AgentRow} (found : loadRow store id = some row) : store.agents.get? id = some row := by
  unfold loadRow at found
  split_ifs at found
  exact found

theorem loadRow_id {id : String} {row : AgentRow} (found : loadRow store id = some row) : row.agentId = id :=
  store.named id row (loadRow_get found)

/-- An agent of the plan that is not written under its key yet. -/
def Unwritten (store : Store) (planned : Planned) : Prop :=
  (∀ agent, planned.state ≠ .written agent) ∧ ∀ reply, cached store SET_AVATAR planned.key ≠ .ok (some reply)

theorem checkRow_ok {expected : Planned} (ok : checkRow store expected = .ok ()) (unwritten : Unwritten store expected) :
    loadRow store expected.entry.agentId = expected.row := by
  unfold checkRow at ok
  split at ok
  next agent is => exact absurd is (unwritten.1 agent)
  next =>
    obtain ⟨reply,found,ok⟩ := bind_ok ok
    cases reply with
    | some reply => exact absurd found (unwritten.2 reply)
    | none =>
      rw [Option.isSome_none,if_neg Bool.false_ne_true] at ok
      exact not_not.mp (if_refused ok).1

theorem checkRows_ok {rows : List Planned} (ok : checkRows store rows = .ok ()) :
    ∀ expected ∈ rows, Unwritten store expected → loadRow store expected.entry.agentId = expected.row := by
  induction rows with
  | nil => exact fun _ member => absurd member List.not_mem_nil
  | cons expected rest ih =>
    obtain ⟨_,first,ok⟩ := bind_ok ok
    exact List.forall_mem_cons.mpr ⟨checkRow_ok first,ih ok⟩

/-- An entry written under an approval: of the plan it names, where each agent not yet written is as
planned, and its own is written. -/
structure Wrote (digest : AvatarManifestPlan → List Char) (store : Store) (plan : AvatarManifestPlan) (index : Nat)
    (approval : List Char) (next : Store) (planned : Planned) (row : AgentRow) : Prop where
  entry : plan.rows[index]? = some planned
  pending : planned.state = .pending
  planned_ : planned.row = some row
  approved : summary digest plan = .ok approval
  unchanged : ∀ expected ∈ plan.rows, Unwritten store expected → loadRow store expected.entry.agentId = expected.row
  unwritten : Unwritten store planned
  free : ∀ key ∈ planned.key, store.keys.get? key = none
  written : ∃ now reply, next = store.commit planned.key (amended row planned.entry now) reply

theorem writeEntry_ok {settled : Except AgentMutationError Unit} {planned : Planned} {now : Int} {found : Option AgentRow}
    {reply : Reply} (ok : writeEntry store settled planned now found = .ok (next,reply)) :
    ∃ row, found = some row ∧ (∀ key ∈ planned.key, store.keys.get? key = none) ∧
      next = store.commit planned.key (amended row planned.entry now) reply := by
  unfold writeEntry at ok
  split at ok
  next => cases ok
  next row =>
    obtain ⟨_,ok⟩ := if_refused ok
    obtain ⟨free,ok⟩ := if_refused ok
    obtain ⟨_,_,ok⟩ := bind_ok ok
    cases ok
    refine ⟨row,rfl,?_,rfl⟩
    intro key is
    rw [is,Option.any_some,Table.has,Option.isSome_iff_ne_none,not_not] at free
    exact free

theorem apply_ok {index : Nat} {approval : List Char} {now : Int} {settled : Except AgentMutationError Unit} {reply : Reply}
    (ok : applyAvatarManifestEntry digest store plan index approval now settled = .ok (next,reply)) :
    (next = store ∧ ∃ planned, plan.rows[index]? = some planned ∧ cached store SET_AVATAR planned.key = .ok (some reply)) ∨
      ∃ planned row, Wrote digest store plan index approval next planned row := by
  unfold applyAvatarManifestEntry at ok
  split at ok
  next => cases ok
  next planned is =>
    obtain ⟨entry,pending⟩ := Option.filter_eq_some_iff.mp is
    obtain ⟨found,lookup,ok⟩ := bind_ok ok
    cases found with
    | some reply' =>
      cases ok
      exact .inl ⟨rfl,planned,entry,lookup⟩
    | none =>
      obtain ⟨_,_,ok⟩ := bind_ok ok
      obtain ⟨text,shown,ok⟩ := bind_ok ok
      obtain ⟨same,ok⟩ := if_refused ok
      obtain ⟨_,checked,ok⟩ := bind_ok ok
      obtain ⟨row,is,free,written⟩ := writeEntry_ok ok
      have waits := of_decide_eq_true pending
      refine .inr ⟨planned,row,entry,waits,is,shown.trans (congrArg Except.ok (not_not.mp same)),
        checkRows_ok checked,⟨fun agent is => ?_,fun reply is => ?_⟩,free,now,reply,written⟩
      · rw [waits] at is
        cases is
      · rw [lookup] at is
        cases is

theorem Wrote.before {index : Nat} {approval : List Char} {planned : Planned} {row : AgentRow}
    (wrote : Wrote digest store plan index approval next planned row) :
    loadRow store planned.entry.agentId = some row :=
  (wrote.unchanged planned (List.mem_of_getElem? wrote.entry) wrote.unwritten).trans wrote.planned_

theorem Wrote.agents {index : Nat} {approval : List Char} {planned : Planned} {row : AgentRow}
    (wrote : Wrote digest store plan index approval next planned row) (id : String) :
    ∃ now, next.agents.get? id = if id = planned.entry.agentId then some (amended row planned.entry now) else store.agents.get? id := by
  obtain ⟨now,reply,rfl⟩ := wrote.written
  refine ⟨now,?_⟩
  rw [← loadRow_id wrote.before]
  exact Table.get?_insert _ _ _ _

theorem Wrote.keys {index : Nat} {approval : List Char} {planned : Planned} {row : AgentRow}
    (wrote : Wrote digest store plan index approval next planned row) (key : String) :
    ∃ reply, next.keys.get? key = if some key = planned.key then some (SET_AVATAR,some reply) else store.keys.get? key := by
  obtain ⟨now,reply,rfl⟩ := wrote.written
  refine ⟨reply,?_⟩
  unfold Store.commit
  cases planned.key with
  | none => rfl
  | some written => simp only [Table.get?_insert,Option.some.injEq]

end Writes

section Plans
variable {digest : AvatarManifestPlan → List Char} {plain : Char → Bool} {store later : Store} {batchKey : Option String}
  {replace : Bool} {plan_ : AvatarManifestPlan}

/-- What a plan without problems has of an entry: its reply under its key, or its live agent. -/
inductive EntryPlanned (store : Store) (replace : Bool) (key : Option String) (entry : ManifestEntry) : Planned → Prop
  | written (reply : Reply) (found : cached store SET_AVATAR key = .ok (some reply)) :
    EntryPlanned store replace key entry ⟨none,entry,key,.written reply.agent⟩
  | live (row : AgentRow) (free : cached store SET_AVATAR key = .ok none) (found : loadRow store entry.agentId = some row)
    (lives : row.status = "live") :
    EntryPlanned store replace key entry ⟨some row,entry,key,stateOf replace row entry⟩

theorem EntryPlanned.of {key : Option String} {entry : ManifestEntry} {planned : Planned}
    (is : EntryPlanned store replace key entry planned) : planned.entry = entry ∧ planned.key = key := by
  cases is <;> exact ⟨rfl,rfl⟩

theorem lookedOf_clean {key : Option String} {entry : ManifestEntry} {early : List String} {reply : Option Reply}
    (lookup : cached store SET_AVATAR key = .ok reply) (clean : (lookedOf store replace key entry early reply).problems = []) :
    early = [] ∧ ∃ planned, (lookedOf store replace key entry early reply).row = some planned ∧
      EntryPlanned store replace key entry planned := by
  cases reply with
  | some reply => exact ⟨clean,_,rfl,.written reply lookup⟩
  | none =>
    unfold lookedOf at clean ⊢
    dsimp only at clean ⊢
    split at clean
    next row is =>
      obtain ⟨found,lives⟩ := Option.filter_eq_some_iff.mp is
      obtain ⟨early_,_⟩ := List.append_eq_nil_iff.mp clean
      exact ⟨(List.append_eq_nil_iff.mp early_).1,_,rfl,.live row lookup found (beq_iff_eq.mp lives)⟩
    next => exact absurd (List.append_eq_nil_iff.mp clean).2 (List.cons_ne_nil _ _)

theorem earlyProblems_clean {seen : List String} {entry : ManifestEntry} (clean : earlyProblems seen entry = []) :
    entry.agentId ∉ seen ∧ validateAgentAvatar entry.avatarGenome entry.avatarType = none := by
  obtain ⟨fresh,valid⟩ := List.append_eq_nil_iff.mp clean
  constructor
  · intro among
    rw [if_pos among] at fresh
    cases fresh
  · cases is : validateAgentAvatar entry.avatarGenome entry.avatarType with
    | none => rfl
    | some text =>
      rw [is] at valid
      cases valid

/-- The entries of a manifest that is planned without a problem. -/
structure WellFormed (seen : List String) (entries : List ManifestEntry) : Prop where
  distinct : (entries.map ManifestEntry.agentId).Nodup
  fresh : ∀ entry ∈ entries, entry.agentId ∉ seen
  valid : ∀ entry ∈ entries, validateAgentAvatar entry.avatarGenome entry.avatarType = none

theorem planEntries_clean {seen : List String} {entries : List ManifestEntry} {looked : List Looked}
    (ok : planEntries store replace batchKey seen entries = .ok looked) (clean : looked.flatMap Looked.problems = []) :
    WellFormed seen entries ∧
      (∀ planned ∈ looked.filterMap Looked.row, ∃ entry ∈ entries,
        EntryPlanned store replace (keyOf batchKey entry.agentId) entry planned) ∧
      ∀ entry ∈ entries, ∃ planned ∈ looked.filterMap Looked.row,
        EntryPlanned store replace (keyOf batchKey entry.agentId) entry planned := by
  induction entries generalizing seen looked with
  | nil =>
    cases ok
    exact ⟨⟨List.nodup_nil,fun _ member => absurd member List.not_mem_nil,fun _ member => absurd member List.not_mem_nil⟩,
      fun _ member => absurd member List.not_mem_nil,fun _ member => absurd member List.not_mem_nil⟩
  | cons entry rest ih =>
    obtain ⟨reply,lookup,ok⟩ := bind_ok ok
    obtain ⟨others,more,ok⟩ := bind_ok ok
    cases ok
    rw [List.flatMap_cons,List.append_eq_nil_iff] at clean
    obtain ⟨early,planned,is,good⟩ := lookedOf_clean lookup clean.1
    obtain ⟨fresh,valid⟩ := earlyProblems_clean early
    obtain ⟨formed,sound,all⟩ := ih more clean.2
    rw [List.filterMap_cons_some is]
    refine ⟨⟨?_,?_,List.forall_mem_cons.mpr ⟨valid,formed.valid⟩⟩,?_,?_⟩
    · rw [List.map_cons,List.nodup_cons]
      refine ⟨?_,formed.distinct⟩
      intro again
      obtain ⟨other,among,same⟩ := List.mem_map.mp again
      exact formed.fresh other among (same ▸ List.mem_cons_self)
    · exact List.forall_mem_cons.mpr ⟨fresh,fun other among seen_ => formed.fresh other among (List.mem_cons_of_mem _ seen_)⟩
    · refine List.forall_mem_cons.mpr ⟨⟨entry,List.mem_cons_self,good⟩,fun other among => ?_⟩
      obtain ⟨source,member,planned_⟩ := sound other among
      exact ⟨source,List.mem_cons_of_mem _ member,planned_⟩
    · refine List.forall_mem_cons.mpr ⟨⟨planned,List.mem_cons_self,good⟩,fun other among => ?_⟩
      obtain ⟨planned',member,planned_⟩ := all other among
      exact ⟨planned',List.mem_cons_of_mem _ member,planned_⟩

/-- An entry with nothing left to write: its reply is stored, or it is skipped. -/
def Settled (store : Store) (replace : Bool) (key : Option String) (entry : ManifestEntry) : Prop :=
  (∃ reply, cached store SET_AVATAR key = .ok (some reply)) ∨
    (cached store SET_AVATAR key = .ok none ∧ ∃ row, loadRow store entry.agentId = some row ∧ row.status = "live" ∧
      stateOf replace row entry = .skipped)

theorem skipped_relabels {row : AgentRow} {entry : ManifestEntry} (skipped : stateOf replace row entry = .skipped) :
    relabels replace row entry = false := by
  unfold stateOf at skipped
  unfold relabels
  split_ifs at skipped with done
  rcases Bool.or_eq_true_iff.mp done with applied | kept
  · rw [applied,Bool.not_true,Bool.and_false,Bool.false_and]
  · rw [Bool.and_eq_true,Bool.not_eq_true'] at kept
    rw [kept.1,Bool.false_and,Bool.false_and]

theorem settled_looked {key : Option String} {entry : ManifestEntry} (settled : Settled store replace key entry) :
    ∃ reply, cached store SET_AVATAR key = .ok reply ∧ ∃ planned, (lookedOf store replace key entry [] reply).row = some planned ∧
      (lookedOf store replace key entry [] reply).problems = [] ∧ planned.isPending = false ∧ planned.entry = entry := by
  rcases settled with ⟨reply,found⟩ | ⟨free,row,found,lives,skipped⟩
  · exact ⟨some reply,found,_,rfl,rfl,rfl,rfl⟩
  · have live : (loadRow store entry.agentId).filter (fun row => row.status == "live") = some row := by
      rw [found,Option.filter_some,if_pos (beq_iff_eq.mpr lives)]
    refine ⟨none,free,⟨some row,entry,key,.skipped⟩,?_,?_,rfl,rfl⟩
    · unfold lookedOf
      dsimp only
      rw [live]
      exact congrArg (fun state => some (Planned.mk (some row) entry key state)) skipped
    · unfold lookedOf
      dsimp only
      rw [live]
      dsimp only [liveLooked]
      rw [skipped_relabels skipped,skipped]
      rfl

theorem planEntries_settled {seen : List String} {entries : List ManifestEntry} (formed : WellFormed seen entries)
    (settled : ∀ entry ∈ entries, Settled store replace (keyOf batchKey entry.agentId) entry) :
    ∃ looked, planEntries store replace batchKey seen entries = .ok looked ∧ looked.flatMap Looked.problems = [] ∧
      ∀ planned ∈ looked.filterMap Looked.row, planned.isPending = false ∧ planned.entry ∈ entries := by
  induction entries generalizing seen with
  | nil => exact ⟨[],rfl,rfl,fun _ member => absurd member List.not_mem_nil⟩
  | cons entry rest ih =>
    obtain ⟨first,others⟩ := List.forall_mem_cons.mp settled
    obtain ⟨fresh,later_⟩ := List.forall_mem_cons.mp formed.fresh
    obtain ⟨valid,valids⟩ := List.forall_mem_cons.mp formed.valid
    obtain ⟨out,distinct⟩ := List.nodup_cons.mp formed.distinct
    have rest_ : WellFormed (entry.agentId :: seen) rest := by
      refine ⟨distinct,fun other among again => ?_,valids⟩
      rcases List.mem_cons.mp again with same | before
      · exact out (List.mem_map.mpr ⟨other,among,same⟩)
      · exact later_ other among before
    obtain ⟨looked,planned,clean,done⟩ := ih rest_ others
    obtain ⟨reply,lookup,row,is,quiet,waits,of⟩ := settled_looked first
    have early : earlyProblems seen entry = [] := by
      rw [earlyProblems,if_neg fresh,valid]
      rfl
    refine ⟨lookedOf store replace (keyOf batchKey entry.agentId) entry [] reply :: looked,?_,?_,?_⟩
    · rw [planEntries,lookup,early]
      change (planEntries store replace batchKey (entry.agentId :: seen) rest >>= fun others => _) = _
      rw [planned]
      rfl
    · rw [List.flatMap_cons,quiet,clean]
      rfl
    · rw [List.filterMap_cons_some is]
      refine List.forall_mem_cons.mpr ⟨⟨waits,of ▸ List.mem_cons_self⟩,fun other among => ?_⟩
      exact ⟨(done other among).1,List.mem_cons_of_mem _ (done other among).2⟩

theorem problemsOf_clean {entries : List ManifestEntry} {looked : List Looked} :
    problemsOf plain entries looked = [] ↔ (entries ≠ [] ∧ (entries.map ManifestEntry.avatarType).dedup.length ≤ 1) ∧
      looked.flatMap Looked.problems = [] := by
  unfold problemsOf
  dsimp only
  rw [List.append_eq_nil_iff,List.append_eq_nil_iff]
  constructor
  · rintro ⟨⟨some_,clean⟩,types⟩
    refine ⟨⟨?_,?_⟩,clean⟩
    · intro none_
      rw [if_pos none_] at some_
      cases some_
    · by_contra many
      rw [if_pos (not_le.mp many)] at types
      cases types
  · rintro ⟨⟨some_,types⟩,clean⟩
    exact ⟨⟨if_neg some_,clean⟩,if_neg (not_lt.mpr types)⟩

theorem mem_sortedRows {looked : List Looked} {planned : Planned} :
    planned ∈ sortedRows looked ↔ planned ∈ looked.filterMap Looked.row :=
  (List.perm_insertionSort _ _).mem_iff

/-- A plan, with what it found of each entry. -/
structure PlannedFrom (store : Store) (request : Request) (batchKey : Option String) (plan_ : AvatarManifestPlan) : Prop where
  cutover : store.cutover = true
  some_ : request.entries ≠ []
  types : (request.entries.map ManifestEntry.avatarType).dedup.length ≤ 1
  formed : WellFormed [] request.entries
  sound : ∀ planned ∈ plan_.rows, ∃ entry ∈ request.entries,
    EntryPlanned store request.replace (keyOf batchKey entry.agentId) entry planned
  all : ∀ entry ∈ request.entries, ∃ planned ∈ plan_.rows,
    EntryPlanned store request.replace (keyOf batchKey entry.agentId) entry planned

theorem requireCutover_ok (ok : requireCutover store = .ok ()) : store.cutover = true := by
  unfold requireCutover at ok
  split_ifs at ok with cut
  · exact cut
  · cases ok

theorem plan_from {request : Request} {current : Int} (ok : plan digest plain store request batchKey current = .ok plan_) :
    PlannedFrom store request batchKey plan_ := by
  obtain ⟨_,cut,ok⟩ := bind_ok ok
  obtain ⟨looked,found,ok⟩ := bind_ok ok
  by_cases clean : problemsOf plain request.entries looked = []
  · rw [if_neg (not_not.mpr clean)] at ok
    obtain ⟨_,_,ok⟩ := bind_ok ok
    cases ok
    obtain ⟨⟨some_,types⟩,clean⟩ := problemsOf_clean.mp clean
    obtain ⟨formed,sound,all⟩ := planEntries_clean found clean
    refine ⟨requireCutover_ok cut,some_,types,formed,fun planned member => sound planned (mem_sortedRows.mp member),?_⟩
    intro entry member
    obtain ⟨planned,among,is⟩ := all entry member
    exact ⟨planned,mem_sortedRows.mpr among,is⟩
  · rw [if_pos clean] at ok
    cases ok

theorem pending_none {plan_ : AvatarManifestPlan} (done : ∀ planned ∈ plan_.rows, planned.isPending = false) :
    plan_.pending = [] := by
  refine List.filter_eq_nil_iff.mpr fun i _ pending => ?_
  obtain ⟨planned,there,waits⟩ := (Option.any_eq_true _ _).mp pending
  rw [done planned (List.mem_of_getElem? there)] at waits
  cases waits

theorem type_short {entry : ManifestEntry} (valid : validateAgentAvatar entry.avatarGenome entry.avatarType = none) :
    entry.avatarType.toList.length ≤ 16 := by
  unfold validateAgentAvatar avatarLayoutHexChars at valid
  dsimp only at valid
  by_cases classic : entry.avatarType = "creature.classic"
  · rw [classic]
    decide
  · by_cases wild : entry.avatarType = "creature.wild"
    · rw [wild]
      decide
    · rw [if_neg classic,if_neg wild] at valid
      cases valid

/-- A plan with nothing left to write is shown by a short text. -/
theorem summary_done (hex : ∀ plan_, (digest plan_).length = 64) {entries : List ManifestEntry} (formed : WellFormed [] entries)
    (done : ∀ planned ∈ plan_.rows, planned.isPending = false ∧ planned.entry ∈ entries) :
    ∃ text, summary digest plan_ = .ok text := by
  have short : ((plan_.rows.head?.map fun p => p.entry.avatarType).getD "none").toList.length ≤ 16 := by
    cases is : plan_.rows with
    | nil => decide
    | cons planned rest =>
      rw [List.head?_cons,Option.map_some,Option.getD_some]
      exact type_short (formed.valid _ (done planned (is ▸ List.mem_cons_self)).2)
  unfold summary
  dsimp only
  rw [pending_none fun planned member => (done planned member).1]
  rw [if_neg]
  · exact ⟨_,rfl⟩
  · have opening : ("Apply avatars to ".toList ++ Nat.toDigits 10 ([] : List Nat).length ++ " agents (".toList).length = 27 := by decide
    have closing : "); plan ".toList.length = 8 := by decide
    rw [List.length_append,List.length_append,List.length_append,opening,closing,hex]
    simp only [Approvals.OPERATOR_SUMMARY_LIMIT]
    omega

theorem plan_settled (hex : ∀ plan_, (digest plan_).length = 64) {request : Request} (current : Int)
    (before : PlannedFrom store request batchKey plan_) (cutover : later.cutover = true)
    (settled : ∀ entry ∈ request.entries, Settled later request.replace (keyOf batchKey entry.agentId) entry) :
    ∃ again, plan digest plain later request batchKey current = .ok again ∧ again.pending = [] := by
  obtain ⟨looked,found,clean,done⟩ := planEntries_settled before.formed settled
  have rows : ∀ planned ∈ (planOf request looked current).rows, planned.isPending = false ∧ planned.entry ∈ request.entries :=
    fun planned member => done planned (mem_sortedRows.mp member)
  obtain ⟨text,shown⟩ := summary_done hex before.formed rows
  refine ⟨planOf request looked current,?_,pending_none fun planned member => (rows planned member).1⟩
  unfold plan
  rw [requireCutover,if_pos cutover]
  change (planEntries later request.replace batchKey [] request.entries >>= fun looked => _) = _
  rw [found]
  change (if problemsOf plain request.entries looked ≠ [] then _ else _) = _
  rw [if_neg (not_not.mpr (problemsOf_clean.mpr ⟨⟨before.some_,before.types⟩,clean⟩)),shown]
  rfl

end Plans

section Runs
variable (digest : AvatarManifestPlan → List Char) (plain : Char → Bool)

/-- A batch and what else is written, from a store on: the agents written under the batch's key, the
last first. A refused entry and a crash between entries leave the store as it is. -/
inductive Batch (batchKey : String) (start : Store) : List String → Store → Prop
  | start : Batch batchKey start [] start
  | entry {ids : List String} {store next planning : Store} {request : Request} {plan_ : AvatarManifestPlan} {index : Nat}
    {approval : List Char} {planned : Planned} {row : AgentRow} (before : Batch batchKey start ids store)
    (plans : planAvatarManifest digest plain planning request batchKey = .ok plan_)
    (wrote : Wrote digest store plan_ index approval next planned row) :
    Batch batchKey start (planned.entry.agentId :: ids) next
  | other {ids : List String} {store next : Store} (before : Batch batchKey start ids store)
    (kept : ∀ key row, store.keys.get? key = some row → next.keys.get? key = some row) : Batch batchKey start ids next

variable {digest plain} {batchKey : String} {start store next : Store} {request : Request} {plan_ : AvatarManifestPlan}

theorem planAvatarManifest_ok (ok : planAvatarManifest digest plain store request batchKey = .ok plan_) :
    PlannedFrom store request (some batchKey) plan_ := plan_from (if_refused ok).2

theorem Wrote.key {planning : Store} {index : Nat} {approval : List Char} {planned : Planned} {row : AgentRow}
    (wrote : Wrote digest store plan_ index approval next planned row)
    (plans : planAvatarManifest digest plain planning request batchKey = .ok plan_) :
    planned.key = some (batchKey ++ ":" ++ planned.entry.agentId) := by
  obtain ⟨entry,_,is⟩ := (planAvatarManifest_ok plans).sound planned (List.mem_of_getElem? wrote.entry)
  rw [is.of.2,is.of.1]
  rfl

/-- Each agent written has its reply under its key. -/
theorem Batch.stored {ids : List String} (batch : Batch digest plain batchKey start ids store) :
    ids.Nodup ∧ ∀ id ∈ ids, store.keys.get? (batchKey ++ ":" ++ id) ≠ none := by
  induction batch with
  | start => exact ⟨List.nodup_nil,fun _ member => absurd member List.not_mem_nil⟩
  | @entry ids store next planning request plan_ index approval planned row before plans wrote ih =>
    have key := wrote.key plans
    refine ⟨List.nodup_cons.mpr ⟨fun again => ih.2 _ again (wrote.free _ key),ih.1⟩,?_⟩
    intro id member
    obtain ⟨reply,is⟩ := wrote.keys (batchKey ++ ":" ++ id)
    rw [is]
    by_cases same : some (batchKey ++ ":" ++ id) = planned.key
    · rw [if_pos same]
      exact Option.some_ne_none _
    · rw [if_neg same]
      rcases List.mem_cons.mp member with rfl | earlier
      · exact absurd key.symm same
      · exact ih.2 id earlier
  | other before kept ih =>
    refine ⟨ih.1,fun id member gone => ?_⟩
    obtain ⟨row,is⟩ := Option.ne_none_iff_exists'.mp (ih.2 id member)
    rw [kept _ _ is] at gone
    cases gone

/-- No other write touches the manifest's agents or the keys they are written under. -/
structure Untouched (batchKey : String) (request : Request) (store next : Store) : Prop where
  cutover : store.cutover = true → next.cutover = true
  agents : ∀ entry ∈ request.entries, next.agents.get? entry.agentId = store.agents.get? entry.agentId
  keys : ∀ entry ∈ request.entries, next.keys.get? (batchKey ++ ":" ++ entry.agentId) =
    store.keys.get? (batchKey ++ ":" ++ entry.agentId)

variable (digest plain) in
/-- One manifest under one key, planned and approved any number of times, and writes of other agents. -/
inductive Resumed (batchKey : String) (request : Request) (start : Store) : Store → List AvatarManifestPlan → Prop
  | start : Resumed batchKey request start start []
  | plan {store : Store} {plans : List AvatarManifestPlan} {plan_ : AvatarManifestPlan}
    (before : Resumed batchKey request start store plans)
    (ok : planAvatarManifest digest plain store request batchKey = .ok plan_) :
    Resumed batchKey request start store (plan_ :: plans)
  | entry {store next : Store} {plans : List AvatarManifestPlan} {plan_ : AvatarManifestPlan} {index : Nat}
    {approval : List Char} {now : Int} {settled : Except AgentMutationError Unit} {reply : Reply}
    (before : Resumed batchKey request start store plans) (member : plan_ ∈ plans)
    (ok : applyAvatarManifestEntry digest store plan_ index approval now settled = .ok (next,reply)) :
    Resumed batchKey request start next plans
  | other {store next : Store} {plans : List AvatarManifestPlan} (before : Resumed batchKey request start store plans)
    (untouched : Untouched batchKey request store next) : Resumed batchKey request start next plans

/-- Where an entry stands: as at the start, or written under its key. -/
inductive Stands (batchKey : String) (replace : Bool) (start store : Store) (entry : ManifestEntry) : Prop
  | open_ (free : store.keys.get? (batchKey ++ ":" ++ entry.agentId) = none)
    (same : store.agents.get? entry.agentId = start.agents.get? entry.agentId)
  | written (reply : Reply) (row : AgentRow) (now : Int)
    (stored : store.keys.get? (batchKey ++ ":" ++ entry.agentId) = some (SET_AVATAR,some reply))
    (found : loadRow start entry.agentId = some row) (waited : stateOf replace row entry = .pending)
    (is : store.agents.get? entry.agentId = some (amended row entry now))

/-- What a plan says of an entry, of the store it was made from and of any later one. -/
inductive Holds (batchKey : String) (replace : Bool) (start store : Store) (entry : ManifestEntry) : Planned → Prop
  | written (reply : Reply) (agent : AgentValue)
    (stored : store.keys.get? (batchKey ++ ":" ++ entry.agentId) = some (SET_AVATAR,some reply)) :
    Holds batchKey replace start store entry ⟨none,entry,some (batchKey ++ ":" ++ entry.agentId),.written agent⟩
  | live (row : AgentRow) (found : loadRow start entry.agentId = some row) (lives : row.status = "live") :
    Holds batchKey replace start store entry
      ⟨some row,entry,some (batchKey ++ ":" ++ entry.agentId),stateOf replace row entry⟩

structure Kept (batchKey : String) (request : Request) (start store : Store) (plans : List AvatarManifestPlan) : Prop where
  stands : ∀ entry ∈ request.entries, Stands batchKey request.replace start store entry
  formed : plans ≠ [] → WellFormed [] request.entries
  cutover : plans ≠ [] → store.cutover = true
  holds : ∀ plan_ ∈ plans, (∀ planned ∈ plan_.rows, ∃ entry ∈ request.entries,
      Holds batchKey request.replace start store entry planned) ∧
    ∀ entry ∈ request.entries, ∃ planned ∈ plan_.rows, Holds batchKey request.replace start store entry planned

theorem loadRow_same {id : String} (same : store.agents.get? id = start.agents.get? id) : loadRow store id = loadRow start id := by
  rw [loadRow,loadRow,same]

theorem Stands.holds {entry : ManifestEntry} {replace : Bool} {planned : Planned}
    (stands : Stands batchKey replace start store entry)
    (is : EntryPlanned store replace (keyOf (some batchKey) entry.agentId) entry planned) :
    Holds batchKey replace start store entry planned := by
  cases is with
  | written reply found =>
    obtain ⟨k,is,stored⟩ := cached_some found
    cases is
    exact .written reply _ stored
  | live row free found lives =>
    cases stands with
    | open_ _ same => exact .live row ((loadRow_same same).symm.trans found) lives
    | written reply _ _ stored _ _ _ =>
      have there : cached store SET_AVATAR (keyOf (some batchKey) entry.agentId) = _ := cached_get stored
      rw [there] at free
      cases free

theorem Holds.later {entry : ManifestEntry} {replace : Bool} {planned : Planned}
    (kept : ∀ row, store.keys.get? (batchKey ++ ":" ++ entry.agentId) = some row →
      next.keys.get? (batchKey ++ ":" ++ entry.agentId) = some row)
    (holds : Holds batchKey replace start store entry planned) : Holds batchKey replace start next entry planned := by
  cases holds with
  | written reply agent stored => exact .written reply agent (kept _ stored)
  | live row found lives => exact .live row found lives

theorem Kept.step {plans : List AvatarManifestPlan} (kept : Kept batchKey request start store plans)
    (cutover : store.cutover = true → next.cutover = true)
    (stands : ∀ entry ∈ request.entries, Stands batchKey request.replace start next entry)
    (keys : ∀ entry ∈ request.entries, ∀ row, store.keys.get? (batchKey ++ ":" ++ entry.agentId) = some row →
      next.keys.get? (batchKey ++ ":" ++ entry.agentId) = some row) : Kept batchKey request start next plans := by
  refine ⟨stands,kept.formed,fun some_ => cutover (kept.cutover some_),fun plan_ member => ⟨?_,?_⟩⟩
  · intro planned among
    obtain ⟨entry,of,holds⟩ := (kept.holds plan_ member).1 planned among
    exact ⟨entry,of,holds.later (keys entry of)⟩
  · intro entry of
    obtain ⟨planned,among,holds⟩ := (kept.holds plan_ member).2 entry of
    exact ⟨planned,among,holds.later (keys entry of)⟩

theorem Kept.entry {plans : List AvatarManifestPlan} {index : Nat} {approval : List Char} {planned : Planned} {row : AgentRow}
    (kept : Kept batchKey request start store plans) (member : plan_ ∈ plans)
    (wrote : Wrote digest store plan_ index approval next planned row) : Kept batchKey request start next plans := by
  have formed := kept.formed (List.ne_nil_of_mem member)
  obtain ⟨entry,of,holds⟩ := (kept.holds plan_ member).1 planned (List.mem_of_getElem? wrote.entry)
  cases holds with
  | written reply agent stored => cases wrote.pending
  | live before found lives =>
    obtain rfl := Option.some.inj wrote.planned_
    have waited : stateOf request.replace before entry = .pending := wrote.pending
    have free : store.keys.get? (batchKey ++ ":" ++ entry.agentId) = none := wrote.free _ rfl
    have apart : ∀ other ∈ request.entries, other ≠ entry → other.agentId ≠ entry.agentId := fun other among different same =>
      different (List.inj_on_of_nodup_map formed.distinct among of same)
    have keyApart : ∀ other ∈ request.entries, other ≠ entry →
        some (batchKey ++ ":" ++ other.agentId) ≠ some (batchKey ++ ":" ++ entry.agentId) := fun other among different same => by
      refine apart other among different ?_
      have texts := congrArg String.toList (Option.some.inj same)
      simp only [String.toList_append] at texts
      exact String.toList_inj.mp (List.append_cancel_left texts)
    refine kept.step ?_ ?_ ?_
    · obtain ⟨_,_,rfl⟩ := wrote.written
      exact id
    · intro other among
      by_cases same : other = entry
      · subst same
        obtain ⟨now,agents⟩ := wrote.agents other.agentId
        obtain ⟨reply,keys⟩ := wrote.keys (batchKey ++ ":" ++ other.agentId)
        exact .written reply before now (keys.trans (if_pos rfl)) found waited (agents.trans (if_pos rfl))
      · obtain ⟨_,agents⟩ := wrote.agents other.agentId
        obtain ⟨_,keys⟩ := wrote.keys (batchKey ++ ":" ++ other.agentId)
        rw [if_neg (apart other among same)] at agents
        rw [if_neg (keyApart other among same)] at keys
        cases kept.stands other among with
        | open_ free same => exact .open_ (keys.trans free) (agents.trans same)
        | written reply row now stored found waited is =>
          exact .written reply row now (keys.trans stored) found waited (agents.trans is)
    · intro other among row stored
      obtain ⟨_,keys⟩ := wrote.keys (batchKey ++ ":" ++ other.agentId)
      by_cases same : other = entry
      · rw [same,free] at stored
        cases stored
      · exact keys.trans ((if_neg (keyApart other among same)).trans stored)

theorem Kept.plan {plans : List AvatarManifestPlan} (kept : Kept batchKey request start store plans)
    (made : PlannedFrom store request (some batchKey) plan_) : Kept batchKey request start store (plan_ :: plans) := by
  refine ⟨kept.stands,fun _ => made.formed,fun _ => made.cutover,List.forall_mem_cons.mpr ⟨⟨?_,?_⟩,kept.holds⟩⟩
  · intro planned among
    obtain ⟨entry,of,is⟩ := made.sound planned among
    exact ⟨entry,of,(kept.stands entry of).holds is⟩
  · intro entry of
    obtain ⟨planned,among,is⟩ := made.all entry of
    exact ⟨planned,among,(kept.stands entry of).holds is⟩

/-- What a resumed batch keeps. -/
theorem Resumed.kept {plans : List AvatarManifestPlan} (resumed : Resumed digest plain batchKey request start store plans)
    (unused : ∀ entry ∈ request.entries, start.keys.get? (batchKey ++ ":" ++ entry.agentId) = none) :
    Kept batchKey request start store plans := by
  induction resumed with
  | start =>
    exact ⟨fun entry of => .open_ (unused entry of) rfl,fun some_ => absurd rfl some_,fun some_ => absurd rfl some_,
      fun _ member => absurd member List.not_mem_nil⟩
  | plan before ok ih => exact ih.plan (planAvatarManifest_ok ok)
  | entry before member ok ih =>
    rcases apply_ok ok with ⟨rfl,_⟩ | ⟨planned,row,wrote⟩
    · exact ih
    · exact ih.entry member wrote
  | other before untouched ih =>
    refine ih.step untouched.cutover (fun entry of => ?_) fun entry of row stored => (untouched.keys entry of).trans stored
    cases ih.stands entry of with
    | open_ free same => exact .open_ ((untouched.keys entry of).trans free) ((untouched.agents entry of).trans same)
    | written reply row now stored found waited is =>
      exact .written reply row now ((untouched.keys entry of).trans stored) found waited ((untouched.agents entry of).trans is)

/-- Every pending entry of a plan is written under its key. -/
def Finished (store : Store) (plan_ : AvatarManifestPlan) : Prop :=
  ∀ planned ∈ plan_.rows, planned.isPending = true → ∃ reply, cached store SET_AVATAR planned.key = .ok (some reply)

theorem Resumed.made {plans : List AvatarManifestPlan} (resumed : Resumed digest plain batchKey request start store plans)
    (member : plan_ ∈ plans) : ∃ planning, PlannedFrom planning request (some batchKey) plan_ := by
  induction resumed with
  | start => exact absurd member List.not_mem_nil
  | plan before ok ih =>
    rcases List.mem_cons.mp member with rfl | earlier
    · exact ⟨_,planAvatarManifest_ok ok⟩
    · exact ih earlier
  | entry before _ ok ih => exact ih member
  | other before untouched ih => exact ih member

theorem Kept.settled {plans : List AvatarManifestPlan} (kept : Kept batchKey request start store plans) (member : plan_ ∈ plans)
    (finished : Finished store plan_) :
    ∀ entry ∈ request.entries, Settled store request.replace (keyOf (some batchKey) entry.agentId) entry := by
  intro entry of
  obtain ⟨planned,among,holds⟩ := (kept.holds plan_ member).2 entry of
  cases holds with
  | written reply agent stored => exact .inl ⟨reply,cached_get stored⟩
  | live row found lives =>
    by_cases waits : stateOf request.replace row entry = .pending
    · exact .inl (finished _ among (decide_eq_true waits))
    · have skipped : stateOf request.replace row entry = .skipped := by
        unfold stateOf at waits ⊢
        split_ifs at waits ⊢ with done
        · rfl
        · exact absurd rfl waits
      cases kept.stands entry of with
      | open_ free same => exact .inr ⟨cached_free free,row,(loadRow_same same).trans found,lives,skipped⟩
      | written reply row' now stored found' waited is =>
        rw [found] at found'
        obtain rfl := Option.some.inj found'
        rw [skipped] at waited
        cases waited

theorem Kept.carried {plans : List AvatarManifestPlan} (kept : Kept batchKey request start store plans) {entry : ManifestEntry}
    (of : entry ∈ request.entries) {reply : Reply}
    (written : cached store SET_AVATAR (some (batchKey ++ ":" ++ entry.agentId)) = .ok (some reply)) :
    ∃ row, store.agents.get? entry.agentId = some row ∧ row.avatar = some entry.avatar := by
  cases kept.stands entry of with
  | open_ free same =>
    rw [cached_free free] at written
    cases written
  | written reply row now stored found waited is => exact ⟨_,is,rfl⟩

end Runs

section Approved
variable {digest : AvatarManifestPlan → List Char} {plain : Char → Bool}

/-- One text is of one hash. -/
theorem summary_digest (hex : ∀ plan_, (digest plan_).length = 64) {plan_ other : AvatarManifestPlan} {text : List Char}
    (one : summary digest plan_ = .ok text) (two : summary digest other = .ok text) : digest plan_ = digest other := by
  have same := Except.ok.inj ((if_refused one).2.trans (if_refused two).2.symm)
  exact List.append_inj_right' same ((hex _).trans (hex _).symm)

/-- Without `replace` an agent that had an avatar is not waited for. -/
theorem Wrote.bare {batchKey : String} {planning store next : Store} {request : Request} {plan_ : AvatarManifestPlan}
    {index : Nat} {approval : List Char} {planned : Planned} {row : AgentRow} (keep : request.replace = false)
    (plans : planAvatarManifest digest plain planning request batchKey = .ok plan_)
    (wrote : Wrote digest store plan_ index approval next planned row) :
    loadRow planning planned.entry.agentId = some row ∧ row.avatar = none := by
  obtain ⟨entry,_,is⟩ := (planAvatarManifest_ok plans).sound planned (List.mem_of_getElem? wrote.entry)
  cases is with
  | written reply found => cases wrote.pending
  | live before free found lives =>
    obtain rfl := Option.some.inj wrote.planned_
    refine ⟨found,?_⟩
    have waits : stateOf request.replace before entry = .pending := wrote.pending
    unfold stateOf at waits
    split_ifs at waits with done
    rw [keep,Bool.not_false,Bool.true_and,Bool.or_eq_true,not_or] at done
    exact Option.not_isSome_iff_eq_none.mp done.2

end Approved

namespace Seed

def printable (c : Char) : Bool := decide (' ' ≤ c)

def ada : AgentRow where
  agentId := "agent_00000001"
  name := "Ada"
  nameVersion := 1
  tag := "crew"
  labels := []
  role := "assistant"
  projectId := none
  workspaceId := none
  status := "live"
  mergedInto := none
  supervisorAgentId := none
  createdAtMs := 0
  terminalAtMs := none
  agentGeneration := 1
  nameNormalizationVersion := 1
  avatar := none
  githubIdentity := none
  requestKey := none
  updatedAtMs := 0

def store : Store where
  agents := (∅ : Table String AgentRow).insert "agent_00000001" ada
  keys := ∅
  head := 1
  cutover := true
  named := by
    intro id row there
    rw [Table.get?_insert] at there
    split_ifs at there with same
    · cases there
      exact same.symm
    · cases there

/-- The number of a plan's agents, as long as a hash. -/
def padded (plan_ : AvatarManifestPlan) : List Char := (Nat.toDigits 16 plan_.rows.length).take 64 |>.leftpad 64 '0'

theorem padded_length (plan_ : AvatarManifestPlan) : (padded plan_).length = 64 := by
  rw [padded,List.length_leftpad,List.length_take]
  omega

end Seed

end Entorhinal.Avatars
