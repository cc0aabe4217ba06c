import Entorhinal.DocumentHistory
import Entorhinal.LogOwn
import Entorhinal.JsonLaw

/-! Workspace documents over whole runs: the histories of every machine, and writers that
expected one revision. -/
namespace Entorhinal.Documents
open IdentityLog Registry Transition

section Entries
variable {ν : Type} {outside : Outside ν} {tables after other : Tables} {doc : WorkspaceDocument}

theorem rows_filter_same {κ ρ : Type} [LinearOrder κ] [DecidableEq ρ] (t : Table κ ρ) :
    t.rows.filter (fun r => decide (t.get? r.1 ≠ some r.2)) = [] := by
  refine List.filter_eq_nil_iff.mpr fun r member => ?_
  rw [decide_eq_true_eq,not_not]
  exact Table.mem_rows.mp member

theorem keys_filter_same {κ ρ : Type} [LinearOrder κ] {t t' : Table κ ρ} (more : ∀ key, t.has key = true → t'.has key = true) :
    t.keys.filter (fun key => !t'.has key) = [] := by
  refine List.filter_eq_nil_iff.mpr fun key member => ?_
  rw [more key (Table.mem_keys.mp member)]
  decide

/-- The entry of an accepted document is that document. -/
theorem delta_document (fresh : tables.documents.has doc.key = false) (workspaces : after.workspaces = tables.workspaces)
    (documents : after.documents = tables.documents.insert doc.key doc) : delta tables after = documentEntry doc := by
  have none_ : tables.documents.get? doc.key = none := Option.not_isSome_iff_eq_none.mp (Bool.eq_false_iff.mp fresh)
  have rows : (tables.documents.insert doc.key doc).rows.filter
      (fun r => decide (tables.documents.get? r.1 ≠ some r.2)) = [(doc.key,doc)] := by
    apply List.perm_singleton.mp
    have distinct : (tables.documents.insert doc.key doc).rows.Nodup :=
      (tables.documents.insert doc.key doc).sorted.imp fun less same => less.ne (congrArg Prod.fst same)
    refine (List.perm_ext_iff_of_nodup (distinct.filter _) (List.nodup_singleton _)).mpr fun r => ?_
    obtain ⟨key,row⟩ := r
    rw [List.mem_filter,Table.mem_rows,Table.get?_insert,decide_eq_true_eq,List.mem_singleton,Prod.mk.injEq]
    constructor
    · rintro ⟨there,new⟩
      split at there
      next same => exact ⟨same,(Option.some.inj there).symm⟩
      next => exact absurd there new
    · rintro ⟨rfl,rfl⟩
      exact ⟨if_pos rfl,by rw [none_]; nofun⟩
  unfold delta documentEntry
  rw [workspaces,documents,rows,rows_filter_same,keys_filter_same fun _ => id,
    keys_filter_same fun key has => by rw [Table.has_insert,has,Bool.or_true]]
  rfl

theorem validateRow_of (charter : validateText "charter" doc.charter CHARTER_LIMIT = .ok ())
    (document : validateText "document" doc.document DOCUMENT_LIMIT = .ok ()) (positive : 1 ≤ doc.revision)
    (hash : doc.sha256 = documentSha256 outside.sha256Hex doc.charter doc.document) (direct : doc.acceptedVia = "direct") :
    validateRow outside doc = .ok () := by
  unfold validateRow
  rw [charter,document]
  exact if_neg fun bad => bad.elim (fun low => by omega) fun rest => rest.elim (fun other => other hash) fun other =>
    other direct

theorem single_valid (row : validateRow outside doc = .ok ()) : validate outside (documentEntry doc) = .ok () := by
  show (validateRow outside doc >>= fun _ => .ok ()) = .ok ()
  rw [row]
  rfl

/-- A document that was planned passes the checks of an entry. -/
theorem planned_valid {req : SetWorkspaceDocumentRequest} {now : Int} {text : String}
    (kept : WellKept outside.sha256Hex tables) (planned : planDocument outside tables req now = .ok (doc,text)) :
    validate outside (documentEntry doc) = .ok () := by
  obtain ⟨_,charter,document,_,_,_,rfl⟩ := planDocument_ok planned
  obtain ⟨n,counted⟩ := kept.histories.counted req.workspaceId
  have positive : 1 ≤ current tables.documents req.workspaceId + 1 := by
    rw [current_eq counted]
    omega
  exact single_valid (validateRow_of charter document positive rfl rfl)

theorem kept_document {documents : DocumentTable} : keptDocuments documents (documentEntry doc) = documents := by
  ext1 key
  rw [keptDocuments,Table.get?_filter,Table.get?_filter]
  cases documents.get? key <;> simp [documentEntry,Option.filter]

/-- An entry of one valid document is applied wherever its workspace stands. -/
theorem restore_document (kept : WellKept outside.sha256Hex other)
    (valid : validate outside (documentEntry doc) = .ok ()) (known : other.workspaces.has doc.workspaceId = true) :
    ∃ after, restore outside other (documentEntry doc) = .ok after ∧ after.workspaces = other.workspaces ∧
      after.documents = other.documents.insert doc.key doc := by
  have same : keptDocuments other.documents (documentEntry doc) = other.documents := kept_document
  have names : (other.workspaces.insertAll (documentEntry doc).workspaces).filter
      (fun id _ => decide (id ∉ (documentEntry doc).goneWorkspaces)) = other.workspaces := by
    ext1 id
    rw [Table.get?_filter]
    have none_ : other.workspaces.insertAll (documentEntry doc).workspaces = other.workspaces := rfl
    rw [none_]
    cases other.workspaces.get? id <;> simp [documentEntry,Option.filter]
  have placed : (other.documents.insert doc.key doc).rows.all (fun r => other.workspaces.has r.2.workspaceId) = true := by
    refine List.all_eq_true.mpr fun r member => ?_
    have there := Table.mem_rows.mp (member : (r.1,r.2) ∈ _)
    rw [Table.get?_insert] at there
    split at there
    next => exact Option.some.inj there ▸ known
    next => exact kept.placed r.1 r.2 there
  refine ⟨{ other with documents := other.documents.insert doc.key doc },?_,rfl,rfl⟩
  unfold restore
  rw [valid]
  show (if _ then _ else _) = _
  rw [names,same]
  exact if_pos placed

theorem restored_known (done : restore outside other (documentEntry doc) = .ok after) {id : String}
    (has : after.workspaces.has id = true) : other.workspaces.has id = true := by
  unfold restore at done
  obtain ⟨_,_,done⟩ := bind_ok done
  dsimp only at done
  split at done
  next =>
    cases done
    obtain ⟨name,named⟩ := Table.has_iff.mp has
    rw [Table.get?_filter] at named
    exact Table.has_iff.mpr ⟨name,(Option.filter_eq_some_iff.mp named).1⟩
  next => cases done

theorem effect_here {row : JournalRow ν Op} {op : Op} {data : List UInt8} (here : row.change = .here op)
    (done : (documentRegistry outside).operate op tables = .shared after data) :
    (documentRegistry outside).effect tables row = after := by
  unfold IdentityLog.Registry.effect
  rw [here]
  dsimp only
  rw [done]

end Entries

section Conflict
variable {ν : Type} {outside : Outside ν} {tables : Tables} {req : SetWorkspaceDocumentRequest} {now : Int}

/-- What a request passes before its expected revision is looked at. -/
structure Checked (tables : Tables) (req : SetWorkspaceDocumentRequest) : Prop where
  some_ : req.requestKey ≠ ""
  fresh : tables.requestKeys.get? req.requestKey = none
  charter : validateText "charter" req.charter CHARTER_LIMIT = .ok ()
  document : validateText "document" req.document DOCUMENT_LIMIT = .ok ()
  known : tables.workspaces.has req.workspaceId = true

theorem Checked.conflict (checked : Checked tables req) (moved : req.expectedRevision ≠ current tables.documents req.workspaceId)
    (approved : Option String) :
    setWorkspaceDocument outside tables req now "direct" approved = .refused "revision_conflict" := by
  obtain ⟨name,named⟩ := Table.has_iff.mp checked.known
  have planned : planDocument outside tables req now = .error ⟨"revision_conflict","current revision is " ++
      toString (current tables.documents req.workspaceId)⟩ := by
    unfold planDocument requireKey
    rw [if_neg checked.some_,checked.charter,checked.document,named]
    exact if_pos moved
  unfold setWorkspaceDocument keyed
  rw [if_neg (not_not.mpr rfl),Option.bind_some,checked.fresh,planned]

/-- A write that expects another revision than the current one is never accepted. -/
theorem stale_refused (moved : req.expectedRevision ≠ current tables.documents req.workspaceId) (principal : String)
    (approved : Option String) (after : Tables) (data : List UInt8) :
    setWorkspaceDocument outside tables req now principal approved ≠ .shared after data := by
  intro done
  obtain ⟨_,_,planned,_⟩ := setWorkspaceDocument_shared done
  exact moved (planDocument_ok planned).2.2.2.2.1

end Conflict

section Runs
variable {ν : Type} {outside : Outside ν} {starts : ν → Tables} {w₀ w : World ν Tables Op} {m : ν}

/-- The tables of a machine after the first rows of its journal. -/
def tablesOf (outside : Outside ν) (starts : ν → Tables) (w : World ν Tables Op) (m : ν) (i : Nat) : Tables :=
  tablesAt (documentRegistry outside) (starts m) (w.machines m).store.journal i

/-- Every entry a machine took extends the histories it found. -/
def Careful (outside : Outside ν) (starts : ν → Tables) (w : World ν Tables Op) : Prop :=
  ∀ m (i : Nat) row, (w.machines m).store.journal[i]? = some row → RowExtends outside (tablesOf outside starts w m i) row

/-- The workspace stands at every state after the first one up to the other. -/
def Present (outside : Outside ν) (starts : ν → Tables) (w : World ν Tables Op) (m : ν) (workspaceId : String)
    (i j : Nat) : Prop :=
  ∀ k, i < k → k ≤ j → (tablesOf outside starts w m k).workspaces.has workspaceId = true

theorem step_kept (careful : Careful outside starts w) {i : Nat} (inside : i < (w.machines m).store.journal.length)
    (kept : WellKept outside.sha256Hex (tablesOf outside starts w m i)) :
    WellKept outside.sha256Hex (tablesOf outside starts w m (i + 1)) ∧
      Stays (tablesOf outside starts w m i) (tablesOf outside starts w m (i + 1)) := by
  have found := List.getElem?_eq_getElem inside
  have next : tablesOf outside starts w m (i + 1) = _ := tablesAt_next found
  rw [next]
  exact effect_kept kept (careful m i _ found)

/-- In every state of every machine the documents are histories. -/
theorem wellKept_at (well : ∀ m, WellKept outside.sha256Hex (starts m)) (careful : Careful outside starts w) {i : Nat}
    (inside : i ≤ (w.machines m).store.journal.length) : WellKept outside.sha256Hex (tablesOf outside starts w m i) := by
  induction i with
  | zero => exact well m
  | succ i ih => exact (step_kept careful inside (ih (Nat.le_of_succ_le inside))).1

/-- An accepted revision stands while its workspace does. -/
theorem stands_between (well : ∀ m, WellKept outside.sha256Hex (starts m)) (careful : Careful outside starts w)
    {workspaceId : String} {i j : Nat} (order : i ≤ j) (inside : j ≤ (w.machines m).store.journal.length)
    (present : Present outside starts w m workspaceId i j) {r : Int} {doc : WorkspaceDocument}
    (there : (tablesOf outside starts w m i).documents.get? (keyOf workspaceId r) = some doc) :
    (tablesOf outside starts w m j).documents.get? (keyOf workspaceId r) = some doc := by
  induction j, order using Nat.le_induction with
  | base => exact there
  | succ j order ih =>
    have before := ih (Nat.le_of_succ_le inside) fun k after upto => present k after (Nat.le_succ_of_le upto)
    have kept := wellKept_at well careful (Nat.le_of_succ_le inside)
    exact (step_kept careful inside kept).2 workspaceId r doc
      (present (j + 1) (Nat.lt_succ_of_le order) le_rfl) before

/-- A row of an accepted document. -/
structure Accepted (outside : Outside ν) (starts : ν → Tables) (w : World ν Tables Op) (m : ν) (i : Nat)
    (req : SetWorkspaceDocumentRequest) (doc : WorkspaceDocument) : Prop where
  workspace : doc.workspaceId = req.workspaceId
  revision : doc.revision = req.expectedRevision + 1
  texts : doc.charter = req.charter ∧ doc.document = req.document
  current : req.expectedRevision = current (tablesOf outside starts w m i).documents req.workspaceId
  workspaces : (tablesOf outside starts w m (i + 1)).workspaces = (tablesOf outside starts w m i).workspaces
  documents : (tablesOf outside starts w m (i + 1)).documents = (tablesOf outside starts w m i).documents.insert doc.key doc
  known : (tablesOf outside starts w m i).workspaces.has doc.workspaceId = true
  small : (outside.encode (documentEntry doc)).length ≤ entryCap
  valid : validate outside (documentEntry doc) = .ok ()
  fresh : (tablesOf outside starts w m i).documents.has doc.key = false

theorem Accepted.there {i : Nat} {req : SetWorkspaceDocumentRequest} {doc : WorkspaceDocument}
    (accepted : Accepted outside starts w m i req doc) :
    (tablesOf outside starts w m (i + 1)).documents.get? (keyOf req.workspaceId (req.expectedRevision + 1)) = some doc := by
  rw [← accepted.workspace,← accepted.revision,accepted.documents,Table.get?_insert]
  exact if_pos rfl

/-- The positions of a journal rise. -/
theorem positions_rise {store : Store ν Tables Op} {log : List (LogEntry ν)} {n : Nat}
    (applied : store.applied = (numbered log).take n) :
    store.journal.Pairwise fun a b => ∀ x, a.logged = some x → ∀ y, b.logged = some y → x.2 < y.2 := by
  have whole : (numbered log).Pairwise fun x y => x.2 < y.2 := by
    refine List.pairwise_map.mp ?_
    rw [numbered,List.zipIdx_map_snd]
    exact List.pairwise_lt_range'
  have part := whole.sublist (List.take_sublist n _)
  rw [← applied,Store.applied,List.pairwise_filterMap] at part
  exact part

/-- A position below one a machine applied stands in its journal too, at an earlier row. -/
theorem earlier_row {w : World ν Tables Op} (agreement : Agreement (documentRegistry outside) starts w) {m₁ m₂ : ν}
    {i₁ i₂ : Nat} {row₁ row₂ : JournalRow ν Op} (found₁ : (w.machines m₁).store.journal[i₁]? = some row₁)
    (found₂ : (w.machines m₂).store.journal[i₂]? = some row₂) {e₁ e₂ : LogEntry ν} {p₁ p₂ : Nat}
    (logged₁ : row₁.logged = some (e₁,p₁)) (logged₂ : row₂.logged = some (e₂,p₂)) (before : p₁ < p₂) :
    ∃ j < i₂, ∃ row, (w.machines m₂).store.journal[j]? = some row ∧ row.logged = some (e₁,p₁) := by
  have applied : ∀ (m : ν) (i : Nat) row (e : LogEntry ν) (p : Nat), (w.machines m).store.journal[i]? = some row →
      row.logged = some (e,p) → ∃ k, k < (w.machines m).store.lastAppliedPosition ∧ w.network.log[k]? = some e ∧ p = k + 1 := by
    intro m i row e p found logged
    have inside : (e,p) ∈ (w.machines m).store.applied :=
      List.mem_filterMap.mpr ⟨row,List.mem_of_getElem? found,logged⟩
    rw [(agreement.applied m).2] at inside
    obtain ⟨k,at_⟩ := List.mem_iff_getElem?.mp inside
    rw [List.getElem?_take] at at_
    split at at_
    next below => exact ⟨k,below,numbered_get.mp at_⟩
    next => cases at_
  obtain ⟨k₁,_,slot₁,rfl⟩ := applied m₁ i₁ row₁ e₁ p₁ found₁ logged₁
  obtain ⟨k₂,below,_,rfl⟩ := applied m₂ i₂ row₂ e₂ p₂ found₂ logged₂
  have inside : (e₁,k₁ + 1) ∈ (w.machines m₂).store.applied := by
    rw [(agreement.applied m₂).2]
    refine List.mem_iff_getElem?.mpr ⟨k₁,?_⟩
    rw [List.getElem?_take,if_pos (by omega)]
    exact numbered_get.mpr ⟨slot₁,rfl⟩
  obtain ⟨row,member,logged⟩ := List.mem_filterMap.mp inside
  obtain ⟨j,found⟩ := List.mem_iff_getElem?.mp member
  refine ⟨j,?_,row,found,logged⟩
  by_contra late
  have rise := List.pairwise_iff_getElem.mp (positions_rise (agreement.applied m₂).2)
  obtain ⟨boundI,valueI⟩ := List.getElem?_eq_some_iff.mp found₂
  obtain ⟨boundJ,valueJ⟩ := List.getElem?_eq_some_iff.mp found
  rcases Nat.lt_or_eq_of_le (Nat.le_of_not_lt late) with less | rfl
  · have := rise i₂ j boundI boundJ less _ (valueI ▸ logged₂) _ (valueJ ▸ logged)
    omega
  · obtain rfl := valueI.symm.trans valueJ
    have := (Prod.mk.inj (Option.some.inj (logged₂.symm.trans logged))).2
    omega

/-- One position stands at one row. -/
theorem row_unique {w : World ν Tables Op} (agreement : Agreement (documentRegistry outside) starts w) {i j : Nat}
    {a b : JournalRow ν Op} (foundA : (w.machines m).store.journal[i]? = some a)
    (foundB : (w.machines m).store.journal[j]? = some b) {x : LogEntry ν × Nat} (loggedA : a.logged = some x)
    (loggedB : b.logged = some x) : i = j := by
  have rise := List.pairwise_iff_getElem.mp (positions_rise (agreement.applied m).2)
  obtain ⟨boundI,valueI⟩ := List.getElem?_eq_some_iff.mp foundA
  obtain ⟨boundJ,valueJ⟩ := List.getElem?_eq_some_iff.mp foundB
  rcases Nat.lt_trichotomy i j with less | same | more
  · exact absurd (rise i j boundI boundJ less _ (valueI ▸ loggedA) _ (valueJ ▸ loggedB)) (lt_irrefl _)
  · exact same
  · exact absurd (rise j i boundJ boundI more _ (valueJ ▸ loggedB) _ (valueI ▸ loggedA)) (lt_irrefl _)

variable [DecidableEq ν]

/-- Each write of a document in a journal was accepted where it stands, and its entry is that
document. -/
theorem accepted_row (initial : Initial starts w₀) (reached : Reach (next (documentRegistry outside)) Free w₀ w)
    (well : ∀ m, WellKept outside.sha256Hex (starts m)) (careful : Careful outside starts w) {i : Nat}
    {row : JournalRow ν Op} (found : (w.machines m).store.journal[i]? = some row) {req : SetWorkspaceDocumentRequest}
    {now : Int} {principal : String} {approved : Option String}
    (write : row.change = .here (.setDocument req now principal approved)) :
    ∃ doc, Accepted outside starts w m i req doc ∧
      ∀ entry position, row.logged = some (entry,position) → entry.body.data = outside.encode (documentEntry doc) := by
  obtain ⟨own,_⟩ := own_rows initial reached m i row found
  have inside := (List.getElem?_eq_some_iff.mp found).1
  have kept : WellKept outside.sha256Hex (tablesOf outside starts w m i) := wellKept_at well careful inside.le
  have next : tablesOf outside starts w m (i + 1) =
      (documentRegistry outside).effect (tablesOf outside starts w m i) row := tablesAt_next found
  rcases own _ write with ⟨after,done⟩ | ⟨after,data,done,logged⟩
  · have done : operate outside (.setDocument req now principal approved) (tablesOf outside starts w m i) = .kept after :=
      done
    exact absurd done (operate_not_kept _)
  · have effect : (documentRegistry outside).effect (tablesOf outside starts w m i) row = after := effect_here write done
    have done : setWorkspaceDocument outside (tablesOf outside starts w m i) req now principal approved =
        .shared after data := done
    obtain ⟨doc,text,planned,workspaces,documents,same⟩ := setWorkspaceDocument_shared done
    have valid := planned_valid kept planned
    obtain ⟨_,_,_,known,expected,small,shape⟩ := planDocument_ok planned
    have key : doc.key = keyOf req.workspaceId (current (tablesOf outside starts w m i).documents req.workspaceId + 1) := by
      rw [shape]
      rfl
    have fresh : (tablesOf outside starts w m i).documents.has doc.key = false := by
      rw [key]
      exact kept.histories.fresh
    refine ⟨doc,⟨by rw [shape],by rw [shape,expected],by rw [shape]; exact ⟨rfl,rfl⟩,expected,?_,?_,?_,small,valid,fresh⟩,?_⟩
    · rw [next,effect]
      exact workspaces
    · rw [next,effect]
      exact documents
    · rw [shape]
      exact known
    · intro entry position is
      rw [logged entry position is,same,delta_document fresh workspaces documents]

/-- The JSON library reads what it writes. -/
def Faithful (outside : Outside ν) : Prop := ∀ doc, outside.decode (outside.encode (documentEntry doc)) = .ok (documentEntry doc)

/-- An accepted document is applied by each machine that takes its entry. -/
theorem taken_document (faithful : Faithful outside) (initial : Initial starts w₀)
    (reached : Reach (next (documentRegistry outside)) Free w₀ w)
    (well : ∀ m, WellKept outside.sha256Hex (starts m)) (careful : Careful outside starts w) {m₁ m₂ : ν} {i₁ j : Nat}
    {row₁ row : JournalRow ν Op} (found₁ : (w.machines m₁).store.journal[i₁]? = some row₁)
    (found : (w.machines m₂).store.journal[j]? = some row) {req : SetWorkspaceDocumentRequest} {now : Int}
    {principal : String} {approved : Option String}
    (write : row₁.change = .here (.setDocument req now principal approved)) {x : LogEntry ν × Nat}
    (logged₁ : row₁.logged = some x) (logged : row.logged = some x)
    (present : (tablesOf outside starts w m₂ (j + 1)).workspaces.has req.workspaceId = true) :
    ∃ doc, (tablesOf outside starts w m₂ (j + 1)).documents.get? (keyOf req.workspaceId (req.expectedRevision + 1)) =
      some doc := by
  obtain ⟨doc,accepted,bytes⟩ := accepted_row initial reached well careful found₁ write
  obtain ⟨entry,position⟩ := x
  have data := bytes entry position logged₁
  obtain ⟨_,shaped₁⟩ := own_rows initial reached m₁ i₁ row₁ found₁
  obtain ⟨_,shaped⟩ := own_rows initial reached m₂ j row found
  unfold Shaped at shaped₁ shaped
  rw [write] at shaped₁
  obtain ⟨author,kind⟩ := shaped₁ entry position logged₁
  have agreement := (log_agreement initial reached).1
  have kept : WellKept outside.sha256Hex (tablesOf outside starts w m₂ j) :=
    wellKept_at well careful (List.getElem?_eq_some_iff.mp found).1.le
  have effect : tablesOf outside starts w m₂ (j + 1) =
      (documentRegistry outside).effect (tablesOf outside starts w m₂ j) row := tablesAt_next found
  cases change : row.change with
  | here op =>
    rw [change] at shaped
    obtain rfl : m₁ = m₂ := author.symm.trans (shaped entry position logged).1
    obtain rfl := row_unique agreement found₁ found logged₁ logged
    exact ⟨doc,accepted.there⟩
  | entry received =>
    rw [change] at shaped
    obtain ⟨at_,is⟩ := shaped
    obtain rfl := (Prod.mk.inj (Option.some.inj (is.symm.trans logged))).1
    have decoded : outside.decode received.body.data = .ok (documentEntry doc) := by
      rw [data]
      exact faithful doc
    have applied : (documentRegistry outside).effect (tablesOf outside starts w m₂ j) row =
        (restore outside (tablesOf outside starts w m₂ j) (documentEntry doc)).toOption.getD
          (tablesOf outside starts w m₂ j) := by
      unfold IdentityLog.Registry.effect
      rw [change]
      show ((outside.decode received.body.data >>= restore outside (tablesOf outside starts w m₂ j)).toOption.getD _) = _
      rw [decoded]
      rfl
    rw [effect,applied] at present ⊢
    have known : (tablesOf outside starts w m₂ j).workspaces.has req.workspaceId = true := by
      cases done : restore outside (tablesOf outside starts w m₂ j) (documentEntry doc) with
      | error =>
        rw [done] at present
        exact present
      | ok after =>
        rw [done] at present
        exact restored_known done present
    obtain ⟨after,done,_,documents⟩ := restore_document kept accepted.valid (accepted.workspace ▸ known)
    rw [done]
    refine ⟨doc,?_⟩
    show after.documents.get? _ = _
    rw [documents,← accepted.workspace,← accepted.revision,Table.get?_insert]
    exact if_pos rfl
  | snapshot parts supersedes =>
    rw [change] at shaped
    cases (shaped entry position logged).symm.trans kind
  | part =>
    rw [change] at shaped
    cases (shaped entry position logged).symm.trans kind

/-- Of two accepted writes the one at the later position expected a later revision. -/
theorem writers_apart (faithful : Faithful outside) (initial : Initial starts w₀)
    (reached : Reach (next (documentRegistry outside)) Free w₀ w)
    (well : ∀ m, WellKept outside.sha256Hex (starts m)) (careful : Careful outside starts w) {m₁ m₂ : ν} {i₁ i₂ : Nat}
    {row₁ row₂ : JournalRow ν Op} (found₁ : (w.machines m₁).store.journal[i₁]? = some row₁)
    (found₂ : (w.machines m₂).store.journal[i₂]? = some row₂) {req₁ req₂ : SetWorkspaceDocumentRequest}
    {now₁ now₂ : Int} {principal₁ principal₂ : String} {approved₁ approved₂ : Option String}
    (write₁ : row₁.change = .here (.setDocument req₁ now₁ principal₁ approved₁))
    (write₂ : row₂.change = .here (.setDocument req₂ now₂ principal₂ approved₂)) {e₁ e₂ : LogEntry ν} {p₁ p₂ : Nat}
    (logged₁ : row₁.logged = some (e₁,p₁)) (logged₂ : row₂.logged = some (e₂,p₂)) (before : p₁ < p₂)
    (same : req₁.workspaceId = req₂.workspaceId) :
    ∃ j < i₂, (∃ row, (w.machines m₂).store.journal[j]? = some row ∧ row.logged = some (e₁,p₁)) ∧
      (Present outside starts w m₂ req₁.workspaceId j i₂ → req₁.expectedRevision < req₂.expectedRevision) := by
  have agreement := (log_agreement initial reached).1
  obtain ⟨j,earlier,row,found,logged⟩ := earlier_row agreement found₁ found₂ logged₁ logged₂ before
  refine ⟨j,earlier,⟨row,found,logged⟩,fun present => ?_⟩
  obtain ⟨doc₂,accepted₂,_⟩ := accepted_row initial reached well careful found₂ write₂
  have inside := (List.getElem?_eq_some_iff.mp found₂).1.le
  obtain ⟨doc,there⟩ := taken_document faithful initial reached well careful found₁ found write₁ logged₁ logged
    (present (j + 1) (Nat.lt_succ_self j) earlier)
  have stands := stands_between well careful earlier inside
    (fun k after upto => present k (Nat.lt_of_succ_lt after) upto) there
  have kept : WellKept outside.sha256Hex (tablesOf outside starts w m₂ i₂) := wellKept_at well careful inside
  have upto := (kept.histories.upto (Table.has_iff.mpr ⟨doc,stands⟩)).2
  have expected := accepted₂.current
  rw [← same] at expected
  omega

/-- What holds of the documents in every state reached by careful runs. -/
structure DocumentsKept (outside : Outside ν) (starts : ν → Tables) (w : World ν Tables Op) : Prop where
  rebuilt : ∀ m, (w.machines m).store.tables = tablesOf outside starts w m (w.machines m).store.journal.length
  histories : ∀ m i, i ≤ (w.machines m).store.journal.length → WellKept outside.sha256Hex (tablesOf outside starts w m i)
  stands : ∀ m workspaceId i j, i ≤ j → j ≤ (w.machines m).store.journal.length →
    Present outside starts w m workspaceId i j → ∀ r doc,
    (tablesOf outside starts w m i).documents.get? (keyOf workspaceId r) = some doc →
    (tablesOf outside starts w m j).documents.get? (keyOf workspaceId r) = some doc
  second : ∀ m (i : Nat) row req now principal approved, (w.machines m).store.journal[i]? = some row →
    row.change = .here (.setDocument req now principal approved) →
    ∀ j, i < j → j ≤ (w.machines m).store.journal.length → Present outside starts w m req.workspaceId i j →
    ∀ req' : SetWorkspaceDocumentRequest, req'.workspaceId = req.workspaceId →
    req'.expectedRevision = req.expectedRevision → ∀ now' principal' approved',
      (∀ after data, setWorkspaceDocument outside (tablesOf outside starts w m j) req' now' principal' approved' ≠
        .shared after data) ∧
      (Checked (tablesOf outside starts w m j) req' →
        setWorkspaceDocument outside (tablesOf outside starts w m j) req' now' "direct" approved' =
          .refused "revision_conflict")
  apart : ∀ m₁ m₂ (i₁ i₂ : Nat) row₁ row₂ req₁ req₂ now₁ now₂ principal₁ principal₂ approved₁ approved₂ e₁ e₂ p₁ p₂,
    (w.machines m₁).store.journal[i₁]? = some row₁ → (w.machines m₂).store.journal[i₂]? = some row₂ →
    row₁.change = .here (.setDocument req₁ now₁ principal₁ approved₁) →
    row₂.change = .here (.setDocument req₂ now₂ principal₂ approved₂) →
    row₁.logged = some (e₁,p₁) → row₂.logged = some (e₂,p₂) → p₁ < p₂ → req₁.workspaceId = req₂.workspaceId →
    ∃ j < i₂, (∃ row, (w.machines m₂).store.journal[j]? = some row ∧ row.logged = some (e₁,p₁)) ∧
      (Present outside starts w m₂ req₁.workspaceId j i₂ → req₁.expectedRevision < req₂.expectedRevision)
  elsewhere : ∀ m (i : Nat) row req now principal approved, (w.machines m).store.journal[i]? = some row →
    row.change = .here (.setDocument req now principal approved) →
    ∃ doc, Accepted outside starts w m i req doc ∧
      (∀ entry position, row.logged = some (entry,position) →
        outside.decode entry.body.data = .ok (documentEntry doc)) ∧
      ∀ other, WellKept outside.sha256Hex other → other.documents = (tablesOf outside starts w m i).documents →
        other.workspaces.has req.workspaceId = true → Extends other (documentEntry doc) ∧
          ∃ after, restore outside other (documentEntry doc) = .ok after ∧ after.workspaces = other.workspaces ∧
            after.documents = (tablesOf outside starts w m (i + 1)).documents

end Runs

namespace Replaced

/-- An integer; one that no JSON integer holds stands as that many nulls. -/
def intJson (i : Int) : Json Empty :=
  if 0 ≤ i ∧ i < 2 ^ 64 then .number (.posInt (Fin.ofNat _ i.toNat))
  else if -2 ^ 63 ≤ i ∧ i < 0 then .number (.negInt (Fin.ofNat _ (-i - 1).toNat))
  else .array (.bool (decide (0 ≤ i)) :: List.replicate i.natAbs .null)

def readInt : Json Empty → Int
  | .number (.posInt n) => n
  | .number (.negInt n) => -(n + 1)
  | .array (.bool positive :: rest) => if positive then rest.length else -rest.length
  | _ => 0

theorem readInt_intJson (i : Int) : readInt (intJson i) = i := by
  unfold intJson
  split
  next range =>
    show ((Fin.ofNat (2 ^ 64) i.toNat : Fin (2 ^ 64)).val : Int) = i
    rw [Fin.val_ofNat,Nat.mod_eq_of_lt (by omega)]
    omega
  next =>
    split
    next range =>
      show -(((Fin.ofNat (2 ^ 63) (-i - 1).toNat : Fin (2 ^ 63)).val : Int) + 1) = i
      rw [Fin.val_ofNat,Nat.mod_eq_of_lt (by omega)]
      omega
    next =>
      simp only [readInt,List.length_replicate,decide_eq_true_eq]
      split <;> omega

theorem intJson_nesting (i : Int) : (intJson i).nesting ≤ 1 := by
  have flat : ∀ n, Json.nestingItems (List.replicate n (Json.null : Json Empty)) = 0 := by
    intro n
    induction n with
    | zero => rfl
    | succ n ih =>
      rw [List.replicate_succ,Json.nestingItems,ih]
      rfl
  unfold intJson
  split
  next => exact Nat.zero_le _
  next =>
    split
    next => exact Nat.zero_le _
    next =>
      rw [Json.nesting,Json.nestingItems,flat]
      exact Nat.le_refl _

def rowJson (doc : WorkspaceDocument) : Json Empty := .object [("accepted_at_ms",intJson doc.acceptedAtMs),
  ("accepted_via",.string doc.acceptedVia),("charter",.string doc.charter),("document",.string doc.document),
  ("revision",intJson doc.revision),("sha256",.string doc.sha256),("workspace_id",.string doc.workspaceId)]

def tableJson (name : String) (upsert delete : List (Json Empty)) : List (String × Json Empty) :=
  if upsert.isEmpty && delete.isEmpty then [] else [(name,.object [("delete",.array delete),("upsert",.array upsert)])]

/-- The canonical form of an entry; of a workspace only the columns of the model. -/
def entryJson (change : Change) : Json Empty := .object [("op",.string "project.shared"),("tables",.object (
  tableJson "workspace" (change.workspaces.map fun r => .object [("name",.string r.2),("workspace_id",.string r.1)])
    (change.goneWorkspaces.map fun id => .object [("workspace_id",.string id)]) ++
  tableJson "workspace_document" (change.documents.map rowJson)
    (change.goneDocuments.map fun key => .object [("revision",intJson (ofLex key).2),("workspace_id",.string (ofLex key).1)])))]

def encode (change : Change) : List UInt8 := Utf8.encode (entryJson change).emit

theorem entryJson_document (doc : WorkspaceDocument) : entryJson (documentEntry doc) = .object [("op",.string "project.shared"),
    ("tables",.object [("workspace_document",.object [("delete",.array []),("upsert",.array [rowJson doc])])])] := rfl

theorem rowJson_inj {a b : WorkspaceDocument} (same : rowJson a = rowJson b) : a = b := by
  obtain ⟨_,_,_,_,_,_,_⟩ := a
  obtain ⟨_,_,_,_,_,_,_⟩ := b
  simp only [rowJson,Json.object.injEq,List.cons.injEq,Prod.mk.injEq,Json.string.injEq,true_and,and_true] at same
  obtain ⟨time,rfl,rfl,rfl,revision,rfl,rfl⟩ := same
  have time := congrArg readInt time
  have revision := congrArg readInt revision
  rw [readInt_intJson,readInt_intJson] at time revision
  subst time revision
  rfl

theorem shallow (doc : WorkspaceDocument) : (entryJson (documentEntry doc)).nesting < Json.depthLimit := by
  have time := intJson_nesting doc.acceptedAtMs
  have revision := intJson_nesting doc.revision
  rw [entryJson_document]
  simp only [Json.nesting,Json.nestingFields,Json.nestingItems,rowJson,Json.depthLimit]
  omega

theorem encode_inj {a b : WorkspaceDocument} (same : encode (documentEntry a) = encode (documentEntry b)) : a = b := by
  have texts := congrArg Utf8.decode same
  rw [encode,encode,Utf8.decode_encode,Utf8.decode_encode] at texts
  have trees := congrArg (fun text => (Json.parse text : Option (Json Empty))) (Option.some.inj texts)
  rw [Json.parse_emit (shallow a),Json.parse_emit (shallow b),entryJson_document,entryJson_document] at trees
  have trees := Option.some.inj trees
  simp only [Json.object.injEq,List.cons.injEq,Prod.mk.injEq,Json.array.injEq,true_and,and_true] at trees
  exact rowJson_inj trees

/-- The hash of the two texts `ab` and `c`; what else is hashed does not matter here. -/
def sha256Hex (bytes : List UInt8) : String :=
  if bytes = Utf8.asBytes "ck-workspace-document-v1" ++ 0 :: (framed "ab" ++ framed "c") then
    "0b38e4d533a7177179b91823642e24568bcc8148dfb704e0760812c0edbc9864"
  else Utf8.ofLatin bytes

open Classical in
noncomputable def decode (bytes : List UInt8) : Except String Change :=
  if known : ∃ doc, encode (documentEntry doc) = bytes then .ok (documentEntry known.choose) else .error "invalid entry"

noncomputable def outside : Outside Unit := ⟨sha256Hex,encode,decode,fun _ => .error "no snapshot"⟩

theorem outside_faithful : Faithful outside := by
  intro doc
  have known : ∃ other, encode (documentEntry other) = encode (documentEntry doc) := ⟨doc,rfl⟩
  have same : known.choose = doc := encode_inj known.choose_spec
  show decode (encode (documentEntry doc)) = _
  rw [decode,dif_pos known,same]

def first : WorkspaceDocument :=
  ⟨"main",1,"ab","c","0b38e4d533a7177179b91823642e24568bcc8148dfb704e0760812c0edbc9864",700,"direct"⟩

def started : Tables := ⟨Table.insert ∅ "main" "Main",∅,∅⟩

theorem started_kept : WellKept sha256Hex started := by
  refine ⟨⟨nofun,fun workspaceId => ⟨0,fun r => ?_⟩,nofun⟩,nofun⟩
  show (false = true) ↔ _
  simp
  omega

def request : SetWorkspaceDocumentRequest := ⟨"main",0,"ab","c","k1"⟩

def approved : String := "set document of workspace Main revision 1 (charter 2 bytes, document 1 bytes, sha256 0b38e4d533a7)"

noncomputable def fresh : World Unit Tables Op := ⟨⟨[],[],[],[],[]⟩,fun _ => ⟨⟨.disabled,0,0,∅,[],started⟩,.idle,false⟩⟩

theorem first_planned : planDocument outside started request 700 = .ok (first,approved) := by
  decide +kernel

def op : Op := .setDocument request 700 "direct" (some approved)

def written : Tables :=
  ⟨started.workspaces,Table.insert ∅ first.key first,Table.insert ∅ "k1" "workspace.set_document"⟩

theorem op_done : operate outside op started = .shared written (encode (delta started written)) := by
  show setWorkspaceDocument outside started request 700 "direct" (some approved) = _
  unfold setWorkspaceDocument keyed
  have none_ : (some request.requestKey).bind started.requestKeys.get? = none := rfl
  have new : started.documents.has first.key = false := rfl
  rw [if_neg (by decide),none_,first_planned]
  dsimp only
  rw [if_neg (by decide),new]
  rfl

theorem writeLocal_shared {m : Machine Unit Tables Op} {o : Op} {after : Tables} {data : List UInt8}
    (idle : m.task = .idle) (off : m.store.state = .disabled) (done : operate outside o m.store.tables = .shared after data) :
    m.writeLocal (documentRegistry outside) o =
      some { m with store := { m.store with journal := m.store.journal ++ [⟨.here o,none⟩], tables := after } } := by
  have done : (documentRegistry outside).operate o m.store.tables = .shared after data := done
  unfold Machine.writeLocal
  rw [done,idle]
  exact if_pos off

theorem next_writeLocal {w : World Unit Tables Op} {o : Op} {m : Machine Unit Tables Op}
    (wrote : (w.machines ()).writeLocal (documentRegistry outside) o = some m) :
    next (documentRegistry outside) w (.writeLocal () o) = some ⟨w.network,Function.update w.machines () m⟩ := by
  show (Machine.act (documentRegistry outside) w.network () (w.machines ()) (.writeLocal () o)).map _ = _
  have acted : Machine.act (documentRegistry outside) w.network () (w.machines ()) (.writeLocal () o) = some (w.network,m) := by
    unfold Machine.act
    split <;> simp_all
  rw [acted]
  rfl

def second : WorkspaceDocument :=
  ⟨"main",1,"ab","d",documentSha256 sha256Hex "ab" "d",900,"direct"⟩

theorem second_valid : validate outside (documentEntry second) = .ok () := by
  have charter : validateText "charter" second.charter CHARTER_LIMIT = .ok () := by decide
  have document : validateText "document" second.document DOCUMENT_LIMIT = .ok () := by decide
  exact single_valid (validateRow_of charter document (by decide) rfl rfl)

theorem written_kept : WellKept sha256Hex written := (operate_kept started_kept op_done).1

theorem applyRemoteEntry_document (store : Store Unit Tables Op) (entry : LogEntry Unit) {change : Change} {after : Tables}
    (version : entry.body.envelopeVersion = envelopeVersion) (new : store.hasOwn entry.id = false)
    (decoded : decode entry.body.data = .ok change) (valid : validate outside change = .ok ())
    (restored : restore outside store.tables change = .ok after) :
    applyRemoteEntry (documentRegistry outside) store entry (store.lastAppliedPosition + 1) =
      .ok (store.write (.entry entry) after entry (store.lastAppliedPosition + 1)) := by
  have validated : (documentRegistry outside).validate entry store.tables = .ok () := by
    show (decode entry.body.data >>= fun change => validate outside change) = _
    rw [decoded]
    exact valid
  have done : (documentRegistry outside).restore entry store.tables = .ok after := by
    show (decode entry.body.data >>= fun change => restore outside store.tables change) = _
    rw [decoded]
    exact restored
  unfold applyRemoteEntry
  rw [if_neg (not_not.mpr version),validated]
  simp only [bind,Except.bind,new,done]
  rw [if_neg fun other => other rfl,if_neg Bool.false_ne_true]
  exact if_pos rfl

end Replaced

end Entorhinal.Documents
