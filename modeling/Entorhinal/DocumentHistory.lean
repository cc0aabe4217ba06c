import Entorhinal.Documents
import Entorhinal.LogLaw

/-! The histories of workspace documents, over the writes of any number of machines and the
entries of the log. -/
namespace Entorhinal.Documents
open IdentityLog Registry Transition

abbrev DocumentTable := Table DocumentKey WorkspaceDocument

section Histories
variable {sha : List UInt8 → String} {documents : DocumentTable} {workspaceId : String}

/-- The revisions of each workspace are 1 to some number, and each digest is that of its texts. -/
structure Histories (sha : List UInt8 → String) (documents : DocumentTable) : Prop where
  keyed : ∀ key doc, documents.get? key = some doc → doc.key = key
  counted : ∀ workspaceId, ∃ n : Nat, ∀ r : Int, documents.has (keyOf workspaceId r) = true ↔ 1 ≤ r ∧ r ≤ n
  hashed : ∀ key doc, documents.get? key = some doc → doc.sha256 = documentSha256 sha doc.charter doc.document

theorem keyOf_inj {a b : String} {r s : Int} : keyOf a r = keyOf b s ↔ a = b ∧ r = s := by
  unfold keyOf
  rw [EmbeddingLike.apply_eq_iff_eq,Prod.mk.injEq]

theorem mem_revisions {r : Int} :
    r ∈ (documents.rows.filter fun x => (ofLex x.1).1 == workspaceId).map (fun x => (ofLex x.1).2) ↔
      documents.has (keyOf workspaceId r) = true := by
  rw [Table.has_iff,List.mem_map]
  constructor
  · rintro ⟨⟨key,doc⟩,member,rfl⟩
    obtain ⟨listed,own⟩ := List.mem_filter.mp member
    obtain rfl := beq_iff_eq.mp own
    exact ⟨doc,Table.mem_rows.mp listed⟩
  · rintro ⟨doc,there⟩
    exact ⟨(keyOf workspaceId r,doc),List.mem_filter.mpr ⟨Table.mem_rows.mpr there,beq_self_eq_true _⟩,rfl⟩

/-- The current revision is the number of revisions. -/
theorem current_eq {n : Nat} (counted : ∀ r : Int, documents.has (keyOf workspaceId r) = true ↔ 1 ≤ r ∧ r ≤ n) :
    current documents workspaceId = n := by
  unfold current
  have listed := fun r => (@mem_revisions documents workspaceId r).trans (counted r)
  generalize (documents.rows.filter fun x => (ofLex x.1).1 == workspaceId).map (fun x => (ofLex x.1).2) = revisions at listed
  cases n with
  | zero =>
    have none_ : revisions = [] := List.eq_nil_iff_forall_not_mem.mpr fun r member => by
      have := (listed r).mp member
      omega
    rw [none_]
    rfl
  | succ n =>
    have highest : revisions.max? = some ((n + 1 : Nat) : Int) := by
      refine List.max?_eq_some_iff.mpr ⟨(listed _).mpr ⟨by omega,le_refl _⟩,fun r member => ((listed r).mp member).2⟩
    rw [highest]
    rfl

theorem Histories.fresh (histories : Histories sha documents) :
    documents.has (keyOf workspaceId (current documents workspaceId + 1)) = false := by
  obtain ⟨n,counted⟩ := histories.counted workspaceId
  rw [current_eq counted,Bool.eq_false_iff]
  intro there
  have := (counted _).mp there
  omega

/-- A revision that stands is not above the current one. -/
theorem Histories.upto (histories : Histories sha documents) {r : Int}
    (there : documents.has (keyOf workspaceId r) = true) : 1 ≤ r ∧ r ≤ current documents workspaceId := by
  obtain ⟨n,counted⟩ := histories.counted workspaceId
  rw [current_eq counted]
  exact (counted r).mp there

/-- The next revision is put behind the others. -/
theorem Histories.insert (histories : Histories sha documents) {doc : WorkspaceDocument}
    (next : doc.revision = current documents doc.workspaceId + 1)
    (hash : doc.sha256 = documentSha256 sha doc.charter doc.document) :
    Histories sha (documents.insert doc.key doc) := by
  refine ⟨?_,?_,?_⟩
  · intro key other there
    rw [Table.get?_insert] at there
    split at there
    next same =>
      obtain rfl := Option.some.inj there
      exact same.symm
    next => exact histories.keyed key other there
  · intro workspaceId
    obtain ⟨n,counted⟩ := histories.counted workspaceId
    by_cases own : workspaceId = doc.workspaceId
    · subst own
      refine ⟨n + 1,fun r => ?_⟩
      rw [Table.has_insert,Bool.or_eq_true,decide_eq_true_eq,WorkspaceDocument.key,keyOf_inj,counted r,next,
        current_eq counted,eq_self_iff_true,true_and]
      omega
    · refine ⟨n,fun r => ?_⟩
      rw [Table.has_insert,Bool.or_eq_true,decide_eq_true_eq,WorkspaceDocument.key,keyOf_inj,counted r]
      exact ⟨fun either => either.resolve_left fun same => own same.1,.inr⟩
  · intro key other there
    rw [Table.get?_insert] at there
    split at there
    next =>
      obtain rfl := Option.some.inj there
      exact hash
    next => exact histories.hashed key other there

/-- The documents of some workspaces are gone, and all others stand. -/
theorem Histories.without (histories : Histories sha documents) {after : DocumentTable} (gone : String → Prop)
    [DecidablePred gone]
    (same : ∀ key, after.get? key = if gone (ofLex key).1 then none else documents.get? key) : Histories sha after := by
  have was : ∀ key doc, after.get? key = some doc → documents.get? key = some doc := by
    intro key doc there
    rw [same] at there
    split at there
    next => cases there
    next => exact there
  refine ⟨fun key doc there => histories.keyed key doc (was key doc there),?_,
    fun key doc there => histories.hashed key doc (was key doc there)⟩
  intro workspaceId
  obtain ⟨n,counted⟩ := histories.counted workspaceId
  by_cases left : gone workspaceId
  · refine ⟨0,fun r => ?_⟩
    have none_ : after.get? (keyOf workspaceId r) = none := (same _).trans (if_pos left)
    rw [Table.has,none_]
    simp
    omega
  · refine ⟨n,fun r => ?_⟩
    have stays : after.get? (keyOf workspaceId r) = documents.get? (keyOf workspaceId r) := (same _).trans (if_neg left)
    rw [Table.has,stays]
    exact counted r

/-- Each row an entry upserts stands already, or is the next revision of its workspace. -/
def Continues (documents : DocumentTable) : List WorkspaceDocument → Prop
  | [] => True
  | doc :: rest =>
    (documents.get? doc.key = some doc ∨ doc.revision = current documents doc.workspaceId + 1) ∧
      Continues (documents.insert doc.key doc) rest

theorem insert_standing {doc : WorkspaceDocument} (stands : documents.get? doc.key = some doc) :
    documents.insert doc.key doc = documents := by
  ext1 key
  rw [Table.get?_insert]
  split
  next same => rw [same,stands]
  next => rfl

theorem Histories.upsert (histories : Histories sha documents) {rows : List WorkspaceDocument}
    (continues : Continues documents rows)
    (hashes : ∀ doc ∈ rows, doc.sha256 = documentSha256 sha doc.charter doc.document) :
    Histories sha (upsert documents rows) ∧
      ∀ key doc, documents.get? key = some doc → (upsert documents rows).get? key = some doc := by
  induction rows generalizing documents with
  | nil => exact ⟨histories,fun _ _ => id⟩
  | cons doc rest ih =>
    obtain ⟨step,continues⟩ := continues
    have others : ∀ doc ∈ rest, doc.sha256 = documentSha256 sha doc.charter doc.document := fun doc member =>
      hashes doc (List.mem_cons_of_mem _ member)
    rcases step with stands | next
    · rw [insert_standing stands] at continues
      have same : Documents.upsert documents (doc :: rest) = Documents.upsert documents rest := by
        rw [Documents.upsert,List.foldl_cons,insert_standing stands]
        rfl
      rw [same]
      exact ih histories continues others
    · have fresh : documents.has (keyOf doc.workspaceId (current documents doc.workspaceId + 1)) = false := histories.fresh
      obtain ⟨kept,stays⟩ := ih (histories.insert next (hashes doc List.mem_cons_self)) continues others
      refine ⟨kept,fun key other there => stays key other ?_⟩
      rw [Table.get?_insert]
      split
      next same =>
        subst same
        have standing : documents.has doc.key = true := Table.has_iff.mpr ⟨other,there⟩
        rw [WorkspaceDocument.key,next,fresh] at standing
        cases standing
      next => exact there

end Histories

section Steps
variable {ν : Type} {outside : Outside ν} {tables after : Tables}

/-- The documents are histories, and each is of a workspace that is there. -/
structure WellKept (sha : List UInt8 → String) (tables : Tables) : Prop where
  histories : Histories sha tables.documents
  placed : ∀ key doc, tables.documents.get? key = some doc → tables.workspaces.has doc.workspaceId = true

/-- What was accepted stands, of each workspace that is still there. -/
def Stays (tables after : Tables) : Prop :=
  ∀ workspaceId r doc, after.workspaces.has workspaceId = true →
    tables.documents.get? (keyOf workspaceId r) = some doc → after.documents.get? (keyOf workspaceId r) = some doc

theorem Stays.refl (tables : Tables) : Stays tables tables := fun _ _ _ _ => id

/-- What an entry has to be for the histories to go on: each document it upserts stands already
or is the next revision, and it deletes documents only with their workspace. -/
structure Extends (tables : Tables) (change : Change) : Prop where
  upserts : Continues (keptDocuments tables.documents change) change.documents
  deletes : ∀ key ∈ change.goneDocuments, tables.documents.has key = true → (ofLex key).1 ∈ change.goneWorkspaces

theorem Extends.kept {change : Change} (extends_ : Extends tables change) (key : DocumentKey) :
    (keptDocuments tables.documents change).get? key =
      if (ofLex key).1 ∈ change.goneWorkspaces then none else tables.documents.get? key := by
  rw [keptDocuments,Table.get?_filter,Table.get?_filter]
  cases there : tables.documents.get? key with
  | none => simp
  | some doc =>
    have has : tables.documents.has key = true := Table.has_iff.mpr ⟨doc,there⟩
    by_cases left : (ofLex key).1 ∈ change.goneWorkspaces
    · rw [if_pos left]
      by_cases gone : key ∈ change.goneDocuments
      · simp [Option.filter,gone]
      · simp [Option.filter,gone,left]
    · have kept : key ∉ change.goneDocuments := fun gone => left (extends_.deletes key gone has)
      rw [if_neg left]
      simp [Option.filter,kept,left]

theorem validateRow_ok {doc : WorkspaceDocument} (ok : validateRow outside doc = .ok ()) :
    1 ≤ doc.revision ∧ doc.sha256 = documentSha256 outside.sha256Hex doc.charter doc.document ∧
      doc.acceptedVia = "direct" := by
  unfold validateRow at ok
  obtain ⟨_,_,ok⟩ := bind_ok ok
  obtain ⟨_,_,ok⟩ := bind_ok ok
  split at ok
  next => cases ok
  next valid =>
    obtain ⟨positive,rest⟩ := not_or.mp valid
    obtain ⟨hash,direct⟩ := not_or.mp rest
    exact ⟨by omega,not_not.mp hash,not_not.mp direct⟩

theorem validate_ok {docs : List WorkspaceDocument} (ok : docs.forM (validateRow outside) = .ok ()) :
    ∀ doc ∈ docs, validateRow outside doc = .ok () := by
  induction docs with
  | nil => nofun
  | cons doc rest ih =>
    obtain ⟨⟨⟩,first,ok⟩ := bind_ok ok
    intro other member
    rcases List.mem_cons.mp member with rfl | member
    · exact first
    · exact ih ok other member

/-- An entry that is applied leaves histories, and what it keeps stands. -/
theorem restore_kept {change : Change} (ok : restore outside tables change = .ok after)
    (kept : WellKept outside.sha256Hex tables) (extends_ : Extends tables change) :
    WellKept outside.sha256Hex after ∧ Stays tables after := by
  unfold restore at ok
  obtain ⟨⟨⟩,valid,ok⟩ := bind_ok ok
  dsimp only at ok
  split at ok
  next placed =>
    cases ok
    have hashes := fun doc member => (validateRow_ok (validate_ok valid doc member)).2.1
    have left := kept.histories.without (fun id => id ∈ change.goneWorkspaces) extends_.kept
    obtain ⟨histories,stays⟩ := left.upsert extends_.upserts hashes
    refine ⟨⟨histories,fun key doc there => ?_⟩,fun workspaceId r doc has there => stays _ _ ?_⟩
    · exact List.all_eq_true.mp placed (key,doc) (Table.mem_rows.mpr there)
    · have present : workspaceId ∉ change.goneWorkspaces := by
        intro gone
        obtain ⟨name,named⟩ := Table.has_iff.mp has
        rw [Table.get?_filter] at named
        exact of_decide_eq_true (Option.filter_eq_some_iff.mp named).2 gone
      rw [extends_.kept]
      exact (if_neg present).trans there
  next => cases ok

/-- A plan that is made. -/
theorem planDocument_ok {req : SetWorkspaceDocumentRequest} {now : Int} {doc : WorkspaceDocument} {text : String}
    (ok : planDocument outside tables req now = .ok (doc,text)) :
    req.requestKey ≠ "" ∧ validateText "charter" req.charter CHARTER_LIMIT = .ok () ∧
      validateText "document" req.document DOCUMENT_LIMIT = .ok () ∧
      tables.workspaces.has req.workspaceId = true ∧
      req.expectedRevision = current tables.documents req.workspaceId ∧
      (outside.encode (documentEntry doc)).length ≤ SHARED_ENTRY_LIMIT ∧
      doc = ⟨req.workspaceId,current tables.documents req.workspaceId + 1,req.charter,req.document,
        documentSha256 outside.sha256Hex req.charter req.document,now,"direct"⟩ := by
  unfold planDocument at ok
  obtain ⟨⟨⟩,keyed,ok⟩ := bind_ok ok
  obtain ⟨⟨⟩,charter,ok⟩ := bind_ok ok
  obtain ⟨⟨⟩,document,ok⟩ := bind_ok ok
  unfold requireKey at keyed
  split at keyed
  next => cases keyed
  next some_ =>
    split at ok
    next => cases ok
    next name named =>
      dsimp only at ok
      split at ok
      next => cases ok
      next expected =>
        split at ok
        next => cases ok
        next =>
          split at ok
          next => cases ok
          next small =>
            split at ok
            next => cases ok
            next =>
              obtain ⟨rfl,_⟩ := Prod.mk.inj (Except.ok.inj ok)
              exact ⟨some_,charter,document,Table.has_iff.mpr ⟨name,named⟩,not_not.mp expected,
                Nat.le_of_not_lt small,rfl⟩

theorem keyed_shared {op : String} {key : Option String} {write : Outcome Tables} {data : List UInt8}
    (done : keyed tables op key write = .shared after data) : write = .shared after data := by
  unfold keyed at done
  split at done
  next =>
    split at done
    next => cases done
    next => cases done
  next => exact done

/-- An accepted document: the plan it is from, and where it is put. -/
theorem setWorkspaceDocument_shared {req : SetWorkspaceDocumentRequest} {now : Int} {principal : String}
    {approved : Option String} {data : List UInt8}
    (done : setWorkspaceDocument outside tables req now principal approved = .shared after data) :
    ∃ doc text, planDocument outside tables req now = .ok (doc,text) ∧
      after.workspaces = tables.workspaces ∧ after.documents = tables.documents.insert doc.key doc ∧
      data = outside.encode (delta tables after) := by
  unfold setWorkspaceDocument at done
  split at done
  next => cases done
  next =>
    have done := keyed_shared done
    split at done
    next => cases done
    next doc text planned =>
      split at done
      next => cases done
      next =>
        split at done
        next => cases done
        next =>
          unfold written at done
          obtain ⟨rfl,rfl⟩ := Outcome.shared.inj done
          exact ⟨doc,text,planned,rfl,rfl,rfl⟩

/-- More workspaces, the same documents. -/
theorem WellKept.grow {sha : List UInt8 → String} (kept : WellKept sha tables)
    (documents : after.documents = tables.documents)
    (grown : ∀ id, tables.workspaces.has id = true → after.workspaces.has id = true) :
    WellKept sha after ∧ Stays tables after := by
  refine ⟨⟨documents ▸ kept.histories,fun key doc there => grown _ ?_⟩,fun _ _ _ _ there => documents ▸ there⟩
  exact kept.placed key doc (documents ▸ there)

theorem setWorkspaceDocument_kept {req : SetWorkspaceDocumentRequest} {now : Int} {principal : String}
    {approved : Option String} {data : List UInt8} (kept : WellKept outside.sha256Hex tables)
    (done : setWorkspaceDocument outside tables req now principal approved = .shared after data) :
    WellKept outside.sha256Hex after ∧ Stays tables after := by
  obtain ⟨doc,text,planned,workspaces,documents,_⟩ := setWorkspaceDocument_shared done
  obtain ⟨_,_,_,known,_,_,rfl⟩ := planDocument_ok planned
  have next : current tables.documents req.workspaceId + 1 = current tables.documents req.workspaceId + 1 := rfl
  refine ⟨⟨documents ▸ kept.histories.insert next rfl,fun key doc there => ?_⟩,fun workspaceId r doc _ there => ?_⟩
  · rw [documents,Table.get?_insert] at there
    rw [workspaces]
    split at there
    next =>
      obtain rfl := Option.some.inj there
      exact known
    next => exact kept.placed key doc there
  · rw [documents,Table.get?_insert]
    split
    next same =>
      obtain ⟨rfl,rfl⟩ := keyOf_inj.mp same
      have standing : tables.documents.has (keyOf req.workspaceId (current tables.documents req.workspaceId + 1)) = true :=
        Table.has_iff.mpr ⟨doc,there⟩
      rw [kept.histories.fresh] at standing
      cases standing
    next => exact there

theorem remove_kept {workspaceId : String} {key bound : Option String} {data : List UInt8}
    (kept : WellKept outside.sha256Hex tables) (done : remove outside tables workspaceId key bound = .shared after data) :
    WellKept outside.sha256Hex after ∧ Stays tables after := by
  unfold remove at done
  have done := keyed_shared done
  split at done
  next => cases done
  next =>
    split at done
    next => cases done
    next =>
      obtain ⟨rfl,_⟩ := Outcome.shared.inj done
      have left : ∀ k : DocumentKey, (tables.documents.filter fun key _ => (ofLex key).1 != workspaceId).get? k =
          if (ofLex k).1 = workspaceId then none else tables.documents.get? k := by
        intro k
        rw [Table.get?_filter]
        by_cases own : (ofLex k).1 = workspaceId
        · cases tables.documents.get? k <;> simp [Option.filter,own]
        · cases tables.documents.get? k <;> simp [Option.filter,own]
      have histories := kept.histories.without (fun id => id = workspaceId) left
      refine ⟨⟨histories,fun k doc there => ?_⟩,fun id r doc has there => ?_⟩
      · dsimp only at there ⊢
        rw [left] at there
        split at there
        next => cases there
        next other =>
          have same : doc.workspaceId = (ofLex k).1 := congrArg (fun key => (ofLex key).1) (kept.histories.keyed k doc there)
          rw [Table.has_erase,Bool.and_eq_true,decide_eq_true_eq,same]
          exact ⟨other,same ▸ kept.placed k doc there⟩
      · dsimp only at has ⊢
        rw [Table.has_erase,Bool.and_eq_true,decide_eq_true_eq] at has
        rw [left]
        exact (if_neg has.1).trans there

/-- What a write that is shared leaves. -/
theorem operate_kept {op : Op} {data : List UInt8} (kept : WellKept outside.sha256Hex tables)
    (done : operate outside op tables = .shared after data) :
    WellKept outside.sha256Hex after ∧ Stays tables after := by
  cases op with
  | setDocument req now principal approved => exact setWorkspaceDocument_kept kept done
  | remove workspaceId key bound => exact remove_kept kept done
  | createWorkspace workspaceId name =>
    have done : createWorkspace outside tables workspaceId name = .shared after data := done
    unfold createWorkspace at done
    split at done
    next => cases done
    next =>
      obtain ⟨rfl,_⟩ := Outcome.shared.inj done
      exact kept.grow rfl fun id has => by rw [Table.has_insert,has,Bool.or_true]
  | placing op workspaceId name key checks =>
    have done : placing outside tables op workspaceId name key checks = .shared after data := done
    have done := keyed_shared done
    split at done
    next => cases done
    next =>
      obtain ⟨rfl,_⟩ := Outcome.shared.inj done
      exact kept.grow rfl fun id has => by rw [Table.has_insertOrIgnore,has,Bool.or_true]

/-- Every write of these tables is shared. -/
theorem operate_not_kept (op : Op) : operate outside op tables ≠ .kept after := by
  have keyed_ : ∀ {name : String} {key : Option String} {write : Outcome Tables}, write ≠ .kept after →
      keyed tables name key write ≠ .kept after := by
    intro name key write other
    unfold keyed
    split
    next => split <;> nofun
    next => exact other
  cases op with
  | setDocument req now principal approved =>
    show setWorkspaceDocument outside tables req now principal approved ≠ .kept after
    unfold setWorkspaceDocument
    split
    next => nofun
    next =>
      apply keyed_
      split
      next => nofun
      next =>
        split
        next => nofun
        next => split <;> nofun
  | remove workspaceId key bound =>
    show remove outside tables workspaceId key bound ≠ .kept after
    apply keyed_
    split
    next => nofun
    next => split <;> nofun
  | createWorkspace workspaceId name =>
    show createWorkspace outside tables workspaceId name ≠ .kept after
    unfold createWorkspace
    split <;> nofun
  | placing op workspaceId name key checks =>
    show placing outside tables op workspaceId name key checks ≠ .kept after
    apply keyed_
    split <;> nofun

/-- A journal row from the log extends the histories it finds. -/
def RowExtends (outside : Outside ν) (tables : Tables) (row : JournalRow ν Op) : Prop :=
  match row.change with
  | .entry received => ∀ change, outside.decode received.body.data = .ok change → Extends tables change
  | .snapshot parts supersedes => ∀ change, merged outside parts supersedes tables = .ok change → Extends tables change
  | _ => True

theorem effect_kept {row : JournalRow ν Op} (kept : WellKept outside.sha256Hex tables)
    (extends_ : RowExtends outside tables row) :
    WellKept outside.sha256Hex ((documentRegistry outside).effect tables row) ∧
      Stays tables ((documentRegistry outside).effect tables row) := by
  have still : WellKept outside.sha256Hex tables ∧ Stays tables tables := ⟨kept,.refl tables⟩
  have restored : ∀ {decoded : Except String Change}, (∀ change, decoded = .ok change → Extends tables change) →
      WellKept outside.sha256Hex ((decoded >>= restore outside tables).toOption.getD tables) ∧
        Stays tables ((decoded >>= restore outside tables).toOption.getD tables) := by
    intro decoded each
    cases done : decoded >>= restore outside tables with
    | error => exact still
    | ok after =>
      obtain ⟨change,found,ok⟩ := bind_ok done
      exact restore_kept ok kept (each change found)
  unfold IdentityLog.Registry.effect
  unfold RowExtends at extends_
  split
  next op here =>
    split
    next after done => exact absurd done (operate_not_kept op)
    next after data done => exact operate_kept kept done
    next => exact still
  next received here =>
    rw [here] at extends_
    exact restored extends_
  next parts supersedes here =>
    rw [here] at extends_
    exact restored extends_
  next => exact still

end Steps

end Entorhinal.Documents
