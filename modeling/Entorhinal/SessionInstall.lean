import Entorhinal.SessionRegister

/-! Installing carried bindings: what each reference of the move does to the
receiver's store, and that no row it writes breaks an index. -/
namespace Entorhinal.Session

def inI64 (t : Int) : Bool := decide (i64Min ≤ t ∧ t ≤ i64Max)

namespace CarriedBinding

/-- The times of a decoded row are `i64`. -/
def timesFit (row : CarriedBinding) : Bool :=
  inI64 row.registeredAtMs && row.endedAtMs.all inI64 && row.networkHistory.all fun e => inI64 e.sinceMs

/-- A row as the import leaves it: decoded, and past its checks. -/
structure Imported (row : CarriedBinding) : Prop where
  fits : row.timesFit = true
  checked : row.check = .ok ()

theorem checkHistory_ok {previous : Option Int} {history : List NetworkEntry}
    (ok : checkHistory previous history = .ok ()) :
    history.Pairwise (fun a b => a.sinceMs < b.sinceMs) ∧
      (∀ entry ∈ history, entry.network ∈ networkValues ∧ ∀ p, previous = some p → p < entry.sinceMs) := by
  induction history generalizing previous with
  | nil => exact ⟨.nil,nofun⟩
  | cons entry rest ih =>
    simp only [checkHistory] at ok
    split at ok
    next => cases ok
    next known =>
      split at ok
      next => cases ok
      next later =>
        obtain ⟨sorted,inside⟩ := ih ok
        have first : ∀ p, previous = some p → p < entry.sinceMs := by
          rintro p rfl
          simpa using later
        refine ⟨List.pairwise_cons.mpr ⟨fun e member => (inside e member).2 entry.sinceMs rfl,sorted⟩,?_⟩
        intro e member
        rcases List.mem_cons.mp member with rfl | after
        · exact ⟨by simpa using known,first⟩
        · refine ⟨(inside e after).1,fun p same => ?_⟩
          have above := (inside e after).2 entry.sinceMs rfl
          have below := first p same
          omega

variable {row : CarriedBinding}

/-- Everything a checked row is known to satisfy. -/
structure Checked (row : CarriedBinding) : Prop where
  ref : row.refKind ≠ "" ∧ row.sessionRef ≠ ""
  kind : isBindingRefKind row.refKind = true
  registeredBy : row.registeredBy ∈ ["orchestrator","host","move"]
  paired : row.harness.isSome = row.sessionId.isSome
  holder : ∀ holder, row.heldOn = some holder → holder ≠ "" ∧ row.endedAtMs.isSome = true
  capped : row.networkHistory.length ≤ networkHistoryMax
  values : ∀ entry ∈ row.networkHistory, entry.network ∈ networkValues
  sorted : row.networkHistory.Pairwise (fun a b => a.sinceMs < b.sinceMs)

theorem check_ok (ok : row.check = .ok ()) : row.Checked := by
  unfold check at ok
  split at ok
  next => cases ok
  next ref =>
  split at ok
  next => cases ok
  next kind =>
  split at ok
  next => cases ok
  next registeredBy =>
  split at ok
  next => cases ok
  next paired =>
  split at ok
  next => cases ok
  next holder =>
  split at ok
  next => cases ok
  next capped =>
  obtain ⟨sorted,inside⟩ := checkHistory_ok ok
  have registrar : row.registeredBy ∈ ["orchestrator","host","move"] :=
    List.contains_iff_mem.mp (by simpa only [Bool.not_eq_true',Bool.not_eq_false] using registeredBy)
  refine ⟨?_,by simpa using kind,registrar,by simpa using paired,?_,
    Nat.not_lt.mp capped,fun entry member => (inside entry member).1,sorted⟩
  · simp only [Bool.or_eq_true,not_or,String.isEmpty_iff] at ref
    exact ref
  · intro machine named
    simp only [named,Option.any_some,Option.isSome_some,Bool.true_and,Bool.or_eq_true,not_or,
      String.isEmpty_iff] at holder
    refine ⟨holder.1,?_⟩
    cases ended : row.endedAtMs with
    | none => simp [ended] at holder
    | some t => rfl

theorem checkHistory_of {previous : Option Int} {history : List NetworkEntry}
    (sorted : history.Pairwise fun a b => a.sinceMs < b.sinceMs)
    (values : ∀ entry ∈ history, entry.network ∈ networkValues)
    (after : ∀ p, previous = some p → ∀ entry ∈ history, p < entry.sinceMs) :
    checkHistory previous history = .ok () := by
  induction history generalizing previous with
  | nil => rfl
  | cons entry rest ih =>
    obtain ⟨above,later⟩ := List.pairwise_cons.mp sorted
    have known : networkValues.contains entry.network = true :=
      List.contains_iff_mem.mpr (values entry List.mem_cons_self)
    have fresh : previous.any (fun p => decide (entry.sinceMs ≤ p)) = false := by
      cases previous with
      | none => rfl
      | some p => simpa using after p rfl entry List.mem_cons_self
    simp only [checkHistory,known,fresh,Bool.not_true,Bool.false_eq_true,if_false]
    exact ih later (fun e member => values e (List.mem_cons_of_mem _ member))
      (fun p same e member => Option.some.inj same ▸ above e member)

/-- Nothing else is checked. -/
theorem Checked.ok (checked : row.Checked) : row.check = .ok () := by
  have registrar : ["orchestrator","host","move"].contains row.registeredBy = true :=
    List.contains_iff_mem.mpr checked.registeredBy
  have holder : (row.heldOn.any String.isEmpty || (row.heldOn.isSome && row.endedAtMs.isNone)) = false := by
    cases held : row.heldOn with
    | none => rfl
    | some machine =>
      obtain ⟨named,ended⟩ := checked.holder machine held
      simp [named,ended]
  unfold check
  rw [if_neg (by simp [checked.ref.1,checked.ref.2]),if_neg (by simp [checked.kind]),
    if_neg (by rw [registrar]; simp),if_neg (by simp [checked.paired]),if_neg (by rw [holder]; simp),
    if_neg (Nat.not_lt.mpr checked.capped)]
  exact checkHistory_of checked.sorted checked.values nofun

theorem Imported.rising (imported : row.Imported) : Rising row.networkHistory := by
  refine ⟨(check_ok imported.checked).sorted,fun entry member => ?_⟩
  have fits := imported.fits
  simp only [timesFit,Bool.and_eq_true,List.all_eq_true,inI64,decide_eq_true_eq] at fits
  exact (fits.2 entry member).2

end CarriedBinding

section Install

variable {store store' : SessionStore} {ref : RefKey} {row : SessionBinding}
variable {history : List NetworkEntry}

/-- One binding is inserted, with its history. -/
structure Inserted (store store' : SessionStore) (ref : RefKey) (row : SessionBinding)
    (history : List NetworkEntry) : Prop where
  bindings : store'.bindings = store.bindings.insert ref row
  network : ∀ other, other ≠ ref → store'.network.get? other = store.network.get? other
  history : store'.historyOf ref = history
  frame : store' = { store with bindings := store'.bindings, network := store'.network }

theorem Coherent.noHistory (coherent : Coherent store) (free : store.bindings.has ref = false) :
    store.network.get? ref = none := by
  by_contra recorded
  have bound := coherent.bound ref (Option.isSome_iff_ne_none.mpr recorded)
  rw [free] at bound
  cases bound

theorem Inserted.coherent (coherent : Coherent store) (inserted : Inserted store store' ref row history)
    (apart : ∀ other stored, store.bindings.get? other = some stored → other ≠ ref →
      row.compatible stored = true)
    (ended : row.heldOn.isSome = true → row.endedAtMs.isSome = true) (rising : Rising history) :
    Coherent store' := by
  refine ⟨?_,?_,?_,?_⟩
  · rw [inserted.bindings]
    intro a b left right atA atB different
    simp only [Table.get?_insert] at atA atB
    split at atA <;> split at atB
    next sameA sameB => exact absurd (sameA.trans sameB.symm) different
    next sameA sameB => cases atA; exact apart b right atB sameB
    next sameA sameB => cases atB; rw [compatible_comm]; exact apart a left atA sameA
    next => exact coherent.indexed a b left right atA atB different
  · intro key stored found held
    rw [inserted.bindings,Table.get?_insert] at found
    split at found
    next => cases found; exact ended held
    next => exact coherent.held key stored found held
  · intro key recorded
    rw [inserted.bindings,Table.has_insert]
    by_cases same : key = ref
    · simp [same]
    · have before : store.network.has key = true := by
        rw [Table.has,inserted.network key same] at recorded
        exact recorded
      simp [coherent.bound key before]
  · intro key
    by_cases same : key = ref
    · rw [same,inserted.history]; exact rising
    · have unchanged : store'.historyOf key = store.historyOf key := by
        simp only [SessionStore.historyOf,inserted.network key same]
      rw [unchanged]
      exact coherent.rising key

/-- Entries that go on rising after the history are all recorded. -/
theorem appendEntries (store : SessionStore) (ref : RefKey) (entries : List NetworkEntry)
    (rising : Rising (store.historyOf ref ++ entries)) :
    ∃ store', entries.foldlM (fun store entry => store.appendEntry ref entry) store = .ok store' ∧
      store'.bindings = store.bindings ∧ store'.historyOf ref = store.historyOf ref ++ entries ∧
      (∀ other, other ≠ ref → store'.network.get? other = store.network.get? other) ∧
      store' = { store with network := store'.network } := by
  induction entries generalizing store with
  | nil => exact ⟨store,rfl,rfl,(List.append_nil _).symm,fun _ _ => rfl,rfl⟩
  | cons entry rest ih =>
    have fresh : (store.historyOf ref).any (fun old => old.sinceMs == entry.sinceMs) = false := by
      by_contra clash
      obtain ⟨old,member,same⟩ := List.any_eq_true.mp (Bool.not_eq_false _ ▸ clash)
      have below := (List.pairwise_append.mp rising.1).2.2 old member entry List.mem_cons_self
      exact absurd (beq_iff_eq.mp same) (ne_of_lt below)
    obtain ⟨middle,appended⟩ : ∃ middle, store.appendEntry ref entry = .ok middle := by
      simp only [SessionStore.appendEntry,fresh]
      exact ⟨_,rfl⟩
    obtain ⟨shape,_⟩ := appendEntry_ok appended
    have grown : middle.historyOf ref = store.historyOf ref ++ [entry] := by
      rw [shape]; simp [SessionStore.historyOf]
    obtain ⟨final,done,bindings,history,network,frame⟩ :=
      ih middle (by rw [grown,List.append_assoc]; exact rising)
    refine ⟨final,by rw [List.foldlM_cons,appended]; exact done,?_,?_,?_,?_⟩
    · rw [bindings,shape]
    · rw [history,grown,List.append_assoc,List.singleton_append]
    · intro other different
      rw [network other different,shape,Table.get?_insert,if_neg different]
    · rw [frame,shape]

/-- A binding put in place with its history. -/
theorem insert_with_history (coherent : Coherent store) (free : store.bindings.has ref = false)
    (apart : ∀ other stored, store.bindings.get? other = some stored → other ≠ ref →
      row.compatible stored = true) (rising : Rising history) :
    ∃ written store', store.put ref row = .ok written ∧
      history.foldlM (fun store entry => store.appendEntry ref entry) written = .ok store' ∧
      Inserted store store' ref row history := by
  have empty : ({ store with bindings := store.bindings.insert ref row } : SessionStore).historyOf ref =
      [] := by simp [SessionStore.historyOf,coherent.noHistory free]
  obtain ⟨final,done,bindings,recorded,network,frame⟩ := appendEntries
    { store with bindings := store.bindings.insert ref row } ref history (by rw [empty]; exact rising)
  refine ⟨_,final,put_apart apart,done,bindings,network,?_,?_⟩
  · rw [recorded,empty,List.nil_append]
  · rw [frame]

theorem placeholder_apart (agentId : String) (activatedAtMs : Int) (stored : SessionBinding) :
    (placeholder agentId activatedAtMs).compatible stored = true := by
  simp [placeholder,SessionBinding.compatible]

theorem carriedRowsOf_key {carried : List CarriedBinding} {row : CarriedBinding}
    (found : (carriedRowsOf carried).get? ref = some row) : row ∈ carried ∧ row.key = ref := by
  have general : ∀ rows : Table RefKey CarriedBinding,
      (carried.foldl (fun rows row => rows.insert row.key row) rows).get? ref = some row →
      row ∈ carried ∧ row.key = ref ∨ rows.get? ref = some row := by
    clear found
    induction carried with
    | nil => exact fun rows found => .inr found
    | cons first rest ih =>
      intro rows found
      rcases ih (rows.insert first.key first) found with ⟨member,same⟩ | before
      · exact .inl ⟨List.mem_cons_of_mem _ member,same⟩
      · rw [Table.get?_insert] at before
        split at before
        next same => cases before; exact .inl ⟨List.mem_cons_self,same.symm⟩
        next => exact .inr before
  exact (general ∅ found).resolve_right nofun

theorem not_collides {carried : CarriedBinding} (clear : collides store carried = false)
    (agentId : String) (origin : Option String) {other : RefKey} {stored : SessionBinding}
    (found : store.bindings.get? other = some stored) :
    (carried.binding agentId origin).compatible stored = true := by
  have apart : carried.sharesSession stored = false := by
    by_contra shared
    have clash : collides store carried = true :=
      Table.any_eq_true.mpr ⟨other,stored,found,Bool.not_eq_false _ ▸ shared⟩
    rw [clear] at clash
    cases clash
  simp only [CarriedBinding.sharesSession,Bool.or_eq_false_iff] at apart
  simp only [SessionBinding.compatible,CarriedBinding.binding,Bool.and_eq_true,Bool.not_eq_true']
  exact apart

/-- What installing one reference of the move does: nothing to a reference seen
before or a binding that is there, and otherwise a placeholder, the carried row
with its history, or, for finished metadata whose session is taken, nothing. -/
inductive Installs (agentId : String) (activatedAtMs : Int) (rows : Table RefKey CarriedBinding)
    (state : Installing) (ref : RefKey) : Installing → Prop
  | seen (before : ref ∈ state.seen) : Installs agentId activatedAtMs rows state ref state
  | kept (fresh : ref ∉ state.seen) (has : state.store.bindings.has ref = true) :
    Installs agentId activatedAtMs rows state ref { state with
      seen := state.seen ++ [ref]
      outcome := { state.outcome with
        kept := state.outcome.kept + if (rows.get? ref).isSome then 1 else 0 } }
  | bare (fresh : ref ∉ state.seen) (free : state.store.bindings.has ref = false)
    (absent : rows.get? ref = none) (store : SessionStore)
    (inserted : Inserted state.store store ref (placeholder agentId activatedAtMs) []) :
    Installs agentId activatedAtMs rows state ref { state with
      seen := state.seen ++ [ref]
      store := store }
  | skipped (fresh : ref ∉ state.seen) (free : state.store.bindings.has ref = false)
    (row : CarriedBinding) (found : rows.get? ref = some row)
    (taken : collides state.store row = true) (held : row.heldOn.isSome = true) (own : RefKey) :
    Installs agentId activatedAtMs rows state ref { state with
      seen := state.seen ++ [ref]
      outcome := { state.outcome with
        kept := state.outcome.kept + 1
        skippedFinished := state.outcome.skippedFinished ++ [(ref,own)] } }
  | placeholder (fresh : ref ∉ state.seen) (free : state.store.bindings.has ref = false)
    (row : CarriedBinding) (found : rows.get? ref = some row)
    (taken : collides state.store row = true) (unheld : row.heldOn = none) (store : SessionStore)
    (inserted : Inserted state.store store ref (placeholder agentId activatedAtMs)
      row.networkHistory) :
    Installs agentId activatedAtMs rows state ref { state with
      seen := state.seen ++ [ref]
      store := store
      outcome := { state.outcome with placeholders := state.outcome.placeholders + 1 } }
  | installed (fresh : ref ∉ state.seen) (free : state.store.bindings.has ref = false)
    (row : CarriedBinding) (found : rows.get? ref = some row)
    (clear : collides state.store row = false) (store : SessionStore)
    (inserted : Inserted state.store store ref (row.binding agentId state.store.storeOrigin)
      row.networkHistory) :
    Installs agentId activatedAtMs rows state ref { state with
      seen := state.seen ++ [ref]
      store := store
      outcome := { state.outcome with installed := state.outcome.installed + 1 } }

variable {agentId : String} {activatedAtMs : Int} {rows : Table RefKey CarriedBinding}
variable {state state' : Installing}

/-- Installing a reference of imported rows never fails. -/
theorem installRef_installs (coherent : Coherent state.store)
    (imported : ∀ ref row, rows.get? ref = some row → row.Imported ∧ row.key = ref) (ref : RefKey) :
    ∃ state', installRef agentId activatedAtMs rows state ref = .ok state' ∧
      Installs agentId activatedAtMs rows state ref state' := by
  unfold installRef
  by_cases before : ref ∈ state.seen
  · exact ⟨state,by simp [before],.seen before⟩
  · have fresh : state.seen.contains ref = false := by simpa using before
    simp only [fresh,Bool.false_eq_true,if_false]
    cases has : state.store.bindings.has ref with
    | true => exact ⟨_,rfl,.kept before has⟩
    | false =>
      simp only [Bool.false_eq_true,if_false]
      cases found : rows.get? ref with
      | none =>
        obtain ⟨written,store,puts,done,inserted⟩ := @insert_with_history _ _ _ [] coherent has
          (fun _ stored _ _ => placeholder_apart agentId activatedAtMs stored) ⟨.nil,nofun⟩
        cases done
        refine ⟨_,?_,.bare before has found written inserted⟩
        simp only [insertPlaceholder,has,Bool.false_eq_true,if_false,puts]
        rfl
      | some row =>
        obtain ⟨accepted,key⟩ := imported ref row found
        simp only [installRow]
        cases taken : collides state.store row with
        | true =>
          cases held : row.heldOn with
          | some machine =>
            cases looked : state.store.bindings.find? fun _ stored => row.sharesSession stored with
            | none =>
              obtain ⟨other,stored,present,shared⟩ := Table.any_eq_true.mp taken
              rw [Table.find?_none.mp looked other stored present] at shared
              cases shared
            | some own =>
              refine ⟨_,?_,.skipped before has row found taken (by rw [held]; rfl) own.1⟩
              simp only [Option.isSome_some,if_true]
              rfl
          | none =>
            obtain ⟨written,store,puts,done,inserted⟩ := @insert_with_history _ _ _
              row.networkHistory coherent has
              (fun _ stored _ _ => placeholder_apart agentId activatedAtMs stored) accepted.rising
            refine ⟨_,?_,.placeholder before has row found taken held store inserted⟩
            simp only [insertPlaceholder,has,key,puts,done,Option.isSome_none,Bool.false_eq_true,
              if_false,if_true,bind,Except.bind]
            rfl
        | false =>
          obtain ⟨written,store,puts,done,inserted⟩ := @insert_with_history _ _ _
            row.networkHistory coherent has
            (fun _ stored present _ => not_collides taken agentId state.store.storeOrigin present)
            accepted.rising
          refine ⟨_,?_,.installed before has row found taken store inserted⟩
          simp only [SessionStore.insertBinding,has,key,puts,done,Bool.false_eq_true,if_false,bind,
            Except.bind]
          rfl

/-- Bindings and histories that were there stay, and what is new is the agent's. -/
structure Extends (store store' : SessionStore) (agentId : String) : Prop where
  kept : ∀ key row, store.bindings.get? key = some row → store'.bindings.get? key = some row
  fresh : ∀ key row, store'.bindings.get? key = some row →
    store.bindings.get? key = some row ∨ store.bindings.get? key = none ∧ row.agentId = agentId
  histories : ∀ key, store.bindings.has key = true → store'.network.get? key = store.network.get? key
  frame : store' = { store with bindings := store'.bindings, network := store'.network }

theorem Extends.refl (store : SessionStore) (agentId : String) : Extends store store agentId :=
  ⟨fun _ _ found => found,fun _ _ found => .inl found,fun _ _ => rfl,rfl⟩

theorem Extends.trans {middle : SessionStore} (first : Extends store middle agentId)
    (second : Extends middle store' agentId) : Extends store store' agentId := by
  refine ⟨fun key row found => second.kept key row (first.kept key row found),?_,?_,?_⟩
  · intro key row found
    rcases second.fresh key row found with before | ⟨absent,ours⟩
    · exact first.fresh key row before
    · refine .inr ⟨?_,ours⟩
      by_contra there
      obtain ⟨old,present⟩ := Option.ne_none_iff_exists'.mp there
      rw [first.kept key old present] at absent
      cases absent
  · intro key has
    obtain ⟨row,found⟩ := Table.has_iff.mp has
    rw [second.histories key (Table.has_iff.mpr ⟨row,first.kept key row found⟩),
      first.histories key has]
  · rw [second.frame,first.frame]

theorem Inserted.grows (inserted : Inserted store store' ref row history)
    (free : store.bindings.has ref = false) (ours : row.agentId = agentId) :
    Extends store store' agentId := by
  have absent : store.bindings.get? ref = none := by simpa [Table.has] using free
  refine ⟨?_,?_,?_,inserted.frame⟩
  · intro key stored found
    have away : key ≠ ref := by
      rintro rfl
      rw [absent] at found
      cases found
    rw [inserted.bindings,Table.get?_insert,if_neg away]
    exact found
  · intro key stored found
    rw [inserted.bindings,Table.get?_insert] at found
    split at found
    next same => cases found; exact .inr ⟨same ▸ absent,ours⟩
    next => exact .inl found
  · intro key has
    refine inserted.network key ?_
    rintro rfl
    rw [free] at has
    cases has

theorem Installs.grows (installs : Installs agentId activatedAtMs rows state ref state') :
    Extends state.store state'.store agentId := by
  cases installs with
  | seen | kept | skipped => exact .refl _ _
  | bare fresh free absent store inserted => exact inserted.grows free rfl
  | placeholder fresh free row found taken unheld store inserted => exact inserted.grows free rfl
  | installed fresh free row found clear store inserted => exact inserted.grows free rfl

theorem Installs.coherent (coherent : Coherent state.store)
    (imported : ∀ ref row, rows.get? ref = some row → row.Imported ∧ row.key = ref)
    (installs : Installs agentId activatedAtMs rows state ref state') : Coherent state'.store := by
  cases installs with
  | seen | kept | skipped => exact coherent
  | bare fresh free absent store inserted =>
    exact inserted.coherent coherent (fun _ stored _ _ => placeholder_apart _ _ stored) nofun
      ⟨.nil,nofun⟩
  | placeholder fresh free row found taken unheld store inserted =>
    exact inserted.coherent coherent (fun _ stored _ _ => placeholder_apart _ _ stored) nofun
      (imported ref row found).1.rising
  | installed fresh free row found clear store inserted =>
    refine inserted.coherent coherent (fun _ stored present _ => not_collides clear _ _ present) ?_
      (imported ref row found).1.rising
    intro held
    obtain ⟨machine,named⟩ := Option.isSome_iff_exists.mp held
    exact ((CarriedBinding.check_ok (imported ref row found).1.checked).holder machine
      (Option.filter_eq_some_iff.mp named).1).2

/-- Installing imported rows never fails; it adds bindings of the agent and
changes none that were there. -/
theorem installMovedBindings_ok (coherent : Coherent store) {carried : List CarriedBinding}
    (imported : ∀ row ∈ carried, row.Imported) (agentId : String) (activatedAtMs : Int)
    (refs : List RefKey) :
    ∃ store' outcome, installMovedBindings store agentId activatedAtMs refs carried =
      .ok (store',outcome) ∧ Coherent store' ∧ Extends store store' agentId := by
  have sound : ∀ ref row, (carriedRowsOf carried).get? ref = some row → row.Imported ∧ row.key = ref :=
    fun ref row found => ⟨imported row (carriedRowsOf_key found).1,(carriedRowsOf_key found).2⟩
  obtain ⟨final,done,coherent',extended⟩ := @foldlM_total _ _ _
    (fun state : Installing => Coherent state.store ∧ Extends store state.store agentId)
    (installRef agentId activatedAtMs (carriedRowsOf carried)) (refs ++ metadataRefs (carriedRowsOf carried))
    (fun state ref _ holds => by
      obtain ⟨state',taken,installs⟩ := installRef_installs holds.1 sound ref
      exact ⟨state',taken,installs.coherent holds.1 sound,holds.2.trans installs.grows⟩)
    ⟨store,.none,[]⟩ ⟨coherent,.refl store agentId⟩
  refine ⟨final.store,final.outcome,?_,coherent',extended⟩
  simp only [installMovedBindings,done,bind,Except.bind]
  rfl

/-- At most one move of an agent is open. -/
def OneOpen (moves : Table String OpenMove) : Prop :=
  ∀ a b left right, moves.get? a = some left → moves.get? b = some right →
    left.step.isTerminal = false → right.step.isTerminal = false → left.agentId = right.agentId → a = b

theorem writeMove_ok {cutId : String} {current row : OpenMove} (oneOpen : OneOpen store.moves)
    (found : store.moves.get? cutId = some current) (isOpen : current.step.isTerminal = false)
    (same : row.agentId = current.agentId) :
    store.writeMove cutId row = .ok { store with moves := store.moves.insert cutId row } := by
  have alone : store.otherOpenMove cutId row.agentId = false := by
    by_contra clash
    obtain ⟨other,m,present,clash⟩ := Table.any_eq_true.mp (Bool.not_eq_false _ ▸ clash)
    simp only [Bool.and_eq_true,bne_iff_ne,beq_iff_eq,Bool.not_eq_true'] at clash
    exact clash.1.1 (oneOpen other cutId m current present found clash.2 isOpen
      (clash.1.2.trans same))
  simp [SessionStore.writeMove,alone]

theorem forM_cases {items : List RefKey} {check : RefKey → Except AgentMutationError Unit} :
    items.forM check = .ok () ∨ ∃ item ∈ items, ∃ e, check item = .error e ∧ items.forM check = .error e := by
  induction items with
  | nil => exact .inl rfl
  | cons item rest ih =>
    have unfolded : (item :: rest).forM check = (check item >>= fun _ => rest.forM check) := rfl
    cases first : check item with
    | error e => exact .inr ⟨item,List.mem_cons_self,e,first,by rw [unfolded,first]; rfl⟩
    | ok =>
      rcases ih with done | ⟨other,inside,e,failed,failing⟩
      · exact .inl (by rw [unfolded,first]; exact done)
      · exact .inr ⟨other,List.mem_cons_of_mem _ inside,e,failed,by rw [unfolded,first]; exact failing⟩

/-- An activation by the cut's own row is refused with nothing written, or adds
the agent's bindings and records the step. -/
theorem activateAgentMoveCarrying_cases (coherent : Coherent store) (oneOpen : OneOpen store.moves)
    {carried : List CarriedBinding} (imported : ∀ row ∈ carried, row.Imported) {cutId : String}
    {row : OpenMove} {activatedAtMs : Option Int} {refs : List RefKey}
    (ours : ∀ current, store.moves.get? cutId = some current → row.agentId = current.agentId) :
    (∃ e, activateAgentMoveCarrying store cutId row activatedAtMs refs carried = .error e ∧
      e ≠ ⟨"storage_error","UNIQUE constraint failed",[]⟩) ∨
    ∃ current installed outcome, store.moves.get? cutId = some current ∧
      current.side = .receiver ∧ current.step = .activating ∧ row.step = .activated ∧
      (∀ ref ∈ refs, ∀ bound, store.bindings.get? ref = some bound → bound.agentId = row.agentId) ∧
      Coherent installed ∧ Extends store installed row.agentId ∧
      activateAgentMoveCarrying store cutId row activatedAtMs refs carried =
        .ok ({ installed with moves := store.moves.insert cutId row },outcome) := by
  unfold activateAgentMoveCarrying
  cases found : store.moves.get? cutId with
  | none => exact .inl ⟨_,rfl,by simp⟩
  | some current =>
    cases activatedAtMs with
    | none => exact .inl ⟨_,rfl,by simp⟩
    | some activatedAtMs =>
      simp only
      split
      next => exact .inl ⟨_,rfl,by simp⟩
      next legal =>
        simp only [not_or,not_not] at legal
        obtain ⟨side,step,activated⟩ := legal
        rcases @forM_cases refs (checkOwner store row.agentId) with
          free | ⟨ref,inside,e,failed,failing⟩
        · obtain ⟨installed,outcome,done,coherent',extended⟩ :=
            installMovedBindings_ok coherent imported row.agentId activatedAtMs refs
          have moves : installed.moves = store.moves := by rw [extended.frame]
          have written := @writeMove_ok installed _ _ row (moves ▸ oneOpen)
            (moves ▸ found) (by rw [step]; rfl) (ours current found)
          refine .inr ⟨current,installed,outcome,rfl,side,step,activated,?_,coherent',extended,?_⟩
          · intro ref inside bound present
            have passed := forM_ok free ref inside
            simp only [checkOwner,present] at passed
            split at passed
            next => cases passed
            next same => exact not_not.mp same
          · simp only [free,done,written,moves,bind,Except.bind]
            rfl
        · refine .inl ⟨e,by simp only [failing,bind,Except.bind],?_⟩
          rintro rfl
          unfold checkOwner at failed
          split at failed
          next =>
            split at failed
            next => simp [refuse] at failed
            next => cases failed
          next => cases failed

end Install
end Entorhinal.Session
