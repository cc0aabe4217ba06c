import Entorhinal.SessionAccount
import Entorhinal.SessionFreeze
import Entorhinal.SessionStream

/-! What a source exports, a receiver installs: every registration leaves rows that pass
the import, the stream gives them back, and the activation accounts for each. -/
namespace Entorhinal.SessionArrival
open Session Transition
open SessionRuns (Call Fresh perform)
open SessionFreeze (Label next Allowed)

def Named (ref : RefKey) : Prop := (ofLex ref).1 ≠ "" ∧ (ofLex ref).2 ≠ ""

/-- What the import asks of a row, as far as one binding shows it. -/
structure RowFits (key : RefKey) (row : SessionBinding) : Prop where
  named : Named key
  registrar : row.registeredBy ∈ ["orchestrator","host","move"]
  paired : row.harness.isSome = row.sessionId.isSome
  holder : row.heldOn ≠ some ""
  times : inI64 row.registeredAtMs = true ∧ row.endedAtMs.all inI64 = true

structure HistoryFits (history : List NetworkEntry) : Prop where
  short : history.length ≤ networkHistoryMax
  entries : ∀ entry ∈ history, entry.network ∈ networkValues ∧ inI64 entry.sinceMs = true

structure Exportable (store : SessionStore) : Prop where
  rows : ∀ key row, store.bindings.get? key = some row → RowFits key row
  histories : ∀ key, HistoryFits (store.historyOf key)
  origin : store.storeOrigin ≠ some ""

/-- What the callers of the store check or are typed to give: references and
registrars of the wire, `i64` times. The references of a received move were
bindings of the machine that wrote its record. -/
def Bounded : Call → Prop
  | .register request _ => Named request.key ∧
    request.registeredBy ∈ ["orchestrator","host","move"] ∧ inI64 request.nowMs = true
  | .endSession _ _ _ nowMs => inI64 nowMs = true
  | .stampGone stamps => ∀ stamp ∈ stamps, inI64 stamp.endedAtMs = true
  | .activate _ _ activatedAtMs refs _ => activatedAtMs.all inI64 = true ∧ ∀ ref ∈ refs, Named ref
  | _ => True

def Lawful (store : SessionStore) : Label → Prop
  | .call call => call.Real store ∧ Bounded call
  | .outside _ _ _ _ _ origin => origin ≠ some ""
  | _ => True

theorem Lawful.allowed {store : SessionStore} {label : Label} (lawful : Lawful store label) :
    Allowed store label := by
  cases label with
  | call call => exact lawful.1
  | _ => trivial

section Exports

variable {store store' : SessionStore} {key ref : RefKey} {row : SessionBinding}
variable {history : List NetworkEntry}

theorem HistoryFits.nil : HistoryFits [] := ⟨Nat.zero_le _,nofun⟩

theorem HistoryFits.append {entry : NetworkEntry} (fits : HistoryFits history)
    (room : history.length < networkHistoryMax) (value : entry.network ∈ networkValues)
    (time : inI64 entry.sinceMs = true) : HistoryFits (history ++ [entry]) := by
  refine ⟨by rw [List.length_append]; exact room,fun other member => ?_⟩
  rcases List.mem_append.mp member with old | new
  · exact fits.entries other old
  · rw [List.mem_singleton.mp new]
    exact ⟨value,time⟩

/-- The new entry of a rising history is an `i64` when the clock's reading is. -/
theorem HistoryFits.grows {now : Int} {after : List NetworkEntry} (fits : HistoryFits history)
    (clock : inI64 now = true) (rising : Rising after) (grown : Grows now history after) :
    HistoryFits after := by
  rcases grown with rfl | ⟨entry,rfl,value,since,room⟩
  · exact fits
  · have below := rising.2 entry (by simp)
    have above := (of_decide_eq_true clock).1
    exact fits.append room value (decide_eq_true ⟨above.trans since,below⟩)

theorem RowFits.ended (fits : RowFits key row) {t : Int} (time : inI64 t = true)
    (runner : Option String) : RowFits key { row with endedAtMs := some t, runner := runner } :=
  ⟨fits.named,fits.registrar,fits.paired,fits.holder,fits.times.1,time⟩

theorem register_exportable (coherent : Coherent store) (exportable : Exportable store)
    {request : SessionRegistration} {commitMs : Int} (clock : inI64 commitMs = true)
    (bounded : Bounded (.register request commitMs))
    (ok : registerSession store request commitMs = .ok store') : Exportable store' := by
  obtain ⟨named,registrar,time⟩ := bounded
  rcases registerSession_cases store request commitMs with ⟨e,refused,_⟩ | ⟨route,plan,passes⟩
  · rw [refused] at ok; cases ok
  rcases passes.takes coherent (of_decide_eq_true clock).2 with ⟨_,_,failed⟩ |
    ⟨_,final,done,takes,coherent',grown⟩
  · rw [failed] at ok; cases ok
  obtain rfl := Except.ok.inj (done.symm.trans ok)
  obtain ⟨own,here,isOpen,unheld,harness,session,_,registered⟩ := takes.opened
  refine ⟨?_,?_,by rw [takes.frame]; exact exportable.origin⟩
  · intro key row found
    by_cases same : key = request.key
    · subst same
      obtain rfl : own = row := Option.some.inj (here.symm.trans found)
      refine ⟨named,?_,by rw [harness,session]; rfl,by rw [unheld]; nofun,?_,by rw [isOpen]; rfl⟩
      · rcases registered with asked | ⟨old,present,kept⟩
        · exact asked ▸ registrar
        · exact kept ▸ (exportable.rows _ old present).registrar
      · rw [takes.stamped own here]
        exact time
    · rw [takes.others key same] at found
      split at found
      next => cases found
      next => exact exportable.rows key row found
  · intro key
    by_cases same : key = request.key
    · subst same
      exact (exportable.histories route.previous).grows clock (coherent'.rising _) grown
    · rw [SessionStore.historyOf,takes.network key same]
      split
      next => exact .nil
      next => exact exportable.histories key

theorem setNetwork_exportable (coherent : Coherent store) (exportable : Exportable store)
    {harness sessionId network : String} {now : Int} (clock : inI64 now = true) {change : NetworkChange}
    (ok : setSessionNetwork store harness sessionId network now = .ok (store',change)) :
    Exportable store' := by
  unfold setSessionNetwork at ok
  split at ok
  next => cases ok
  next =>
    split at ok
    next => cases ok
    next key row looked =>
      rcases planNetwork_cases store key network with
        ⟨code,message,refused,_⟩ | ⟨current,planned⟩ | ⟨planned,listed,room⟩
      · rw [refused] at ok; cases ok
      · rw [planned] at ok; cases ok; exact exportable
      · rw [planned] at ok
        simp only [bind,Except.bind] at ok
        obtain ⟨full,stamped⟩ := @applyNetworkPlan_append _ _ network _ (coherent.rising key)
          (of_decide_eq_true clock).2
        by_cases last : (store.historyOf key).getLast?.map (·.sinceMs) = some i64Max
        · rw [full last] at ok; cases ok
        · obtain ⟨entry,value,since,rises,recorded⟩ := stamped last
          rw [recorded] at ok
          cases ok
          refine ⟨exportable.rows,fun other => ?_,exportable.origin⟩
          by_cases same : other = key
          · have grown := (exportable.histories key).grows clock rises
              (.inr ⟨entry,rfl,value ▸ listed,since,room⟩)
            rw [same]
            simpa only [SessionStore.historyOf,Table.get?_insert,if_true,Option.getD_some] using grown
          · have kept := exportable.histories other
            simpa only [SessionStore.historyOf,Table.get?_insert,if_neg same] using kept

theorem inserted_exportable (exportable : Exportable store)
    (inserted : Inserted store store' ref row history) (fits : RowFits ref row)
    (recorded : HistoryFits history) : Exportable store' := by
  refine ⟨?_,?_,by rw [inserted.frame]; exact exportable.origin⟩
  · intro key stored found
    rw [inserted.bindings,Table.get?_insert] at found
    split at found
    next same => cases found; exact same ▸ fits
    next => exact exportable.rows key stored found
  · intro key
    by_cases same : key = ref
    · rw [same,inserted.history]; exact recorded
    · rw [SessionStore.historyOf,inserted.network key same]
      exact exportable.histories key

variable {carried : CarriedBinding} {agentId : String} {activatedAtMs : Int}

theorem placeholder_fits (named : Named ref) (time : inI64 activatedAtMs = true) :
    RowFits ref (placeholder agentId activatedAtMs) :=
  ⟨named,show "move" ∈ _ by simp,rfl,nofun,time,rfl⟩

theorem binding_fits (imported : carried.Imported) (origin : Option String) :
    RowFits carried.key (carried.binding agentId origin) := by
  have checked := CarriedBinding.check_ok imported.checked
  have fits := imported.fits
  simp only [CarriedBinding.timesFit,Bool.and_eq_true] at fits
  refine ⟨checked.ref,checked.registeredBy,checked.paired,?_,fits.1⟩
  intro nameless
  exact (checked.holder "" (Option.filter_eq_some_iff.mp nameless).1).1 rfl

theorem history_fits (imported : carried.Imported) : HistoryFits carried.networkHistory := by
  have checked := CarriedBinding.check_ok imported.checked
  have fits := imported.fits
  simp only [CarriedBinding.timesFit,Bool.and_eq_true,List.all_eq_true] at fits
  exact ⟨checked.capped,fun entry member => ⟨checked.values entry member,fits.2 entry member⟩⟩

theorem installs_exportable {rows : Table RefKey CarriedBinding} {state state' : Installing}
    (imported : ∀ ref row, rows.get? ref = some row → row.Imported ∧ row.key = ref)
    (named : Named ref) (time : inI64 activatedAtMs = true) (exportable : Exportable state.store)
    (installs : Installs agentId activatedAtMs rows state ref state') : Exportable state'.store := by
  cases installs with
  | seen | kept | skipped => exact exportable
  | bare fresh free absent store inserted =>
    exact inserted_exportable exportable inserted (placeholder_fits named time) .nil
  | placeholder fresh free row found taken unheld store inserted =>
    exact inserted_exportable exportable inserted (placeholder_fits named time)
      (history_fits (imported ref row found).1)
  | installed fresh free row found clear store inserted =>
    obtain ⟨accepted,here⟩ := imported ref row found
    exact inserted_exportable exportable inserted (here ▸ binding_fits accepted _) (history_fits accepted)

theorem installMovedBindings_exportable (coherent : Coherent store) (exportable : Exportable store)
    {rows : List CarriedBinding} (imported : ∀ row ∈ rows, row.Imported)
    (time : inI64 activatedAtMs = true) {refs : List RefKey} (named : ∀ ref ∈ refs, Named ref)
    {outcome : CarriedInstall}
    (ok : installMovedBindings store agentId activatedAtMs refs rows = .ok (store',outcome)) :
    Exportable store' := by
  obtain ⟨final,done,same⟩ := bind_ok ok
  cases same
  have sound : ∀ ref row, (carriedRowsOf rows).get? ref = some row → row.Imported ∧ row.key = ref :=
    fun ref row found => ⟨imported row (carriedRowsOf_key found).1,(carriedRowsOf_key found).2⟩
  have all : ∀ ref ∈ refs ++ metadataRefs (carriedRowsOf rows), Named ref := by
    intro ref member
    rcases List.mem_append.mp member with planned | metadata
    · exact named ref planned
    · obtain ⟨row,found⟩ := Table.has_iff.mp (Table.mem_keys.mp metadata)
      rw [Table.get?_filter] at found
      obtain ⟨accepted,here⟩ := sound ref row (Option.filter_eq_some_iff.mp found).1
      exact here ▸ (CarriedBinding.check_ok accepted.checked).ref
  refine (foldlM_mem (fun state : Installing => Coherent state.store ∧ Exportable state.store) ?_
    ⟨coherent,exportable⟩ done).2
  intro state ref state' member ⟨sane,fits⟩ taken
  obtain ⟨state'',same,installs⟩ := @installRef_installs agentId activatedAtMs _ _ sane
    sound ref
  obtain rfl := Except.ok.inj (same.symm.trans taken)
  exact ⟨installs.coherent sane sound,installs_exportable sound (all ref member) time fits installs⟩

theorem activate_ok {cutId : String} {row : OpenMove} {activatedAtMs : Option Int} {refs : List RefKey}
    {rows : List CarriedBinding} {outcome : CarriedInstall}
    (ok : activateAgentMoveCarrying store cutId row activatedAtMs refs rows = .ok (store',outcome)) :
    ∃ at' installed, activatedAtMs = some at' ∧
      installMovedBindings store row.agentId at' refs rows = .ok (installed,outcome) ∧
      store' = { installed with moves := store'.moves } := by
  unfold activateAgentMoveCarrying at ok
  split at ok
  next => cases ok
  next =>
    split at ok
    next => cases ok
    next at' =>
      split at ok
      next => cases ok
      next =>
        obtain ⟨_,_,ok⟩ := bind_ok ok
        obtain ⟨⟨installed,did⟩,done,ok⟩ := bind_ok ok
        obtain ⟨written,wrote,ok⟩ := bind_ok ok
        cases ok
        refine ⟨at',installed,rfl,done,?_⟩
        unfold SessionStore.writeMove at wrote
        split at wrote
        next => cases wrote
        next => cases wrote; rfl

theorem perform_exportable (coherent : Coherent store) (exportable : Exportable store) {call : Call}
    (real : call.Real store) (bounded : Bounded call)
    (performed : perform store call = some (.ok store')) : Exportable store' := by
  cases call with
  | register request commitMs =>
    exact register_exportable coherent exportable real bounded (Option.some.inj performed)
  | endSession harness sessionId runner nowMs =>
    obtain ⟨_,_,left⟩ := map_ok (Option.some.inj performed)
    have left : (Session.endSession store harness sessionId runner nowMs).1 = store' := left
    rcases endSession_cases coherent.indexed harness sessionId runner nowMs with
      ⟨result,same,_⟩ | ⟨owner,stored,looked,_,_,ended⟩
    · rw [← left,same]; exact exportable
    · rw [← left,ended]
      refine ⟨fun key row found => ?_,exportable.histories,exportable.origin⟩
      obtain ⟨row,before,⟨rfl,_⟩ | ⟨rfl,rfl,rfl⟩⟩ := endBindings_get coherent.indexed looked found
      · exact exportable.rows key _ before
      · exact (exportable.rows key _ before).ended bounded _
  | stampGone stamps =>
    cases performed
    refine ⟨fun key row found => ?_,exportable.histories,exportable.origin⟩
    obtain ⟨row,before,rfl | ⟨stamp,member,_,rfl⟩⟩ := stampGoneSessions_get stamps found
    · exact exportable.rows key _ before
    · exact (exportable.rows key _ before).ended (bounded stamp member) _
  | setNetwork harness sessionId network now =>
    obtain ⟨⟨after,change⟩,done,rfl⟩ := map_ok (Option.some.inj performed)
    exact setNetwork_exportable coherent exportable real done
  | prune nowMs selected =>
    obtain ⟨after,pruned,same⟩ := Option.map_eq_some_iff.mp performed
    cases same
    refine ⟨fun key row found => exportable.rows key row ((prune_ok pruned key).2 row found),?_,?_⟩
    all_goals
      unfold pruneEndedSessions at pruned
      simp only at pruned
      split at pruned
      next =>
        cases pruned
        first
        | exact exportable.origin
        | intro key
          have fits := exportable.histories key
          simp only [SessionStore.historyOf,SessionStore.deleteBindings,Table.get?_filter] at fits ⊢
          cases recorded : store.network.get? key with
          | none => exact .nil
          | some history =>
            rw [recorded] at fits
            rw [Option.filter_some]
            split
            next => exact fits
            next => exact .nil
      next => cases pruned
  | activate cutId row activatedAtMs refs rows =>
    obtain ⟨⟨after,outcome⟩,done,rfl⟩ := map_ok (Option.some.inj performed)
    obtain ⟨at',installed,rfl,wrote,same⟩ := activate_ok done
    have fits := installMovedBindings_exportable coherent exportable real.1 bounded.1 bounded.2 wrote
    rw [same]
    exact ⟨fits.rows,fits.histories,fits.origin⟩

/-- The transactions of the moves write their checkpoints alone. -/
theorem insertMove_exportable (exportable : Exportable store) {cutId : String} {m : OpenMove}
    (inserted : store.insertMove cutId m = .ok store') : Exportable store' := by
  obtain ⟨_,rfl⟩ := SessionFreeze.insertMove_ok inserted
  exact ⟨exportable.rows,exportable.histories,exportable.origin⟩

theorem exportable_step (coherent : Coherent store) (exportable : Exportable store) {label : Label}
    (lawful : Lawful store label) (taken : next store label = some store') : Exportable store' := by
  cases label with
  | call call =>
    obtain ⟨result,performed,rfl⟩ := Option.map_eq_some_iff.mp taken
    cases result with
    | error e => exact exportable
    | ok after => exact perform_exportable coherent exportable lawful.1 lawful.2 performed
  | admitting a pinsSame =>
    obtain rfl := Option.some.inj taken
    rcases SessionFreeze.settle_cases store (admitMove store a pinsSame) with same | ⟨after,ok,same⟩
    · exact same.symm ▸ exportable
    · obtain ⟨m,_,_,_,_,inserted,_⟩ := SessionFreeze.admitMove_ok ok
      exact same.symm ▸ insertMove_exportable exportable inserted
  | receive cutId row =>
    obtain rfl := Option.some.inj taken
    rcases SessionFreeze.settle_cases store (admitReceivedMove store cutId row) with
      same | ⟨after,ok,same⟩
    · exact same.symm ▸ exportable
    · rcases (SessionFreeze.admitReceivedMove_ok ok).2.2 with ⟨_,rfl⟩ | ⟨_,inserted⟩
      · exact same.symm ▸ exportable
      · exact same.symm ▸ insertMove_exportable exportable inserted
  | advance cutId step =>
    simp only [next,SessionFreeze.advanceMove] at taken
    split at taken
    next => cases taken
    next =>
      split at taken
      next => cases taken; exact ⟨exportable.rows,exportable.histories,exportable.origin⟩
      next => cases taken
  | outside cutOver agents claims self memberName origin =>
    cases taken
    exact ⟨exportable.rows,exportable.histories,lawful⟩

/-- Every state of every run is fit to export from. -/
theorem exportable_reach {start : SessionStore} (fresh : Fresh start) (named : start.storeOrigin ≠ some "")
    (reached : Reach next Lawful start store) :
    Coherent store ∧ OneOpen store.moves ∧ Exportable store := by
  have empty : Exportable start := by
    refine ⟨fun key row found => ?_,fun key => ?_,named⟩
    · rw [fresh.bindings] at found; cases found
    · rw [SessionStore.historyOf,fresh.network]; exact .nil
  obtain ⟨coherent,oneOpen⟩ := SessionFreeze.coherent_reach fresh .refl
  refine reached.invariant (fun store => Coherent store ∧ OneOpen store.moves ∧ Exportable store)
    ⟨coherent,oneOpen,empty⟩ ?_
  rintro store label store' ⟨coherent,oneOpen,exportable⟩ lawful taken
  obtain ⟨coherent',oneOpen'⟩ := SessionFreeze.coherent_step coherent oneOpen lawful.allowed taken
  exact ⟨coherent',oneOpen',exportable_step coherent exportable lawful taken⟩

/-- An exported row: a binding of the agent as it is stored, with its history; a
finished row outside the plan names the machine that holds its data. -/
structure Exported (store : SessionStore) (m : OpenMove) (row : CarriedBinding) : Prop where
  stored : ∃ binding heldOn, store.bindings.get? row.key = some binding ∧
    binding.agentId = m.agentId ∧ row = { row with
      runner := binding.runner
      harness := binding.harness
      sessionId := binding.sessionId
      projectRoot := binding.projectRoot
      registeredBy := binding.registeredBy
      registeredAtMs := binding.registeredAtMs
      endedAtMs := binding.endedAtMs
      networkHistory := store.historyOf row.key
      heldOn := heldOn } ∧
    (heldOn = binding.heldOn ∨ heldOn = store.storeOrigin)
  holder : row.heldOn.isSome = true → row.endedAtMs.isSome = true
  covered : row.key ∈ planBindingRefs m ∨ row.heldOn.isSome = true

theorem nameHolder_ok {planned : List RefKey} {row row' : CarriedBinding}
    (ok : nameHolder store planned row = .ok row') : ∃ heldOn, row' = { row with heldOn := heldOn } ∧
      (heldOn = row.heldOn ∧ (row.key ∈ planned ∨ row.heldOn.isSome = true) ∨
        row.key ∉ planned ∧ heldOn = store.storeOrigin ∧ heldOn.isSome = true) := by
  unfold nameHolder at ok
  split at ok
  next outside =>
    simp only [Bool.and_eq_true,Bool.not_eq_true',Option.isNone_iff_eq_none] at outside
    split at ok
    next => cases ok
    next origin named =>
      cases ok
      refine ⟨some origin,rfl,.inr ⟨?_,named.symm,rfl⟩⟩
      intro member
      rw [List.contains_iff_mem.mpr member] at outside
      cases outside.1
  next inside =>
    cases ok
    refine ⟨row.heldOn,rfl,.inl ⟨rfl,?_⟩⟩
    by_contra neither
    rw [not_or] at neither
    exact inside (by simp [neither.1,Option.not_isSome_iff_eq_none.mp neither.2])

theorem carriedRows_ascending (store : SessionStore) (agentId : String) :
    (carriedRows store agentId).Pairwise fun a b => a.key < b.key :=
  List.pairwise_map.mpr (Table.sorted _)

theorem exported {cutId : String} {m : OpenMove} (coherent : Coherent store)
    (found : store.moves.get? cutId = some m) {rows : List CarriedBinding}
    (ok : exportSessionBindings store cutId m.agentId = .ok rows) :
    (rows.Pairwise fun a b => a.key < b.key) ∧ ∀ row ∈ rows, Exported store m row := by
  unfold exportSessionBindings at ok
  simp only [found] at ok
  split at ok
  next => cases ok
  next row open_ =>
    obtain rfl : m = row := Option.some.inj (Option.filter_eq_some_iff.mp open_).1
    split at ok
    next => cases ok
    next matches_ =>
      have keys : rows.map (·.key) = (carriedRows store m.agentId).map (·.key) := by
        refine mapM_map _ _ (fun a b named => ?_) ok
        obtain ⟨heldOn,rfl,_⟩ := nameHolder_ok named
        rfl
      constructor
      · have sorted : ((carriedRows store m.agentId).map (·.key)).Pairwise (· < ·) :=
          List.pairwise_map.mpr (carriedRows_ascending store m.agentId)
        rw [← keys] at sorted
        exact List.pairwise_map.mp sorted
      · intro row member
        obtain ⟨source,inside,named⟩ := mapM_ok ok row member
        obtain ⟨heldOn,rfl,holder⟩ := nameHolder_ok named
        obtain ⟨⟨key,binding⟩,there,rfl⟩ := List.mem_map.mp inside
        have kept := Table.mem_rows.mp there
        rw [Table.get?_filter] at kept
        obtain ⟨present,ours⟩ := Option.filter_eq_some_iff.mp kept
        refine ⟨⟨binding,heldOn,present,beq_iff_eq.mp ours,rfl,?_⟩,?_,?_⟩
        · exact holder.imp (·.1) (·.2.1)
        · intro held
          rcases holder with ⟨rfl,_⟩ | ⟨outside,_⟩
          · exact coherent.held key binding present held
          · by_contra live
            refine matches_ (Bool.or_eq_true_iff.mpr (.inr (List.any_eq_true.mpr ⟨_,inside,?_⟩)))
            simp only [Bool.and_eq_true,Bool.not_eq_true']
            refine ⟨by simpa using live,?_⟩
            by_contra planned
            exact outside (List.contains_iff_mem.mp (Bool.not_eq_false _ ▸ planned))
        · rcases holder with ⟨rfl,either⟩ | ⟨_,_,named⟩
          · exact either
          · exact .inr named

/-- An exported row of no reserved kind passes every check of the import. -/
theorem Exported.imported {m : OpenMove} {row : CarriedBinding} (exported : Exported store m row)
    (coherent : Coherent store) (exportable : Exportable store)
    (kind : isBindingRefKind row.refKind = true) : row.Imported := by
  obtain ⟨⟨binding,heldOn,present,_,shape,holder⟩,ended,_⟩ := exported
  have fits := exportable.rows _ _ present
  have history := exportable.histories row.key
  have rising := coherent.rising row.key
  have named : row.heldOn ≠ some "" := by
    rw [shape]
    rcases holder with same | same <;> rw [same]
    · exact fits.holder
    · exact exportable.origin
  constructor
  · rw [shape]
    simp only [CarriedBinding.timesFit,Bool.and_eq_true,List.all_eq_true]
    exact ⟨fits.times,fun entry member => (history.entries entry member).2⟩
  · refine CarriedBinding.Checked.ok ⟨fits.named,kind,?_,?_,?_,?_,?_,?_⟩
    · rw [shape]; exact fits.registrar
    · rw [shape]; exact fits.paired
    · intro machine held
      refine ⟨?_,ended (by rw [held]; rfl)⟩
      rintro rfl
      exact named held
    · rw [shape]; exact history.short
    · rw [shape]; exact fun entry member => (history.entries entry member).1
    · rw [shape]; exact rising.1

end Exports

/-- What a landed row leaves at its reference: a live row's history verbatim, no
live binding for a finished row unless the session of a planned one is taken, and
a holder other than this machine. -/
structure Settled (m : OpenMove) (before after : SessionStore) (row : CarriedBinding) (fate : Fate) :
    Prop where
  live : row.endedAtMs = none → fate ≠ .skipped ∧
    (fate ≠ .kept → after.historyOf row.key = row.networkHistory)
  finished : row.endedAtMs.isSome = true → ∀ stored, after.bindings.get? row.key = some stored →
    stored.endedAtMs = none →
    fate = .kept ∨ fate = .placeholder ∧ row.key ∈ planBindingRefs m ∧ taken after row
  holder : fate = .installed → ∃ stored, after.bindings.get? row.key = some stored ∧
    stored.endedAtMs = row.endedAtMs ∧
    stored.heldOn = if row.heldOn = before.storeOrigin then none else row.heldOn

theorem binding_holder (row : CarriedBinding) (agentId : String) (origin : Option String) :
    (row.binding agentId origin).heldOn = if row.heldOn = origin then none else row.heldOn := by
  simp only [CarriedBinding.binding]
  cases held : row.heldOn with
  | none => split <;> rfl
  | some machine =>
    by_cases home : some machine = origin
    · rw [if_pos home,Option.filter_some,if_neg (by simp [home])]
    · rw [if_neg home,Option.filter_some,if_pos (by simpa using home)]

theorem landed_settled {before after : SessionStore} {m : OpenMove} {activatedAtMs : Int}
    {row : CarriedBinding} {fate : Fate}
    (landed : Landed before after m.agentId activatedAtMs row fate)
    (holder : row.heldOn.isSome = true → row.endedAtMs.isSome = true)
    (covered : row.key ∈ planBindingRefs m ∨ row.heldOn.isSome = true) :
    Settled m before after row fate := by
  cases fate with
  | installed =>
    obtain ⟨_,found,history⟩ := landed
    refine ⟨fun _ => ⟨nofun,fun _ => history⟩,fun ended stored there live => ?_,
      fun _ => ⟨_,found,rfl,binding_holder row m.agentId before.storeOrigin⟩⟩
    obtain rfl := Option.some.inj (found.symm.trans there)
    have gone : row.endedAtMs = none := live
    rw [gone] at ended
    cases ended
  | placeholder =>
    obtain ⟨_,unheld,clash,_,history⟩ := landed
    refine ⟨fun _ => ⟨nofun,fun _ => history⟩,fun _ _ _ _ => .inr ⟨rfl,?_,clash⟩,nofun⟩
    exact covered.resolve_right (by rw [unheld]; nofun)
  | kept => exact ⟨fun _ => ⟨nofun,fun other => absurd rfl other⟩,fun _ _ _ _ => .inl rfl,nofun⟩
  | skipped =>
    obtain ⟨_,held,_,gone⟩ := landed
    refine ⟨fun live => ?_,fun _ stored there => ?_,nofun⟩
    · have ended := holder held
      rw [live] at ended
      cases ended
    · rw [gone] at there; cases there

/-- For an agent without bindings of a reserved kind, what an open source move
exports is imported and installed: the stream gives the rows back, under the
first version exactly when no row names a holder, every row passes the checks, and
the activation on any machine accounts for each once. And a stream that is accepted
differs from an encoding by its JSON at most. -/
theorem exports_arrive {start store : SessionStore} (fresh : Fresh start)
    (named : start.storeOrigin ≠ some "") (reached : Reach next Lawful start store) {cutId : String}
    {m : OpenMove} (found : store.moves.get? cutId = some m) {rows : List CarriedBinding}
    (exports : exportSessionBindings store cutId m.agentId = .ok rows)
    (kinds : ∀ key row, store.bindings.get? key = some row → row.agentId = m.agentId →
      isBindingRefKind (kindOf key) = true)
    {codec : Codec} (faithful : codec.Faithful m.agentId rows)
    (caps : WithinCaps codec (streamMagic rows) m.agentId rows) :
    (streamMagic rows = magic ↔ ∀ row ∈ rows, row.heldOn = none) ∧
    (∃ bytes, encode codec (streamMagic rows) m.agentId rows = .ok bytes ∧
      decode codec m.agentId bytes = .ok rows) ∧
    (∀ row ∈ rows, row.check = .ok ()) ∧
    (∀ input read, decode codec m.agentId input = .ok read → Spelled codec m.agentId read input) ∧
    ∀ other receiver : SessionStore, Fresh other → other.storeOrigin ≠ some "" →
      Reach next Lawful other receiver → ∀ cut current activatedAtMs refs,
      receiver.moves.get? cut = some current → current.side = .receiver → current.step = .activating →
      current.agentId = m.agentId → (∀ ref, ref ∈ refs ↔ ref ∈ planBindingRefs m) →
      (∀ ref ∈ refs, ∀ bound, receiver.bindings.get? ref = some bound → bound.agentId = m.agentId) →
      ∃ after outcome fates, activateAgentMoveCarrying receiver cut
        { current with step := .activated } (some activatedAtMs) refs rows = .ok (after,outcome) ∧
        Accounts receiver after m.agentId activatedAtMs rows outcome fates ∧
        ∀ entry ∈ fates, Settled m receiver after entry.1 entry.2 := by
  obtain ⟨coherent,_,exportable⟩ := exportable_reach fresh named reached
  obtain ⟨ascending,each⟩ := exported coherent found exports
  have imported : ∀ row ∈ rows, row.Imported := by
    intro row member
    obtain ⟨binding,_,present,ours,_⟩ := (each row member).stored
    exact (each row member).imported coherent exportable (kinds row.key binding present ours)
  have checked : ∀ row ∈ rows, row.check = .ok () := fun row member => (imported row member).checked
  refine ⟨streamMagic_iff,?_,checked,fun input read ok => decode_spelled ok,?_⟩
  · exact decode_encode faithful (fun row member => (imported row member).fits) caps checked ascending
  · intro other receiver fresh' named' reached' cut current activatedAtMs refs present side step agent
      same owned
    obtain ⟨coherent',oneOpen',_⟩ := exportable_reach fresh' named' reached'
    have once : (rows.map (·.key)).Nodup :=
      List.pairwise_map.mpr (ascending.imp fun less => ne_of_lt less)
    obtain ⟨after,outcome,fates,done,account⟩ := (@activation_accounts _ activatedAtMs coherent')
      oneOpen' present side step (fun ref inside bound there => (owned ref inside bound there).trans
        agent.symm) imported once fun row member => ((each row member).covered).imp (same row.key).mpr id
    rw [agent] at account
    refine ⟨after,outcome,fates,done,account,fun entry member => ?_⟩
    have inside : entry.1 ∈ rows := account.once.mem_iff.mp (List.mem_map_of_mem member)
    exact landed_settled (account.landed entry member) (each _ inside).holder (each _ inside).covered

namespace Crossing

def source : SessionStore where
  cutOver := true
  agents := Table.insert ∅ "agent_1" ⟨none⟩
  moves := ∅
  claims := ∅
  selfAuthor := none
  memberName := ∅
  bindings := ∅
  network := ∅
  storeOrigin := some "machine-a"

def target : SessionStore := { source with
  agents := Table.insert ∅ "agent_2" ⟨none⟩
  storeOrigin := some "machine-b" }

def session (agentId ref : String) : Call :=
  .register ⟨agentId,"session",ref,"omp","s1",none,"host",none,none,7⟩ 8

def admission : Admission where
  cutId := "cut_1"
  agentId := "agent_1"
  refs := [toLex ("session","notes")]
  pinned := false
  carryBindings := false
  described := [("broca",["session"])]

def moving : OpenMove := ⟨"agent_1",.source,.preparing,[toLex ("session","notes")]⟩

def arriving : OpenMove := ⟨"agent_1",.receiver,.pickedUp,[toLex ("session","notes")]⟩

/-- The agent's session is bound and its move admitted. -/
def leaving : List Label := [.call (session "agent_1" "notes"),.admitting admission true]

/-- The session also ends while the move is open. -/
def leavingEnded : List Label := leaving ++ [.call (.endSession "omp" "s1" none 9)]

/-- The move is picked up where another agent's binding holds the session. -/
def occupied : List Label := [.call (session "agent_2" "theirs"),.receive "cut_1" arriving,
  .advance "cut_1" .activating]

def vacant : List Label := [.receive "cut_1" arriving,.advance "cut_1" .activating]

theorem session_lawful (store : SessionStore) {agentId ref : String} (named : ref ≠ "") :
    Lawful store (.call (session agentId ref)) :=
  ⟨show inI64 8 = true by decide,⟨show "session" ≠ "" by decide,named⟩,
    show "host" ∈ ["orchestrator","host","move"] by decide,show inI64 7 = true by decide⟩

theorem leaving_lawful : ∀ label ∈ leavingEnded, ∀ store, Lawful store label := by
  intro label member store
  simp only [leavingEnded,leaving,List.cons_append,List.nil_append,List.mem_cons,List.not_mem_nil,or_false]
    at member
  rcases member with rfl | rfl | rfl
  · exact session_lawful store (by decide)
  · trivial
  · exact ⟨trivial,show inI64 9 = true by decide⟩

theorem occupied_lawful : ∀ label ∈ occupied, ∀ store, Lawful store label := by
  intro label member store
  simp only [occupied,List.mem_cons,List.not_mem_nil,or_false] at member
  rcases member with rfl | rfl | rfl
  · exact session_lawful store (by decide)
  · trivial
  · trivial

theorem reached_of {start store : SessionStore} {labels : List Label}
    (lawful : ∀ label ∈ labels, ∀ store, Lawful store label)
    (done : exec next start labels = some store) : Reach next Lawful start store := by
  induction labels generalizing start with
  | nil => cases done; exact .refl
  | cons label rest ih =>
    obtain ⟨middle,taken,done⟩ := Option.bind_eq_some_iff.mp done
    exact (Reach.step label .refl (lawful label List.mem_cons_self start) taken).trans
      (ih (fun other inside => lawful other (List.mem_cons_of_mem _ inside)) done)

def left : SessionStore := (exec next source leaving).getD source

def leftEnded : SessionStore := (exec next source leavingEnded).getD source

def crowded : SessionStore := (exec next target occupied).getD target

def carried : CarriedBinding where
  refKind := "session"
  sessionRef := "notes"
  runner := none
  harness := some "omp"
  sessionId := some "s1"
  projectRoot := ""
  registeredBy := "host"
  registeredAtMs := 7
  endedAtMs := none
  networkHistory := []
  heldOn := none

def headerText : String := "\x7b\"agent_id\":\"agent_1\",\"count\":1\x7d"

def rowText : String := "\x7b\"ref_kind\":\"session\",\"ref\":\"notes\",\"runner\":null,\"harness\":\"omp\"," ++
  "\"session_id\":\"s1\",\"project_root\":\"\",\"registered_by\":\"host\",\"registered_at_ms\":7," ++
  "\"ended_at_ms\":null,\"network_history\":[]\x7d"

/-- The JSON of the one header and the one row of this move. -/
def json : Codec where
  header := fun _ => ascii headerText
  readHeader := fun line => if line = ascii headerText then .ok ⟨"agent_1",1⟩ else .error "expected value"
  row := fun _ => ascii rowText
  readRow := fun line => if line = ascii rowText then .ok carried else .error "expected value"

/-- The characters of a text, with its literals taken apart. -/
theorem all_append {p : Char → Bool} {a b : String} (first : a.toList.all p = true) (second : b.toList.all p = true) :
    (a ++ b).toList.all p = true := by
  rw [String.toList_append,List.all_append,first,second]
  rfl

theorem all_chars {p : Char → Bool} {chars : List Char} (all : chars.all p = true) : (String.ofList chars).toList.all p = true := by
  rw [String.toList_ofList]
  exact all

theorem one_line {text : String} (free : text.toList.all (fun c => UInt8.ofNat c.toNat != newline) = true) :
    newline ∉ ascii text := by
  intro inside
  obtain ⟨c,member,is⟩ := List.mem_map.mp inside
  have other := List.all_eq_true.mp free c member
  rw [is,bne_self_eq_false] at other
  cases other

theorem length_append {a b : String} {n m : Nat} (first : (ascii a).length = n) (second : (ascii b).length = m) :
    (ascii (a ++ b)).length = n + m := by
  rw [ascii,String.toList_append,List.map_append,List.length_append,← ascii,← ascii,first,second]

theorem length_chars {chars : List Char} {n : Nat} (is : chars.length = n) : (ascii (String.ofList chars)).length = n := by
  rw [ascii,String.toList_ofList,List.length_map,is]

theorem row_length : (ascii rowText).length = 186 :=
  length_append (length_append (length_chars rfl) (length_chars rfl)) (length_chars rfl)

theorem header_length : (ascii headerText).length = 32 := length_chars rfl

theorem json_faithful : json.Faithful "agent_1" [carried] := by
  have header : newline ∉ ascii headerText := one_line (all_chars (by decide))
  have line : newline ∉ ascii rowText := one_line (all_append (all_append (all_chars (by decide)) (all_chars (by decide)))
    (all_chars (by decide)))
  refine ⟨by simp only [json]; exact header,by simp only [json,if_true,List.length_singleton],
    fun row _ => by simp only [json]; exact line,fun row member _ => ?_⟩
  rw [List.mem_singleton.mp member]
  simp only [json,if_true]

theorem json_caps : WithinCaps json (streamMagic [carried]) "agent_1" [carried] := by
  have header : (ascii headerText).length + 1 ≤ lineCap := by rw [header_length]; decide
  have line : (ascii rowText).length + 1 ≤ lineCap := by rw [row_length]; decide
  have total : (streamMagic [carried] ++ [newline] ++ (ascii headerText ++ [newline]) ++
      [carried].flatMap fun _ => ascii rowText ++ [newline]).length ≤ streamCap := by
    have magic : (streamMagic [carried]).length ≤ 64 := by decide +kernel
    simp only [List.flatMap_cons,List.flatMap_nil,List.length_append,List.length_cons,List.length_nil,row_length,
      header_length,streamCap]
    omega
  exact ⟨by decide,by simp only [json]; exact header,fun row _ => by simp only [json]; exact line,
    by simp only [json]; exact total⟩

theorem moving_plan : planBindingRefs moving = [toLex ("session","notes")] := by decide

theorem fresh_source : Fresh source := ⟨rfl,rfl,nofun⟩

theorem fresh_target : Fresh target := ⟨rfl,rfl,nofun⟩

/-- The sender's runs and its exports. -/
theorem source_runs : (exec next source leaving = some left ∧ left.moves.get? "cut_1" = some moving ∧
      exportSessionBindings left "cut_1" "agent_1" = .ok [carried] ∧
      left.bindings.rows.all (fun x => isBindingRefKind (kindOf x.1)) = true) ∧
    exec next source leavingEnded = some leftEnded ∧ leftEnded.moves.get? "cut_1" = some moving ∧
      exportSessionBindings leftEnded "cut_1" "agent_1" = .ok [{ carried with endedAtMs := some 9 }] := by
  decide +kernel

/-- The receiver's run. -/
theorem target_runs : exec next target occupied = some crowded ∧
    crowded.bindings.get? (toLex ("session","notes")) = none ∧
    crowded.moves.get? "cut_1" = some { arriving with step := .activating } := by
  decide +kernel

theorem left_reached : Reach next Lawful source left :=
  reached_of (fun label member => leaving_lawful label (List.mem_append_left _ member)) source_runs.1.1

theorem crowded_reached : Reach next Lawful target crowded := reached_of occupied_lawful target_runs.1

/-- A live session arrives at a machine where its host session is taken. -/
theorem session_arrives : (∃ bytes, encode json magic "agent_1" [carried] = .ok bytes ∧
      decode json "agent_1" bytes = .ok [carried]) ∧
    ∃ after outcome fates, activateAgentMoveCarrying crowded "cut_1"
      { arriving with step := .activated } (some 20) [toLex ("session","notes")] [carried] =
        .ok (after,outcome) ∧ Accounts crowded after "agent_1" 20 [carried] outcome fates := by
  obtain ⟨_,moving_there,exports,kinds⟩ := source_runs.1
  obtain ⟨_,absent,arriving_there⟩ := target_runs
  obtain ⟨_,stream,_,_,arrive⟩ := (@exports_arrive _ _ fresh_source (by decide) left_reached
    "cut_1" moving moving_there) exports
    (fun key row found _ => List.all_eq_true.mp kinds (key,row) (Table.mem_rows.mpr found))
    json_faithful json_caps
  refine ⟨stream,?_⟩
  have owned : ∀ ref ∈ [(toLex ("session","notes") : RefKey)], ∀ bound,
      crowded.bindings.get? ref = some bound → bound.agentId = "agent_1" := by
    intro ref member bound there
    rw [List.mem_singleton.mp member,absent] at there
    cases there
  obtain ⟨after,outcome,fates,done,account,_⟩ := arrive target crowded fresh_target (by decide)
    crowded_reached "cut_1" { arriving with step := .activating } 20 [toLex ("session","notes")]
    arriving_there rfl rfl rfl (fun ref => by rw [moving_plan]) owned
  exact ⟨after,outcome,fates,done,account⟩

/-- A session that ended after its move was admitted becomes live where its host
session is taken. -/
theorem finished_becomes_live : ¬ ∀ (start store other receiver after : SessionStore) (cutId : String)
    (m current : OpenMove) (rows : List CarriedBinding) (refs : List RefKey) (activatedAtMs : Int)
    (outcome : CarriedInstall), Fresh start → start.storeOrigin ≠ some "" →
    Reach next Lawful start store → store.moves.get? cutId = some m →
    exportSessionBindings store cutId m.agentId = .ok rows →
    Fresh other → other.storeOrigin ≠ some "" → Reach next Lawful other receiver →
    receiver.moves.get? cutId = some current → (∀ ref, ref ∈ refs ↔ ref ∈ planBindingRefs m) →
    activateAgentMoveCarrying receiver cutId { current with step := .activated } (some activatedAtMs)
      refs rows = .ok (after,outcome) →
    ∀ row ∈ rows, row.endedAtMs.isSome = true → ∀ stored, after.bindings.get? row.key = some stored →
      stored.endedAtMs = none → receiver.bindings.get? row.key = some stored := by
  intro law
  obtain ⟨done,moving_there,exports⟩ := source_runs.2
  obtain ⟨_,absent,arriving_there⟩ := target_runs
  obtain ⟨after,outcome,activated,there⟩ : ∃ after outcome, activateAgentMoveCarrying crowded "cut_1"
      { arriving with step := .activated } (some 20) [toLex ("session","notes")]
      [{ carried with endedAtMs := some 9 }] = .ok (after,outcome) ∧
      after.bindings.get? (toLex ("session","notes")) = some (placeholder "agent_1" 20) := by
    refine ⟨_,_,rfl,?_⟩
    decide +kernel
  have same := law source leftEnded target crowded after "cut_1" moving
    { arriving with step := .activating } _ [toLex ("session","notes")] 20 outcome fresh_source (by decide)
    (reached_of leaving_lawful done) moving_there exports fresh_target (by decide) crowded_reached
    arriving_there (fun ref => by rw [moving_plan]) activated _ List.mem_cons_self rfl _ there rfl
  rw [show CarriedBinding.key { carried with endedAtMs := some 9 } = toLex ("session","notes") from rfl,
    absent] at same
  cases same

end Crossing
end Entorhinal.SessionArrival
