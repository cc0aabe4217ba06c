import Entorhinal.SessionInstall

/-! What became of each carried row: an activation accounts for every one of them
once, and its counters are those of the account. -/
namespace Entorhinal.Session

/-- What installing does with a carried row. -/
inductive Fate
  | installed
  | placeholder
  | kept
  | skipped
deriving DecidableEq, Repr

/-- Another binding holds the row's session. -/
def taken (store : SessionStore) (row : CarriedBinding) : Prop :=
  ∃ other stored, other ≠ row.key ∧ store.bindings.get? other = some stored ∧
    row.sharesSession stored = true

/-- The row's fate shows in the store. -/
def Landed (before after : SessionStore) (agentId : String) (activatedAtMs : Int)
    (row : CarriedBinding) : Fate → Prop
  | .installed => before.bindings.get? row.key = none ∧
    after.bindings.get? row.key = some (row.binding agentId before.storeOrigin) ∧
    after.historyOf row.key = row.networkHistory
  | .placeholder => before.bindings.get? row.key = none ∧ row.heldOn = none ∧ taken after row ∧
    after.bindings.get? row.key = some (placeholder agentId activatedAtMs) ∧
    after.historyOf row.key = row.networkHistory
  | .kept => before.bindings.has row.key = true ∧
    after.bindings.get? row.key = before.bindings.get? row.key ∧
    after.network.get? row.key = before.network.get? row.key
  | .skipped => before.bindings.get? row.key = none ∧ row.heldOn.isSome = true ∧ taken after row ∧
    after.bindings.get? row.key = none

/-- An account of the carried rows: each once, with a fate that shows in the store
and in the counters. A skipped row counts as kept and is listed. -/
structure Accounts (before after : SessionStore) (agentId : String) (activatedAtMs : Int)
    (rows : List CarriedBinding) (outcome : CarriedInstall) (fates : List (CarriedBinding × Fate)) :
    Prop where
  once : (fates.map Prod.fst).Perm rows
  landed : ∀ entry ∈ fates, Landed before after agentId activatedAtMs entry.1 entry.2
  installed : outcome.installed = fates.countP (·.2 == .installed)
  placeholders : outcome.placeholders = fates.countP (·.2 == .placeholder)
  kept : outcome.kept = fates.countP (·.2 == .kept) + fates.countP (·.2 == .skipped)
  skipped : outcome.skippedFinished.map Prod.fst =
    (fates.filter (·.2 == .skipped)).map (·.1.key)

section Account

variable {before store store' : SessionStore} {agentId : String} {activatedAtMs : Int}
variable {rows : Table RefKey CarriedBinding} {state state' : Installing} {ref : RefKey}
variable {row : CarriedBinding} {fate : Fate} {fates : List (CarriedBinding × Fate)}

/-- Installing a reference touches no other one. -/
theorem Installs.others (installs : Installs agentId activatedAtMs rows state ref state') {other : RefKey}
    (different : other ≠ ref) : state'.store.bindings.get? other = state.store.bindings.get? other ∧
      state'.store.network.get? other = state.store.network.get? other := by
  have inserted : ∀ store (stored : SessionBinding) (history : List NetworkEntry),
      Inserted state.store store ref stored history →
      store.bindings.get? other = state.store.bindings.get? other ∧
        store.network.get? other = state.store.network.get? other := by
    intro store stored history inserted
    rw [inserted.bindings,Table.get?_insert,if_neg different]
    exact ⟨rfl,inserted.network other different⟩
  cases installs with
  | seen | kept | skipped => exact ⟨rfl,rfl⟩
  | bare _ _ _ store into => exact inserted store _ _ into
  | placeholder _ _ _ _ _ _ store into => exact inserted store _ _ into
  | installed _ _ _ _ _ store into => exact inserted store _ _ into

/-- Later references leave a row where it landed. -/
theorem Landed.later (landed : Landed before store agentId activatedAtMs row fate)
    (extended : Extends store store' agentId)
    (bindings : store'.bindings.get? row.key = store.bindings.get? row.key)
    (network : store'.network.get? row.key = store.network.get? row.key) :
    Landed before store' agentId activatedAtMs row fate := by
  have history : store'.historyOf row.key = store.historyOf row.key := by
    simp only [SessionStore.historyOf,network]
  have still : taken store row → taken store' row := by
    rintro ⟨other,stored,away,found,shared⟩
    exact ⟨other,stored,away,extended.kept other stored found,shared⟩
  cases fate with
  | installed => exact ⟨landed.1,bindings.trans landed.2.1,history.trans landed.2.2⟩
  | placeholder =>
    obtain ⟨absent,unheld,clash,found,recorded⟩ := landed
    exact ⟨absent,unheld,still clash,bindings.trans found,history.trans recorded⟩
  | kept => exact ⟨landed.1,bindings.trans landed.2.1,network.trans landed.2.2⟩
  | skipped =>
    obtain ⟨absent,held,clash,gone⟩ := landed
    exact ⟨absent,held,still clash,bindings.trans gone⟩

/-- The account so far: the rows of the references seen, as they landed. -/
structure Progress (before : SessionStore) (agentId : String) (activatedAtMs : Int)
    (rows : Table RefKey CarriedBinding) (state : Installing) (fates : List (CarriedBinding × Fate)) :
    Prop where
  coherent : Coherent state.store
  extended : Extends before state.store agentId
  unseen : ∀ ref, ref ∉ state.seen →
    state.store.bindings.get? ref = before.bindings.get? ref ∧
      state.store.network.get? ref = before.network.get? ref
  once : state.seen.Nodup
  listed : fates.map (·.1.key) = state.seen.filter rows.has
  rows : ∀ entry ∈ fates, rows.get? entry.1.key = some entry.1
  landed : ∀ entry ∈ fates, Landed before state.store agentId activatedAtMs entry.1 entry.2
  installed : state.outcome.installed = fates.countP (·.2 == .installed)
  placeholders : state.outcome.placeholders = fates.countP (·.2 == .placeholder)
  kept : state.outcome.kept = fates.countP (·.2 == .kept) + fates.countP (·.2 == .skipped)
  skipped : state.outcome.skippedFinished.map Prod.fst =
    (fates.filter (·.2 == .skipped)).map (·.1.key)

/-- The binding that keeps the row's session from it is not the row's own. -/
theorem taken_of_collides (free : store.bindings.has ref = false) (here : row.key = ref)
    (clash : collides store row = true) : taken store row := by
  obtain ⟨other,stored,found,shared⟩ := Table.any_eq_true.mp clash
  refine ⟨other,stored,?_,found,shared⟩
  rintro rfl
  rw [here] at found
  rw [Table.has_iff.mpr ⟨stored,found⟩] at free
  cases free

/-- A reference that was not seen before is seen now, and the rows accounted for stay where they landed. -/
structure Moved (before : SessionStore) (agentId : String) (activatedAtMs : Int) (state : Installing)
    (fates : List (CarriedBinding × Fate)) (ref : RefKey) (state' : Installing) : Prop where
  coherent : Coherent state'.store
  extended : Extends before state'.store agentId
  after : state'.seen = state.seen ++ [ref]
  once : state'.seen.Nodup
  unseen : ∀ other, other ∉ state'.seen →
    state'.store.bindings.get? other = before.bindings.get? other ∧
      state'.store.network.get? other = before.network.get? other
  landed : ∀ entry ∈ fates, Landed before state'.store agentId activatedAtMs entry.1 entry.2

theorem Installs.moved (progress : Progress before agentId activatedAtMs rows state fates)
    (imported : ∀ ref row, rows.get? ref = some row → row.Imported ∧ row.key = ref)
    (installs : Installs agentId activatedAtMs rows state ref state') (fresh : ref ∉ state.seen) :
    Moved before agentId activatedAtMs state fates ref state' := by
  have grows := installs.grows
  have after : state'.seen = state.seen ++ [ref] := by
    cases installs <;> first | rfl | contradiction
  refine ⟨installs.coherent progress.coherent imported,progress.extended.trans grows,after,?_,?_,?_⟩
  · rw [after]
    exact List.Nodup.append progress.once (List.nodup_singleton ref)
      (List.disjoint_singleton.mpr fresh)
  · intro other absent
    rw [after,List.mem_append,List.mem_singleton,not_or] at absent
    obtain ⟨bindings,network⟩ := installs.others absent.2
    obtain ⟨bindings₀,network₀⟩ := progress.unseen other absent.1
    exact ⟨bindings.trans bindings₀,network.trans network₀⟩
  -- the rows accounted for before are of other references
  · intro entry member
    have listed : entry.1.key ∈ state.seen.filter rows.has :=
      progress.listed ▸ List.mem_map_of_mem member
    have away : entry.1.key ≠ ref := fun same => fresh (same ▸ (List.mem_filter.mp listed).1)
    obtain ⟨bindings,network⟩ := installs.others away
    exact (progress.landed entry member).later grows bindings network

/-- Without a row for the reference, the account stays as it is. -/
theorem Moved.silent (moved : Moved before agentId activatedAtMs state fates ref state')
    (progress : Progress before agentId activatedAtMs rows state fates) (absent : rows.get? ref = none)
    (outcome : state'.outcome = state.outcome) : Progress before agentId activatedAtMs rows state' fates := by
  refine ⟨moved.coherent,moved.extended,moved.unseen,moved.once,?_,progress.rows,moved.landed,?_,?_,?_,?_⟩
  · rw [progress.listed,moved.after,List.filter_append]
    simp [Table.has,absent]
  all_goals rw [outcome]
  · exact progress.installed
  · exact progress.placeholders
  · exact progress.kept
  · exact progress.skipped

/-- The row of the reference joins the account with its fate, and the counters go along. -/
theorem Moved.counted (moved : Moved before agentId activatedAtMs state fates ref state')
    (progress : Progress before agentId activatedAtMs rows state fates) (found : rows.get? ref = some row)
    (here : row.key = ref) (lands : Landed before state'.store agentId activatedAtMs row fate)
    (installed : state'.outcome.installed = state.outcome.installed + (if fate = .installed then 1 else 0))
    (placeholders : state'.outcome.placeholders = state.outcome.placeholders + (if fate = .placeholder then 1 else 0))
    (kept : state'.outcome.kept = state.outcome.kept + (if fate = .kept ∨ fate = .skipped then 1 else 0))
    (skipped : state'.outcome.skippedFinished.map Prod.fst = state.outcome.skippedFinished.map Prod.fst ++
      (if fate = .skipped then [ref] else [])) :
    Progress before agentId activatedAtMs rows state' (fates ++ [(row,fate)]) := by
  refine ⟨moved.coherent,moved.extended,moved.unseen,moved.once,?_,?_,?_,?_,?_,?_,?_⟩
  · rw [List.map_append,progress.listed,moved.after,List.filter_append]
    simp [Table.has,found,here]
  · intro entry member
    rcases List.mem_append.mp member with old | new
    · exact progress.rows entry old
    · rw [List.mem_singleton.mp new,here]
      exact found
  · intro entry member
    rcases List.mem_append.mp member with old | new
    · exact moved.landed entry old
    · rw [List.mem_singleton.mp new]
      exact lands
  · rw [installed,progress.installed,List.countP_append]
    cases fate <;> simp
  · rw [placeholders,progress.placeholders,List.countP_append]
    cases fate <;> simp
  · rw [kept,progress.kept,List.countP_append,List.countP_append]
    cases fate <;> simp <;> omega
  · rw [skipped,progress.skipped,List.filter_append,List.map_append]
    cases fate <;> simp [here]

/-- What a step adds to the account: nothing for a reference no row was carried for, and otherwise
the row with its fate. -/
theorem Moved.accounts (moved : Moved before agentId activatedAtMs state fates ref state')
    (progress : Progress before agentId activatedAtMs rows state fates)
    (imported : ∀ ref row, rows.get? ref = some row → row.Imported ∧ row.key = ref)
    (installs : Installs agentId activatedAtMs rows state ref state') (fresh : ref ∉ state.seen) :
    ∃ fates', Progress before agentId activatedAtMs rows state' fates' := by
  obtain ⟨bindings,network⟩ := progress.unseen ref fresh
  have grows := installs.grows
  have absent : state.store.bindings.has ref = false → before.bindings.get? ref = none := by
    intro free
    rw [← bindings]
    simpa [Table.has] using free
  have origin : state.store.storeOrigin = before.storeOrigin := by rw [progress.extended.frame]
  cases installs with
  | seen inside => exact absurd inside fresh
  | kept _ has =>
    rcases Option.eq_none_or_eq_some (rows.get? ref) with found | ⟨row,found⟩
    · exact ⟨_,moved.silent progress found (by simp [found])⟩
    · have here : row.key = ref := (imported ref row found).2
      have was : before.bindings.has row.key = true := by
        rw [here,Table.has,← bindings]
        exact has
      have lands : Landed before state.store agentId activatedAtMs row .kept :=
        ⟨was,by rw [here]; exact bindings,by rw [here]; exact network⟩
      exact ⟨_,moved.counted progress found here lands rfl rfl (by simp [found]) (by simp)⟩
  | bare _ free missing store inserted => exact ⟨_,moved.silent progress missing rfl⟩
  | skipped _ free row found clash held own =>
    have here : row.key = ref := (imported ref row found).2
    have gone : state.store.bindings.get? row.key = none := by simpa [Table.has,here] using free
    have lands : Landed before state.store agentId activatedAtMs row .skipped :=
      ⟨here ▸ absent free,held,taken_of_collides free here clash,gone⟩
    exact ⟨_,moved.counted progress found here lands rfl rfl rfl (by simp)⟩
  | placeholder _ free row found clash unheld store inserted =>
    have here : row.key = ref := (imported ref row found).2
    obtain ⟨other,stored,away,present,shared⟩ := taken_of_collides free here clash
    have still : taken store row := ⟨other,stored,away,grows.kept other stored present,shared⟩
    have lands : Landed before store agentId activatedAtMs row .placeholder := by
      refine ⟨here ▸ absent free,unheld,still,?_,?_⟩
      · rw [here,inserted.bindings,Table.get?_insert,if_pos rfl]
      · rw [here,inserted.history]
    exact ⟨_,moved.counted progress found here lands rfl rfl rfl (by simp)⟩
  | installed _ free row found clear store inserted =>
    have here : row.key = ref := (imported ref row found).2
    have lands : Landed before store agentId activatedAtMs row .installed := by
      refine ⟨here ▸ absent free,?_,?_⟩
      · rw [here,inserted.bindings,Table.get?_insert,if_pos rfl,origin]
      · rw [here,inserted.history]
    exact ⟨_,moved.counted progress found here lands rfl rfl rfl (by simp)⟩

/-- A step accounts for its reference, and changes nothing where it was seen before. -/
theorem Installs.accounts (progress : Progress before agentId activatedAtMs rows state fates)
    (imported : ∀ ref row, rows.get? ref = some row → row.Imported ∧ row.key = ref)
    (installs : Installs agentId activatedAtMs rows state ref state') :
    ∃ fates', Progress before agentId activatedAtMs rows state' fates' ∧ ref ∈ state'.seen ∧
      ∀ other, other ∈ state'.seen ↔ other ∈ state.seen ∨ other = ref := by
  by_cases seen : ref ∈ state.seen
  · have same : state' = state := by cases installs <;> first | rfl | contradiction
    subst same
    exact ⟨fates,progress,seen,fun other => ⟨.inl,fun either => either.elim id (· ▸ seen)⟩⟩
  · have moved := installs.moved progress imported seen
    have members : ∀ other, other ∈ state'.seen ↔ other ∈ state.seen ∨ other = ref := by
      intro other
      rw [moved.after,List.mem_append,List.mem_singleton]
    obtain ⟨fates',progress'⟩ := moved.accounts progress imported installs seen
    exact ⟨fates',progress',(members ref).mpr (.inr rfl),members⟩

/-- A run over the references accounts for the rows of all of them. -/
theorem installRefs_account (imported : ∀ ref row, rows.get? ref = some row → row.Imported ∧ row.key = ref)
    (refs : List RefKey) (progress : Progress before agentId activatedAtMs rows state fates) :
    ∃ final fates', refs.foldlM (installRef agentId activatedAtMs rows) state = .ok final ∧
      Progress before agentId activatedAtMs rows final fates' ∧
      ∀ ref, ref ∈ final.seen ↔ ref ∈ state.seen ∨ ref ∈ refs := by
  induction refs generalizing state fates with
  | nil => exact ⟨state,fates,rfl,progress,by simp⟩
  | cons ref refs ih =>
    obtain ⟨middle,done,installs⟩ := installRef_installs progress.coherent imported ref
    obtain ⟨fates₁,progress₁,_,members⟩ := installs.accounts progress imported
    obtain ⟨final,fates₂,later,progress₂,all⟩ := ih progress₁
    refine ⟨final,fates₂,by rw [List.foldlM_cons,done]; exact later,progress₂,fun other => ?_⟩
    rw [all,members,List.mem_cons]
    tauto

theorem insertRows_kept {carried : List CarriedBinding} {table : Table RefKey CarriedBinding}
    (found : table.get? ref = some row) (absent : ref ∉ carried.map (·.key)) :
    (carried.foldl (fun rows row => rows.insert row.key row) table).get? ref = some row := by
  induction carried generalizing table with
  | nil => exact found
  | cons first rest ih =>
    simp only [List.map_cons,List.mem_cons,not_or] at absent
    exact ih (by rw [Table.get?_insert,if_neg absent.1]; exact found) absent.2

/-- Of rows with distinct keys each is found under its own. -/
theorem carriedRowsOf_get {carried : List CarriedBinding} (once : (carried.map (·.key)).Nodup)
    (member : row ∈ carried) : (carriedRowsOf carried).get? row.key = some row := by
  unfold carriedRowsOf
  generalize (∅ : Table RefKey CarriedBinding) = table
  induction carried generalizing table with
  | nil => cases member
  | cons first rest ih =>
    obtain ⟨alone,later⟩ := List.nodup_cons.mp once
    rcases List.mem_cons.mp member with rfl | inside
    · have here : (table.insert row.key row).get? row.key = some row := by
        rw [Table.get?_insert,if_pos rfl]
      rw [List.foldl_cons]
      exact insertRows_kept here alone
    · exact ih later inside _

/-- Installing rows of distinct keys, each of a reference of the move or finished
metadata, accounts for all of them. -/
theorem installMovedBindings_accounts (coherent : Coherent store) {carried : List CarriedBinding}
    (imported : ∀ row ∈ carried, row.Imported) (once : (carried.map (·.key)).Nodup) {refs : List RefKey}
    (covered : ∀ row ∈ carried, row.key ∈ refs ∨ row.heldOn.isSome = true) :
    ∃ store' outcome fates, installMovedBindings store agentId activatedAtMs refs carried =
      .ok (store',outcome) ∧ Accounts store store' agentId activatedAtMs carried outcome fates ∧
      Extends store store' agentId := by
  have sound : ∀ ref row, (carriedRowsOf carried).get? ref = some row → row.Imported ∧ row.key = ref :=
    fun ref row found => ⟨imported row (carriedRowsOf_key found).1,(carriedRowsOf_key found).2⟩
  have start : Progress store agentId activatedAtMs (carriedRowsOf carried) ⟨store,.none,[]⟩ [] :=
    ⟨coherent,.refl store agentId,fun _ _ => ⟨rfl,rfl⟩,.nil,rfl,nofun,nofun,rfl,rfl,rfl,rfl⟩
  obtain ⟨final,fates,done,progress,seen⟩ :=
    installRefs_account sound (refs ++ metadataRefs (carriedRowsOf carried)) start
  refine ⟨final.store,final.outcome,fates,?_,⟨?_,progress.landed,progress.installed,
    progress.placeholders,progress.kept,progress.skipped⟩,progress.extended⟩
  · simp only [installMovedBindings,done,bind,Except.bind]
    rfl
  · have keys : (fates.map (·.1.key)).Nodup := progress.listed ▸ progress.once.filter _
    have distinct : (fates.map Prod.fst).Nodup := by
      rw [← Function.comp_def,← List.map_map] at keys
      exact keys.of_map _
    refine (List.perm_ext_iff_of_nodup distinct (once.of_map _)).mpr fun row => ?_
    constructor
    · intro member
      obtain ⟨entry,inside,rfl⟩ := List.mem_map.mp member
      exact (carriedRowsOf_key (progress.rows entry inside)).1
    · intro member
      have found := carriedRowsOf_get once member
      have reached : row.key ∈ final.seen := by
        refine (seen row.key).mpr (.inr (List.mem_append.mpr ((covered row member).imp id fun held => ?_)))
        exact Table.mem_keys.mpr (Table.has_iff.mpr
          ⟨row,by rw [Table.get?_filter,found]; simp [held]⟩)
      have listed : row.key ∈ fates.map (·.1.key) := by
        rw [progress.listed]
        exact List.mem_filter.mpr ⟨reached,Table.has_iff.mpr ⟨row,found⟩⟩
      obtain ⟨entry,inside,same⟩ := List.mem_map.mp listed
      have here := progress.rows entry inside
      rw [same,found] at here
      exact List.mem_map.mpr ⟨entry,inside,(Option.some.inj here).symm⟩

/-- An activation by the cut's own row, none of whose references is another
agent's, is accepted and accounts for every row. -/
theorem activation_accounts (coherent : Coherent store) (oneOpen : OneOpen store.moves) {cutId : String}
    {current : OpenMove} (found : store.moves.get? cutId = some current)
    (side : current.side = .receiver) (step : current.step = .activating) {refs : List RefKey}
    (owned : ∀ ref ∈ refs, ∀ bound, store.bindings.get? ref = some bound →
      bound.agentId = current.agentId) {carried : List CarriedBinding}
    (imported : ∀ row ∈ carried, row.Imported) (once : (carried.map (·.key)).Nodup)
    (covered : ∀ row ∈ carried, row.key ∈ refs ∨ row.heldOn.isSome = true) :
    ∃ store' outcome fates, activateAgentMoveCarrying store cutId { current with step := .activated }
      (some activatedAtMs) refs carried = .ok (store',outcome) ∧
      Accounts store store' current.agentId activatedAtMs carried outcome fates := by
  obtain ⟨installed,outcome,fates,done,account,extended⟩ :=
    (@installMovedBindings_accounts _ current.agentId activatedAtMs coherent)
      imported once covered
  have moves : installed.moves = store.moves := by rw [extended.frame]
  have isOpen : current.step.isTerminal = false := by rw [step]; rfl
  have written : installed.writeMove cutId { current with step := .activated } = .ok _ :=
    writeMove_ok (moves ▸ oneOpen) (moves.symm ▸ found) isOpen rfl
  have free : refs.forM (checkOwner store current.agentId) = .ok () := by
    rcases @forM_cases refs (checkOwner store current.agentId) with
      free | ⟨ref,inside,e,failed,_⟩
    · exact free
    · unfold checkOwner at failed
      split at failed
      next bound present => rw [if_neg (not_not.mpr (owned ref inside bound present))] at failed; cases failed
      next => cases failed
  refine ⟨{ installed with moves := installed.moves.insert cutId { current with step := .activated } },
    outcome,fates,?_,⟨account.once,?_,account.installed,account.placeholders,account.kept,
    account.skipped⟩⟩
  · have legal : ¬ (current.side ≠ .receiver ∨ current.step ≠ .activating ∨
        MoveStep.activated ≠ .activated) := by simp [side,step]
    unfold activateAgentMoveCarrying
    simp only [found,if_neg legal,free,done,written,bind,Except.bind]
    rfl
  · intro entry member
    have landed := account.landed entry member
    cases fate : entry.2 <;> rw [fate] at landed <;> exact landed

end Account
end Entorhinal.Session
