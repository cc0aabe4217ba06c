import Entorhinal.LogLaw

/-! The rows of a machine's own writes: each is of a write that was carried out on the tables the
rows before it left, and its entry holds the bytes of that write. -/
namespace Entorhinal.IdentityLog
open AppendLog Transition

variable {ν σ ω : Type} {registry : Registry ν σ ω} {starts : ν → σ} {network network' : Network ν} {m : ν}
variable {machine machine' : Machine ν σ ω} {label : Label ν ω} {w w₀ w' : World ν σ ω}

/-- What a row of an own write says of the tables it was made on. -/
def OwnRow (registry : Registry ν σ ω) (tables : σ) (row : JournalRow ν ω) : Prop :=
  ∀ op, row.change = .here op → (∃ after, registry.operate op tables = .kept after) ∨
    ∃ after data, registry.operate op tables = .shared after data ∧
      ∀ entry position, row.logged = some (entry,position) → entry.body.data = data

/-- How the entry of a row goes with its change, in the journal of a machine. -/
def Shaped (m : ν) (row : JournalRow ν ω) : Prop :=
  match row.change with
  | .here _ => ∀ entry position, row.logged = some (entry,position) → entry.body.author = m ∧ entry.body.kind = .change
  | .entry received => ∃ position, row.logged = some (received,position)
  | _ => ∀ entry position, row.logged = some (entry,position) → entry.body.kind = .snapshot

section Shapes
variable {store store' store'' : Store ν σ ω}

def Shapes (m : ν) (store store' : Store ν σ ω) : Prop :=
  ∃ rows, store'.journal = store.journal ++ rows ∧ ∀ row ∈ rows, Shaped m row

theorem Shapes.still (same : store'.journal = store.journal) : Shapes m store store' :=
  ⟨[],by rw [same,List.append_nil],nofun⟩

theorem Shapes.trans (first : Shapes m store store') (second : Shapes m store' store'') : Shapes m store store'' := by
  obtain ⟨rows,journal,shaped⟩ := first
  obtain ⟨rows',journal',shaped'⟩ := second
  refine ⟨rows ++ rows',by rw [journal',journal,List.append_assoc],fun row member => ?_⟩
  exact (List.mem_append.mp member).elim (shaped row) (shaped' row)

theorem write_shapes {change : Change ν ω} {tables : σ} {entry : LogEntry ν} {position : Nat}
    (shaped : Shaped m ⟨change,some (entry,position)⟩) :
    Shapes m store (store.write change tables entry position) := by
  unfold Store.write
  split
  next => exact .still (by simp [Store.advance])
  next =>
    refine ⟨[⟨change,some (entry,position)⟩],by simp [Store.advance],fun row member => ?_⟩
    exact List.mem_singleton.mp member ▸ shaped

theorem applyRemoteEntry_shapes {entry : LogEntry ν} {position : Nat}
    (ok : applyRemoteEntry registry store entry position = .ok store') : Shapes m store store' := by
  unfold applyRemoteEntry at ok
  split at ok
  next => cases ok
  next =>
    obtain ⟨_,_,ok⟩ := bind_ok ok
    split at ok
    next => cases ok
    next =>
      have written : ∀ {tables : σ}, (if registry.referencesHold (store.write (.entry entry) tables entry position).tables
          then .ok (store.write (.entry entry) tables entry position)
          else .error "shared after-image violates a foreign key") = Except.ok store' → Shapes m store store' := by
        intro tables ok
        split at ok
        next =>
          cases ok
          exact write_shapes ⟨position,rfl⟩
        next => cases ok
      dsimp only at ok
      split at ok
      next => exact written ok
      next =>
        obtain ⟨tables,_,ok⟩ := bind_ok ok
        exact written ok

theorem snapshotPart_kind [DecidableEq ν] {entry : LogEntry ν} {part : SnapshotPart ν}
    (ok : snapshotPart registry entry = .ok part) : entry.body.kind = .snapshot := by
  unfold snapshotPart at ok
  obtain ⟨_,_,ok⟩ := bind_ok ok
  split at ok
  next => cases ok
  next valid => exact not_not.mp (not_or.mp valid).1

theorem parts_kind [DecidableEq ν] {entries : List (LogEntry ν)} {parts : List (SnapshotPart ν)}
    (ok : entries.mapM (snapshotPart registry) = .ok parts) : ∀ e ∈ entries, e.body.kind = .snapshot := by
  induction entries generalizing parts with
  | nil => nofun
  | cons e rest ih =>
    rw [List.mapM_cons] at ok
    obtain ⟨part,first,ok⟩ := bind_ok ok
    obtain ⟨others,more,_⟩ := bind_ok ok
    intro other member
    rcases List.mem_cons.mp member with rfl | member
    · exact snapshotPart_kind first
    · exact ih more other member

theorem writeParts_shapes {supersedes : Bool} {tables : σ} {entries : List (LogEntry ν)} {position : Nat}
    (kinds : ∀ e ∈ entries, e.body.kind = .snapshot) :
    Shapes m store (store.writeParts supersedes tables entries position) := by
  have part : ∀ (rest : List (LogEntry ν × Nat)) (store : Store ν σ ω), (∀ x ∈ rest, x.1.body.kind = .snapshot) →
      Shapes m store (rest.foldl (fun written x => written.write .part written.tables x.1 x.2) store) := by
    intro rest
    induction rest with
    | nil => exact fun store _ => .still rfl
    | cons x rest ih =>
      intro store kinds
      have shaped : Shaped m (⟨.part,some (x.1,x.2)⟩ : JournalRow ν ω) := by
        rintro entry position ⟨⟩
        exact kinds x List.mem_cons_self
      exact (write_shapes shaped).trans (ih _ fun y member => kinds y (List.mem_cons_of_mem _ member))
  cases entries with
  | nil => exact .still rfl
  | cons entry rest =>
    have shaped : Shaped m (⟨.snapshot (entry :: rest) supersedes,some (entry,position)⟩ : JournalRow ν ω) := by
      rintro other position ⟨⟩
      exact kinds entry List.mem_cons_self
    refine (write_shapes shaped).trans (part _ _ fun x member => kinds x.1 (List.mem_cons_of_mem _ ?_))
    obtain ⟨e,i⟩ := x
    exact List.fst_mem_of_mem_zipIdx member

theorem installSnapshot_shapes [DecidableEq ν] {entries : List (LogEntry ν)} {position : Nat} {joinHead : Option Nat}
    (ok : installSnapshot registry store entries position joinHead = .ok store') : Shapes m store store' := by
  unfold installSnapshot at ok
  obtain ⟨parts,read,ok⟩ := bind_ok ok
  obtain ⟨supersedes,_,ok⟩ := bind_ok ok
  split at ok
  next => cases ok
  next =>
    split at ok
    next => cases ok
    next =>
      split at ok
      next => cases ok
      next =>
        obtain ⟨tables,_,ok⟩ := bind_ok ok
        split at ok
        next => cases ok
        next =>
          cases ok
          have all : Shapes m store (store.writeParts supersedes.isSome tables entries position) :=
            writeParts_shapes (parts_kind read)
          cases joinHead with
          | none => exact all
          | some head =>
            refine all.trans (.still ?_)
            show (Store.join _ head).journal = _
            unfold Store.join
            split <;> simp

theorem takePart_shapes [DecidableEq ν] {run : CatchUp ν} {page : Page ν} {write : Option (ω × Nat)}
    {log : List (LogEntry ν)} {entry : LogEntry ν} {position : Nat} :
    Shapes m machine.store (machine.takePart registry run page write log entry position).store := by
  unfold Machine.takePart
  split
  next => exact .still rfl
  next =>
    dsimp only
    split
    next => exact .still rfl
    next =>
      split
      next => exact .still rfl
      next =>
        split
        next => exact .still rfl
        next store installed =>
          obtain ⟨through,_,installed⟩ := bind_ok installed
          split at installed
          next => exact installSnapshot_shapes installed
          next =>
            split at installed
            next => cases installed
            next => exact installSnapshot_shapes installed

theorem takeEntry_shapes [DecidableEq ν] {run : CatchUp ν} {page : Page ν} {write : Option (ω × Nat)}
    {log : List (LogEntry ν)} {entry : LogEntry ν} {position : Nat} :
    Shapes m machine.store (machine.takeEntry registry run page write log entry position).store := by
  unfold Machine.takeEntry
  split
  next => exact .still rfl
  next =>
    split
    next => exact takePart_shapes
    next =>
      split
      next => exact .still rfl
      next =>
        split
        next => exact .still rfl
        next store applied => exact applyRemoteEntry_shapes applied

theorem endPage_shapes {run : CatchUp ν} {page : Page ν} {write : Option (ω × Nat)} :
    Shapes m machine.store (machine.endPage run page write).store := by
  unfold Machine.endPage
  split
  next =>
    split
    next => exact .still rfl
    next => exact .still (by simp)
  next =>
    split
    next => exact .still rfl
    next => exact .still rfl

theorem readPage_shapes {run : CatchUp ν} {write : Option (ω × Nat)} {log : List (LogEntry ν)} {head count : Nat} :
    Shapes m machine.store (machine.readPage run write log head count).store := by
  unfold Machine.readPage
  split
  next => exact .still rfl
  next => exact .still rfl

end Shapes

/-- The rows one action appends: rows of the log, or one row of an own write. -/
def Rows (registry : Registry ν σ ω) (m : ν) (store store' : Store ν σ ω) : Prop :=
  ∃ rows, store'.journal = store.journal ++ rows ∧ (∀ row ∈ rows, Shaped m row) ∧
    ((∀ row ∈ rows, ∀ op, row.change ≠ .here op) ∨ ∃ row, rows = [row] ∧ OwnRow registry store.tables row)

theorem Rows.still {store store' : Store ν σ ω} (same : store'.journal = store.journal) :
    Rows registry m store store' :=
  ⟨[],by rw [same,List.append_nil],nofun,.inl nofun⟩

theorem Advances.rows (advances : Advances registry network m machine machine')
    (shapes : Shapes m machine.store machine'.store) : Rows registry m machine.store machine'.store := by
  obtain ⟨_,passes,_⟩ := advances.passes
  obtain ⟨rows,journal,_,foreign,_⟩ := passes.rows
  obtain ⟨rows',journal',shaped⟩ := shapes
  obtain rfl := List.append_cancel_left (journal.symm.trans journal')
  exact ⟨rows,journal,shaped,.inl foreign⟩

theorem shaped_local {op : ω} : ∀ row ∈ [(⟨.here op,none⟩ : JournalRow ν ω)], Shaped m row := by
  intro row member
  obtain rfl := List.mem_singleton.mp member
  exact nofun

theorem operate_rows (attempt : Attempt ω) :
    Rows registry m machine.store (machine.operate registry attempt).1.store := by
  unfold Machine.operate
  split
  next => exact .still rfl
  next => exact .still rfl
  next => exact .still rfl
  next after done =>
    refine ⟨[⟨.here attempt.op,none⟩],rfl,shaped_local,.inr ⟨_,rfl,fun op here => .inl ⟨after,?_⟩⟩⟩
    obtain rfl := Change.here.inj here
    exact done
  next => split <;> exact .still rfl

theorem finish_rows {attempt : Attempt ω} {data : List UInt8} {tables : σ} {decision : Decision} (stored : Bool)
    (parked : Parked registry network m machine.store attempt data tables) :
    Rows registry m machine.store (machine.finish m attempt data tables stored decision).1.store := by
  cases decision with
  | commit position =>
    cases stored with
    | true =>
      refine ⟨[⟨.here attempt.op,some (attempt.entry m data,position)⟩],rfl,?_,.inr ⟨_,rfl,fun op here => .inr ?_⟩⟩
      · intro row member
        obtain rfl := List.mem_singleton.mp member
        rintro entry position ⟨⟩
        exact ⟨rfl,rfl⟩
      obtain rfl := Change.here.inj here
      refine ⟨tables,data,parked.2.1,fun entry position' logged => ?_⟩
      obtain ⟨rfl,_⟩ := Prod.mk.inj (Option.some.inj logged)
      rfl
    | false => exact .still rfl
  | rollback sent code =>
    have same : (if sent then { machine with task := .idle } else
        machine.forget attempt.id).store.journal = machine.store.journal := by
      cases sent <;> rfl
    simp only [Machine.finish]
    split
    · split
      · exact .still same
      · refine .still ?_
        rw [startRun_store]
        exact same
    · exact .still same

theorem writeLocal_rows {op : ω} (done : machine.writeLocal registry op = some machine') :
    Rows registry m machine.store machine'.store := by
  unfold Machine.writeLocal at done
  split at done
  next => cases done
  next => cases done
  next made _ _ =>
    cases done
    refine ⟨[⟨.here op,none⟩],rfl,shaped_local,.inr ⟨_,rfl,fun other here => ?_⟩⟩
    obtain rfl := Change.here.inj here
    exact .inl ⟨_,made⟩
  next made _ _ =>
    split at done
    next =>
      cases done
      refine ⟨[⟨.here op,none⟩],rfl,shaped_local,.inr ⟨_,rfl,fun other here => ?_⟩⟩
      obtain rfl := Change.here.inj here
      exact .inr ⟨_,_,made,nofun⟩
    next => cases done
  next => cases done

theorem act_rows [DecidableEq ν] (ledger : Ledger network)
    (holds : MachineSound registry (starts m) network m machine)
    (acted : machine.act registry network m label = some (network',machine')) :
    Rows registry m machine.store machine'.store := by
  cases act_cases ledger holds acted with
  | still _ journal => exact .still journal
  | read advances is => exact advances.rows (is ▸ readPage_shapes)
  | took advances is => exact advances.rows (is ▸ takeEntry_shapes)
  | ended advances is => exact advances.rows (is ▸ endPage_shapes)
  | operated attempt is => exact is ▸ operate_rows attempt
  | finished stored sound is => exact is ▸ finish_rows stored sound.1
  | wrote done => exact writeLocal_rows done

/-- The tables the first rows of a machine's journal leave. -/
def tablesAt (registry : Registry ν σ ω) (start : σ) (journal : List (JournalRow ν ω)) (i : Nat) : σ :=
  (journal.take i).foldl registry.effect start

theorem tablesAt_next {start : σ} {journal : List (JournalRow ν ω)} {i : Nat} {row : JournalRow ν ω}
    (found : journal[i]? = some row) :
    tablesAt registry start journal (i + 1) = registry.effect (tablesAt registry start journal i) row := by
  obtain ⟨bound,value⟩ := List.getElem?_eq_some_iff.mp found
  rw [tablesAt,List.take_succ_eq_append_getElem bound,List.foldl_append,value]
  rfl

theorem tablesAt_append {start : σ} {journal rows : List (JournalRow ν ω)} {i : Nat} (inside : i ≤ journal.length) :
    tablesAt registry start (journal ++ rows) i = tablesAt registry start journal i := by
  rw [tablesAt,List.take_append_of_le_length inside]
  rfl

/-- Each row of a machine's journal, over the tables before it. -/
def Owned (registry : Registry ν σ ω) (start : σ) (m : ν) (journal : List (JournalRow ν ω)) : Prop :=
  ∀ (i : Nat) row, journal[i]? = some row → OwnRow registry (tablesAt registry start journal i) row ∧ Shaped m row

theorem Owned.grow {start : σ} {store store' : Store ν σ ω} (owned : Owned registry start m store.journal)
    (effects : store.tables = store.journal.foldl registry.effect start) (rows : Rows registry m store store') :
    Owned registry start m store'.journal := by
  obtain ⟨rows,journal,shaped,kind⟩ := rows
  rw [journal]
  intro i row found
  by_cases before : i < store.journal.length
  · rw [List.getElem?_append_left before] at found
    rw [tablesAt_append before.le]
    exact owned i row found
  · rw [List.getElem?_append_right (Nat.le_of_not_lt before)] at found
    refine ⟨?_,shaped row (List.mem_of_getElem? found)⟩
    rcases kind with foreign | ⟨own,rfl,made⟩
    · exact fun op here => absurd here (foreign row (List.mem_of_getElem? found) op)
    · have first : i = store.journal.length := by
        have := (List.getElem?_eq_some_iff.mp found).1
        rw [List.length_singleton] at this
        omega
      subst first
      rw [Nat.sub_self] at found
      obtain rfl := Option.some.inj found
      rw [tablesAt_append le_rfl,tablesAt,List.take_length,← effects]
      exact made

/-- In every state reached, each own row is of a write carried out where it stands. -/
theorem own_rows [DecidableEq ν] (initial : Initial starts w₀) (reached : Reach (next registry) Free w₀ w) (m : ν) :
    Owned registry (starts m) m (w.machines m).store.journal := by
  have coherent : ∀ w, Reach (next registry) Free w₀ w → Coherent registry starts w := fun w reached =>
    reached.invariant (Coherent registry starts) initial.coherent fun _ _ _ holds _ taken => holds.step taken
  refine reached.invariant_under (Coherent registry starts)
    (fun w => ∀ m, Owned registry (starts m) m (w.machines m).store.journal) coherent ?_ ?_ m
  · intro m i row found
    rw [(initial.machines m).2.2.2.1] at found
    cases found
  · intro w label w' holds owned _ taken m'
    unfold next at taken
    split at taken
    next m actor =>
      obtain ⟨⟨network',machine'⟩,acted,rfl⟩ := Option.map_eq_some_iff.mp taken
      dsimp only
      by_cases same : m' = m
      · subst same
        rw [Function.update_self]
        exact (owned m').grow (holds.machines m').1.effects (act_rows holds.ledger (holds.machines m') acted)
      · rw [Function.update_of_ne same]
        exact owned m'
    next =>
      obtain ⟨network',_,rfl⟩ := Option.map_eq_some_iff.mp taken
      exact owned m'

end Entorhinal.IdentityLog
