import Entorhinal.MovePact

/-! What the source driver's functions keep: one lemma for each of those that
neither write the record nor change the step for good, in the order of the
driver. -/
namespace Entorhinal.Move.Source

open RecordClient (RecordError RecordReply CasSettlement)

variable {cut : Cut} {α : Type} {w w' : World} {l : Local}

/-- The stored row is the driver's, apart from an abort asked for meanwhile. -/
structure Synced (row stored : AgentMove) : Prop where
  plan : stored.plan = row.plan
  step : stored.step = row.step
  abort : row.abortRequested.isSome = true → stored.abortRequested.isSome = true

def Kept (cut : Cut) (l : Local) (w : World) : Prop := SourceOk cut w l.row

def Ready (cut : Cut) (l : Local) (w : World) : Prop := SourceOk cut w l.row ∧ Synced l.row w.source

/-- The records and the trace grow. -/
structure Grown (_ : Local) (w : World) (_ : Local) (w' : World) : Prop where
  moves : w.moves.writes <:+ w'.moves.writes
  trace : w.trace <:+ w'.trace

/-- What the driver's quiet steps and the other parties leave as it is. -/
structure Later (l : Local) (w : World) (l' : Local) (w' : World) : Prop where
  step : l'.row.step = l.row.step
  prepared : l.row.source.prepared = true → l'.row.source.prepared = true
  abort : l.row.abortRequested.isSome = true → l'.row.abortRequested.isSome = true
  grown : Grown l w l' w'
  unpublished : Unpublished w → Unpublished w'
  unfroze : Unfroze w' → Unfroze w

theorem Synced.marked {row stored stored' : AgentMove} (synced : Synced row stored)
    (marked : Marked stored stored') : Synced row stored' := by
  rcases marked with rfl | ⟨request,rfl⟩
  · exact synced
  · exact ⟨synced.plan,synced.step,fun _ => rfl⟩

theorem later_of_rely (relied : SourceRely w w') : Later l w l w' :=
  ⟨rfl,id,id,⟨relied.moves,relied.trace⟩,relied.unpublished,relied.unfroze⟩

theorem grown_of_rely (relied : SourceRely w w') : Grown l w l w' := ⟨relied.moves,relied.trace⟩

theorem owed_receiver (relied : ReceiverRely cut w w') :
    ∀ q, q ≠ .source → rely cut q w w' := by
  intro q other
  cases q with
  | source => exact absurd rfl other
  | receiver => exact relied
  | inbox => exact relied.moves

/-- An assertion that the other parties keep. -/
def Stable (P : Local → World → Prop) : Prop := ∀ l w w', P l w → SourceRely w w' → P l w'

theorem kept_stable : Stable (Kept cut) := fun _ _ _ ok relied => SourceOk.stable ok relied

theorem ready_stable : Stable (Ready cut) :=
  fun _ _ _ ready relied => ⟨ready.1.stable relied,ready.2.marked relied.row⟩

theorem Stable.and_lasting {P F : Local → World → Prop} (stable : Stable P) (lasting : Lasting Later F) :
    Stable fun l w => P l w ∧ F l w :=
  fun l w w' holds relied => ⟨stable l w w' holds.1 relied,lasting _ _ _ _ (later_of_rely relied) holds.2⟩

abbrev discipline (cut : Cut) : Discipline World Effect Effect.Answer Choice :=
  (pact cut).discipline .source

/-- From `P` the driver's task ends in `Q`, and its row may be saved even if it fails. -/
abbrev Steady (cut : Cut) (P : Local → World → Prop) (m : Act α) (Q : α → Local → World → Prop) : Prop :=
  Framed (discipline cut) Later P m Q fun _ => Kept cut

/-- A task that may also change the step, write the record or unfreeze. -/
abbrev Loud (cut : Cut) (P : Local → World → Prop) (m : Act α) (Q : α → Local → World → Prop) : Prop :=
  Framed (discipline cut) Grown P m Q fun _ => Kept cut

abbrev Quiet (cut : Cut) (m : Act α) : Prop := Steady cut (Ready cut) m fun _ => Ready cut

theorem Steady.loud {P : Local → World → Prop} {m : Act α} {Q : α → Local → World → Prop}
    (steady : Steady cut P m Q) : Loud cut P m Q := steady.widen fun _ _ _ _ later => later.grown

section Effects

variable {φ : Type} {P : Local → World → Prop} {E : φ → Local → World → Prop}

theorem framed_effect {later : Local → World → Local → World → Prop} {e : Effect}
    {Q : e.Answer → Local → World → Prop}
    (waits : ∀ l w w', SourceRely w w' → later l w l w') (stable : Stable P)
    (acts : ∀ l w choice answer w', P l w → Inv cut w → act cut .source w e choice = some (answer,w') →
      Inv cut w' ∧ ReceiverRely cut w w' ∧ Q answer l w' ∧ later l w l w') :
    Framed (discipline cut) later P (Task.effect e : Driver φ e.Answer) Q E := by
  refine Framed.effect ?_ ?_
  · exact fun l w w' holds relied _ => ⟨stable l w w' holds relied,waits l w w' relied⟩
  · intro l w holds inv choice answer w' taken
    have ⟨kept,relied,after,moved⟩ := acts l w choice answer w' holds inv taken
    exact ⟨kept,owed_receiver relied,after,moved⟩

theorem framed_calm {e : Effect} (stable : Stable P)
    (calm : ∀ w choice answer w', act cut .source w e choice = some (answer,w') → Calm w w') :
    Framed (discipline cut) Later P (Task.effect e : Driver φ e.Answer) (fun _ => P) E := by
  refine framed_effect (fun _ _ _ => later_of_rely) stable ?_
  intro l w choice answer w' holds inv taken
  have quiet := calm w choice answer w' taken
  exact ⟨inv.calm quiet,quiet.receiverRely,stable l w w' holds quiet.sourceRely,later_of_rely quiet.sourceRely⟩

theorem framed_ask (stable : Stable P) (question : Question) :
    Framed (discipline cut) Later P (ask question : Driver φ question.Reply) (fun _ => P) E := by
  refine framed_calm (e := .ask question) stable fun w choice answer w' taken => ?_
  cases act_ask taken
  exact ⟨_,_,_,rfl,fun _ => id,fun _ => id,.inl rfl⟩

theorem framed_call (stable : Stable P) {moduleId : String} {op : ParticipantOp}
    (harmless : op ≠ .abort ∧ op ≠ .release) :
    Framed (discipline cut) Later P (call moduleId op : Driver φ _) (fun _ => P) E := by
  refine framed_calm (e := .call moduleId op) stable fun w choice answer w' taken => ?_
  cases act_call taken
  exact ⟨_,_,_,rfl,fun _ => id,fun _ => id,.inr ⟨.sent .source moduleId op,harmless,rfl⟩⟩

theorem framed_readClaim (stable : Stable P) :
    Framed (discipline cut) Later P (readClaimRecord : Driver φ _) (fun _ => P) E :=
  framed_calm (e := .readClaim) stable fun _ _ _ _ taken => (act_readClaim taken).1

/-- What a reply that is not stale says of the record. -/
def Shown (answer : Except RecordError (RecordReply MoveRecord)) (w : World) : Prop :=
  ∀ reply, answer = .ok reply → reply.stale = false →
    (reply.absent = true → Unpublished w) ∧
    (reply.absent = false → ∃ x ∈ w.moves.writes, x.version = reply.version ∧ reply.body = some x.body ∧
      .observed .source x ∈ w.trace)

theorem shown_of_act {choice : Choice} {answer : Except RecordError (RecordReply MoveRecord)}
    (taken : act cut .source w .readMove choice = some (answer,w')) : Shown answer w' := by
  intro reply same fresh
  obtain ⟨_,shows⟩ := act_readMove taken
  obtain ⟨rfl,moves,flights,observed⟩ := shows reply same fresh
  refine ⟨fun absent => ⟨?_,fun f member => ?_⟩,fun present => ?_⟩
  · have none : w.moves.current = none := Option.isNone_iff_eq_none.mp absent
    rw [moves]
    exact List.head?_eq_none_iff.mp none
  · rw [flights] at member
    exact of_decide_eq_true (List.mem_filter.mp member).2
  · cases current : w.moves.current with
    | none => rw [current] at present; cases present
    | some x =>
      refine ⟨x,?_,rfl,rfl,observed x current⟩
      rw [moves]
      exact Register.current_mem current

theorem framed_readMove :
    Framed (discipline cut) Later (Ready cut) (readMoveRecord : Driver φ _)
      (fun answer l w => Ready cut l w ∧ Shown answer w) E := by
  refine framed_effect (e := .readMove) (fun _ _ _ => later_of_rely) ready_stable ?_
  intro l w choice answer w' ready inv taken
  have calm := (act_readMove taken).1
  exact ⟨inv.calm calm,calm.receiverRely,⟨ready_stable l w w' ready calm.sourceRely,shown_of_act taken⟩,
    later_of_rely calm.sourceRely⟩

end Effects

section Rows

/-- The world after the source saved a row that meets its promises. -/
theorem saves_inv (inv : Inv cut w) {next : AgentMove} (ok : SourceOk cut w next) :
    let w' := (w.withRow .source next).record (.saved .source next.step)
    Inv cut w' ∧ ReceiverRely cut w w' ∧ ∀ l, Later l w l w' := by
  intro w'
  have calm : Calm { w with source := next } w' :=
    ⟨_,_,_,rfl,fun _ => id,fun _ => id,.inr ⟨_,by simp [Harmless],rfl⟩⟩
  refine ⟨(inv.setSource ok).calm calm,(receiverRely_source next).trans calm.receiverRely,fun l => ?_⟩
  exact ⟨rfl,id,id,⟨List.suffix_rfl,List.suffix_cons _ _⟩,id,calm.sourceRely.unfroze⟩

/-- What a checkpoint of a row leaves: the row it stored, or nothing stored. -/
def Stores (cut : Cut) (clear : Bool) (row : AgentMove) (w : World) : Except String AgentMove → Prop
  | .error _ => SourceOk cut w row
  | .ok saved => SourceOk cut w saved ∧ w.source = saved ∧ saved.step = row.step ∧
    saved.source = row.source ∧ (clear = false → row.abortRequested.isSome = true → saved.abortRequested.isSome = true)

/-- The row may be saved, with its abort cleared where that is asked. -/
def Savable (cut : Cut) (clear : Bool) (l : Local) (w : World) : Prop :=
  Kept cut l w ∧ (clear = true → SourceOk cut w { l.row with abortRequested := none })

theorem savable_stable {clear : Bool} : Stable (Savable cut clear) :=
  fun _ _ _ ok relied => ⟨SourceOk.stable ok.1 relied,fun asked => (ok.2 asked).stable relied⟩

theorem not_activating {row : AgentMove} (ok : SourceOk cut w row) : row.step ≠ .activating := by
  intro step
  have side := ok.onSource
  rw [step] at side
  cases side

theorem framed_checkpoint {φ : Type} {E : φ → Local → World → Prop} (clear : Bool) {current : AgentMove} :
    Framed (discipline cut) Later (fun l w => Savable cut clear l w ∧ l.row = current)
      (checkpoint current clear : Driver φ _)
      (fun answer l w => l.row = current ∧ Stores cut clear current w answer) E := by
  refine framed_effect (e := .checkpoint current clear) (fun _ _ _ => later_of_rely) ?_ ?_
  · exact fun l w w' holds relied => ⟨savable_stable l w w' holds.1 relied,holds.2⟩
  rintro l w choice answer w' ⟨⟨kept,cleared⟩,rfl⟩ inv taken
  rcases act_checkpoint taken with ⟨rfl,code,rfl⟩ | ⟨stored,found,rfl,rfl⟩
  · exact ⟨inv,.refl cut _,⟨rfl,kept⟩,later_of_rely (.refl _)⟩
  cases found
  rcases checkpointAgentMove_cases w.source l.row clear with ⟨step,_⟩ | ⟨_,abort,same,none,joined⟩
  · exact absurd step (not_activating kept)
  rw [same]
  have ok : SourceOk cut w (AgentMove.keepBackground { l.row with abortRequested := abort } w.source) := by
    cases clear with
    | true => exact (cleared rfl).similar rfl rfl rfl (fun some => by cases some)
    | false => exact SourceOk.similar kept rfl rfl rfl fun asked => (joined rfl).mp (.inr asked)
  obtain ⟨inv',relied,later⟩ := saves_inv inv ok
  exact ⟨inv',relied,⟨rfl,inv'.source,rfl,rfl,rfl,fun keep asked => (joined keep).mp (.inr asked)⟩,later l⟩

/-- Saving the row makes the stored row the driver's. -/
theorem save_steady : Steady cut (Kept cut) (save false) fun _ => Ready cut := by
  refine framed_row fun current => ?_
  refine Framed.bind ((framed_checkpoint false).consequence ?_ (fun _ _ _ => id) fun _ _ _ => id)
    fun answer => ?_
  · exact fun l w holds => ⟨⟨holds.1,fun asked => by cases asked⟩,holds.2⟩
  cases answer with
  | error code => exact Framed.fail (by rintro l w ⟨rfl,kept⟩; exact kept)
  | ok saved =>
    refine Framed.bind (Q := fun _ => Ready cut) (Framed.edit ?_ ?_) fun _ => ?_
    · rintro l w ⟨rfl,_,_,step,source,abort⟩
      exact ⟨step,fun prepared => source ▸ prepared,abort rfl,⟨List.suffix_rfl,List.suffix_rfl⟩,id,id⟩
    · rintro l w ⟨rfl,ok,stored,_⟩
      exact ⟨ok,by rw [stored]; exact ⟨rfl,rfl,id⟩⟩
    · refine Framed.bind (framed_ask ready_stable .gauges) fun answer => ?_
      cases answer with
      | error code => exact Framed.fail fun _ _ ready => ready.1
      | ok _ => exact Framed.pure fun _ _ => id

/-- Saving with the abort cleared. -/
theorem save_cleared (p : MoveStep → Prop) :
    Loud cut (fun l w => Savable cut true l w ∧ p l.row.step) (save true)
      fun _ l w => Ready cut l w ∧ p l.row.step := by
  refine framed_row fun current => ?_
  refine Framed.bind (Q := fun answer l w => p current.step ∧ l.row = current ∧ Stores cut true current w answer)
    ?_ fun answer => ?_
  · refine (((framed_checkpoint true).frame (F := fun _ _ => p current.step)
      fun _ _ _ _ _ => id).widen fun _ _ _ _ later => later.grown).consequence ?_ ?_ fun _ _ _ => id
    · rintro l w ⟨⟨savable,holds⟩,rfl⟩
      exact ⟨⟨savable,rfl⟩,holds⟩
    · exact fun _ _ _ holds => ⟨holds.2,holds.1⟩
  cases answer with
  | error code => exact Framed.fail (by rintro l w ⟨_,rfl,kept⟩; exact kept)
  | ok saved =>
    refine Framed.bind (Q := fun _ l w => Ready cut l w ∧ p l.row.step) (Framed.edit ?_ ?_) fun _ => ?_
    · exact fun l w _ => ⟨List.suffix_rfl,List.suffix_rfl⟩
    · rintro l w ⟨holds,rfl,ok,stored,step,_⟩
      exact ⟨⟨ok,by rw [stored]; exact ⟨rfl,rfl,id⟩⟩,show p saved.step from step ▸ holds⟩
    · have stable : Stable fun l w => Ready cut l w ∧ p l.row.step :=
        fun l w w' holds relied => ⟨ready_stable l w w' holds.1 relied,holds.2⟩
      refine Framed.bind ((framed_ask stable .gauges).widen fun _ _ _ _ later => later.grown) fun answer => ?_
      cases answer with
      | error code => exact Framed.fail fun _ _ ready => ready.1.1
      | ok _ => exact Framed.pure fun _ _ => id

/-- An edit that the driver's promises do not speak of. -/
def Neutral (change : AgentMove → AgentMove) : Prop :=
  ∀ row, (change row).step = row.step ∧ (change row).plan = row.plan ∧
    (change row).source.prepared = row.source.prepared ∧
    (change row).abortRequested = row.abortRequested

theorem edit_kept {change : AgentMove → AgentMove} (same : ∀ row, (change row).step = row.step ∧
      (change row).plan = row.plan ∧ (change row).source.prepared = row.source.prepared ∧
      (row.abortRequested.isSome = true → (change row).abortRequested.isSome = true)) :
    Steady cut (Kept cut) (editRow change) fun _ => Kept cut := by
  refine Framed.edit ?_ ?_
  · exact fun l w _ => ⟨(same l.row).1,fun prepared => (same l.row).2.2.1 ▸ prepared,(same l.row).2.2.2,⟨List.suffix_rfl,List.suffix_rfl⟩,id,id⟩
  · exact fun l w kept => SourceOk.similar kept (same l.row).1 (same l.row).2.1 (same l.row).2.2.1
      (same l.row).2.2.2

end Rows

section Quiet

variable {m : Act α}

theorem quiet_pure (a : α) : Quiet cut (pure a : Act α) := Framed.pure fun _ _ => id

theorem quiet_fail (f : Failure) : Quiet cut (Task.fail f : Act α) := Framed.fail fun _ _ ready => ready.1

theorem quiet_ask (question : Question) : Quiet cut (ask question : Act question.Reply) :=
  framed_ask ready_stable question

theorem quiet_call {moduleId : String} {op : ParticipantOp} (harmless : op ≠ .abort ∧ op ≠ .release) :
    Quiet cut (call moduleId op : Act _) := framed_call ready_stable harmless

theorem quiet_row {f : AgentMove → Act α} (rest : ∀ current, Quiet cut (f current)) :
    Quiet cut (row >>= f) :=
  framed_row fun current => (rest current).consequence (fun _ _ => And.left) (fun _ _ _ => id)
    fun _ _ _ => id

theorem quiet_edit {change : AgentMove → AgentMove} (neutral : Neutral change) :
    Quiet cut (editRow change) := by
  refine Framed.edit ?_ ?_
  · intro l w _
    obtain ⟨step,_,prepared,abort⟩ := neutral l.row
    exact ⟨step,fun before => prepared ▸ before,fun asked => abort ▸ asked,⟨List.suffix_rfl,List.suffix_rfl⟩,id,id⟩
  · rintro l w ⟨ok,synced⟩
    obtain ⟨step,plan,prepared,abort⟩ := neutral l.row
    exact ⟨ok.similar step plan prepared fun asked => abort ▸ asked,synced.plan.trans plan.symm,
      synced.step.trans step.symm,fun asked => synced.abort (abort ▸ asked)⟩

theorem quiet_progress {change : SourceProgress → SourceProgress}
    (same : ∀ p, (change p).prepared = p.prepared) : Quiet cut (editProgress change) :=
  quiet_edit fun row => ⟨rfl,rfl,same row.source,rfl⟩

theorem quiet_memory (change : Memory → Memory) : Quiet cut (editMemory change : Act Unit) :=
  Framed.edit (fun _ _ _ => ⟨rfl,id,id,⟨List.suffix_rfl,List.suffix_rfl⟩,id,id⟩) fun _ _ => id

theorem save_quiet : Quiet cut (save false) :=
  save_steady.consequence (fun _ _ => And.left) (fun _ _ _ => id) fun _ _ _ => id

theorem client_quiet (moduleId : String) : Quiet cut (client moduleId) := by
  refine Framed.bind (quiet_ask _) fun answer => ?_
  cases answer with
  | error code => exact quiet_fail _
  | ok _ => exact quiet_pure ()

theorem begin_quiet (moduleId : String) (op : ParticipantOp) : Quiet cut (begin moduleId op) :=
  Framed.bind (client_quiet moduleId) fun _ =>
    Framed.bind (quiet_progress fun _ => rfl) fun _ => save_quiet

theorem clearPending_quiet : Quiet cut clearPending :=
  Framed.bind (quiet_progress fun _ => rfl) fun _ => save_quiet

theorem settled_quiet (op : ParticipantOp) (moduleId : String)
    (answer : Except ClientError ParticipantReply) : Quiet cut (settled op moduleId answer) := by
  cases answer with
  | ok reply => exact Framed.bind clearPending_quiet fun _ => quiet_pure reply
  | error e =>
    unfold settled
    dsimp only
    split
    next => exact quiet_fail _
    next => exact Framed.bind clearPending_quiet fun _ => quiet_fail _

theorem abortAsked_steady : Steady cut (Ready cut) abortAsked
    fun asked l w => Ready cut l w ∧ l.row.abortRequested.isSome = asked := by
  refine framed_row fun current => ?_
  exact Framed.pure fun l w holds => ⟨holds.1,by rw [holds.2]⟩

theorem abortAsked_quiet : Quiet cut abortAsked :=
  abortAsked_steady.consequence (fun _ _ => id) (fun _ _ _ => And.left) fun _ _ _ => id

/-- The participants are left unprepared only for an abort. -/
theorem prepareAll_steady (todo participants : List MoveParticipant) (items : List CutItem) :
    Steady cut (Ready cut) (prepareAll todo participants items)
      fun frozen l w => Ready cut l w ∧ (frozen = none → l.row.abortRequested.isSome = true) := by
  induction todo generalizing participants items with
  | nil => exact Framed.pure fun _ _ ready => ⟨ready,fun none => by cases none⟩
  | cons participant rest ih =>
    refine Framed.bind (begin_quiet _ _) fun _ => ?_
    refine Framed.bind (quiet_call (by simp)) fun answer => ?_
    refine Framed.bind (settled_quiet _ _ answer) fun reply => ?_
    refine Framed.bind abortAsked_steady fun asked => ?_
    cases asked with
    | true => exact Framed.pure fun _ _ holds => ⟨holds.1,fun _ => holds.2⟩
    | false => exact (ih _ _).consequence (fun _ _ => And.left) (fun _ _ _ => id) fun _ _ _ => id

theorem exportAll_quiet (todo : List MoveParticipant) : Quiet cut (exportAll todo) := by
  induction todo with
  | nil => exact quiet_pure _
  | cons participant rest ih =>
    refine Framed.bind (begin_quiet _ _) fun _ => ?_
    refine Framed.bind (quiet_call (by simp)) fun answer => ?_
    refine Framed.bind (settled_quiet _ _ answer) fun reply => ?_
    refine Framed.bind abortAsked_quiet fun asked => ?_
    cases asked with
    | true => exact quiet_pure ()
    | false => exact ih

/-- A seal that fails changes nothing here. -/
theorem doorSeal_attempt : Framed (discipline cut) Later (Ready cut) doorSeal (fun _ => Ready cut)
    fun _ => Ready cut := by
  refine framed_row fun current => ?_
  have before : Framed (discipline cut) Later (fun l w => Ready cut l w ∧ l.row = current)
      (ask (.seal current.source.items) : Act _) (fun _ => Ready cut) fun _ => Ready cut :=
    (framed_ask ready_stable _).consequence (fun _ _ => And.left) (fun _ _ _ => id) fun _ _ _ => id
  refine Framed.bind before fun answer => ?_
  cases answer with
  | error e => exact Framed.fail fun _ _ => id
  | ok state => exact Framed.pure fun _ _ => id

theorem doorSeal_quiet : Quiet cut doorSeal :=
  doorSeal_attempt.consequence (fun _ _ => id) (fun _ _ _ => id) fun _ _ _ ready => ready.1

theorem doorStatus_quiet : Quiet cut doorStatus := by
  refine Framed.bind (quiet_ask _) fun answer => ?_
  cases answer with
  | error e => exact quiet_fail _
  | ok state => exact quiet_pure state

theorem resealIfSent_quiet : Quiet cut resealIfSent := by
  refine quiet_row fun current => ?_
  split
  next => exact Framed.bind doorSeal_quiet fun _ => quiet_pure ()
  next => exact quiet_pure ()

theorem sealState_quiet : Quiet cut sealState := by
  refine quiet_row fun current => ?_
  split
  next =>
    refine Framed.bind (quiet_edit fun _ => ⟨rfl,rfl,rfl,rfl⟩) fun _ => ?_
    exact Framed.bind save_quiet fun _ => doorSeal_quiet
  next => exact Framed.bind doorSeal_quiet fun _ => doorStatus_quiet

theorem inbox_quiet : Quiet cut inbox := by
  refine Framed.bind (quiet_ask _) fun answer => ?_
  cases answer with
  | error code => exact quiet_fail _
  | ok pending => exact quiet_pure pending

theorem landed_quiet (settlement : CasSettlement MoveRecord) : Quiet cut (landed settlement) := by
  cases settlement with
  | landed version => exact Framed.bind (quiet_edit fun _ => ⟨rfl,rfl,rfl,rfl⟩) fun _ => save_quiet
  | moved reply => exact quiet_pure ()

theorem quiet_readClaim : Quiet cut (readClaimRecord : Act _) := framed_readClaim ready_stable

theorem cache_quiet : Quiet cut applyClaim.cache := by
  refine Framed.bind (quiet_ask _) fun answer => ?_
  cases answer with
  | error code => exact quiet_fail _
  | ok _ => exact quiet_pure ()

theorem applyClaim_quiet (requirePresent : Bool) : Quiet cut (applyClaim requirePresent) := by
  refine Framed.bind quiet_readClaim fun answer => ?_
  cases answer with
  | error e => exact quiet_fail _
  | ok reply =>
    dsimp only
    split
    next => exact quiet_fail _
    next =>
      refine quiet_row fun current => ?_
      split
      next => exact cache_quiet
      next =>
        split
        next => exact quiet_fail _
        next claim decoded =>
          split
          next => exact quiet_fail _
          next =>
            split
            next => exact quiet_fail _
            next => exact cache_quiet

theorem handoffCovered_quiet (state : HandoffState) (code : Option String) :
    Quiet cut (handoffCovered state code) := by
  unfold handoffCovered
  split
  next => exact quiet_pure ()
  next =>
    refine Framed.bind (quiet_ask _) fun answer => ?_
    cases answer with
    | error e => exact quiet_fail _
    | ok status =>
      dsimp only
      split
      next => exact quiet_pure ()
      next => exact quiet_fail _

theorem handoff_quiet : Quiet cut handoff := by
  refine Framed.bind (quiet_ask _) fun answer => ?_
  cases answer with
  | error e => exact quiet_fail _
  | ok reply =>
    obtain ⟨state,code⟩ := reply
    refine quiet_row fun current => ?_
    split
    next =>
      refine Framed.bind (quiet_edit fun _ => ⟨rfl,rfl,rfl,rfl⟩) fun _ => ?_
      exact Framed.bind save_quiet fun _ => handoffCovered_quiet state code
    next => exact handoffCovered_quiet state code

theorem abortDoorCut_quiet : Quiet cut abortDoorCut := by
  refine Framed.bind (quiet_ask _) fun answer => ?_
  cases answer with
  | ok _ => exact quiet_pure ()
  | error e =>
    cases e with
    | refused code =>
      dsimp only
      split
      next => exact quiet_pure ()
      next => exact quiet_fail _
    | outcomeUnknown => exact quiet_fail _
    | invalidReply => exact quiet_fail _

theorem undoSeal_quiet : Quiet cut (undoSeal cut) := by
  refine quiet_row fun current => ?_
  split
  next =>
    refine Framed.bind (Q := fun _ => Ready cut) ?_ fun answer => ?_
    · exact doorSeal_attempt.attempt (fun _ _ _ => id) fun _ _ _ => id
    · cases answer with
      | ok _ => exact abortDoorCut_quiet
      | error failure =>
        dsimp only
        split
        next => exact Framed.bind (quiet_progress fun _ => rfl) fun _ => save_quiet
        next => exact quiet_fail _
  next => exact quiet_pure ()

theorem settlePending_quiet : Quiet cut settlePending := by
  refine quiet_row fun current => ?_
  split
  next => exact quiet_pure ()
  next pending found =>
    split
    next =>
      refine Framed.bind (client_quiet _) fun _ => ?_
      refine Framed.bind (quiet_call (by simp)) fun answer => ?_
      cases answer with
      | error e => exact quiet_fail _
      | ok _ =>
        refine Framed.bind (quiet_call (by split <;> simp)) fun answer => ?_
        cases answer with
        | ok _ => exact clearPending_quiet
        | error e =>
          dsimp only
          split
          next => exact quiet_fail _
          next => exact clearPending_quiet
    next => exact quiet_fail _

end Quiet

section Freeze

theorem lasting_step (p : MoveStep → Prop) : Lasting Later fun l _ => p l.row.step :=
  fun _ _ l' _ later holds => show p l'.row.step from later.step ▸ holds

/-- The steps from which the frozen export may be repeated. -/
def Freezes (step : MoveStep) : Prop := step = .preparing ∨ step = .exported ∨ step = .sealed

/-- A plan that was prepared is not changed any more; before that there is no record. -/
theorem freezes_ok {row : AgentMove} {participants : List MoveParticipant} {items : List CutItem}
    (ok : SourceOk cut w row) (step : Freezes row.step)
    (same : ¬ (row.source.prepared = true ∧
      (participants ≠ row.plan.participants ∨ items ≠ row.source.items))) :
    SourceOk cut w { row with
      plan := { row.plan with participants := participants }
      source := { row.source with items := items, prepared := true } } where
  onSource := ok.onSource
  machines := ok.machines
  prepared := fun _ => rfl
  early := ok.early
  late := ok.late
  plan := by
    by_cases prepared : row.source.prepared = true
    · have kept : participants = row.plan.participants := by
        by_contra other
        exact same ⟨prepared,.inl other⟩
      subst kept
      exact ok.plan
    · left
      rcases step with preparing | exported | sealed
      · exact ok.early (.inl preparing)
      · exact absurd (ok.prepared (.inl exported)) prepared
      · exact absurd (ok.prepared (.inr sealed)) prepared
  aborted := ok.aborted
  undone := ok.undone

theorem lasting_prepared : Lasting Later fun l _ => l.row.source.prepared = true :=
  fun _ _ _ _ later => later.prepared

theorem freezeExport_steady :
    Steady cut (fun l w => Ready cut l w ∧ Freezes l.row.step) (freezeExport cut)
      fun _ l w => Ready cut l w ∧ (l.row.abortRequested.isSome = true ∨ l.row.source.prepared = true) := by
  refine framed_row fun before => ?_
  refine Framed.bind (Q := fun frozen l w => (Ready cut l w ∧
    (frozen = none → l.row.abortRequested.isSome = true)) ∧ Freezes l.row.step) ?_ fun frozen => ?_
  · exact ((prepareAll_steady _ _ _).frame (lasting_step Freezes)).consequence (fun _ _ => And.left)
      (fun _ _ _ => id) fun _ _ _ => id
  cases frozen with
  | none => exact Framed.pure fun _ _ holds => ⟨holds.1.1,.inl (holds.1.2 rfl)⟩
  | some frozen =>
    obtain ⟨participants,items⟩ := frozen
    refine framed_row fun current => ?_
    split
    next => exact Framed.fail fun _ _ holds => holds.1.1.1.1
    next same =>
      refine Framed.bind (Q := fun _ l w => Kept cut l w ∧ l.row.source.prepared = true)
        (Framed.edit ?_ ?_) fun _ => ?_
      · exact fun _ _ _ => ⟨rfl,fun _ => rfl,id,⟨List.suffix_rfl,List.suffix_rfl⟩,id,id⟩
      · rintro l w ⟨⟨⟨ready,_⟩,step⟩,rfl⟩
        exact ⟨freezes_ok ready.1 step same,rfl⟩
      refine Framed.bind (save_steady.frame lasting_prepared) fun _ => ?_
      have rest : ∀ m : Act Unit, Quiet cut m →
          Steady cut (fun l w => Ready cut l w ∧ l.row.source.prepared = true) m fun _ l w =>
            Ready cut l w ∧ (l.row.abortRequested.isSome = true ∨ l.row.source.prepared = true) :=
        fun m quiet => (quiet.frame lasting_prepared).consequence (fun _ _ => id)
          (fun _ _ _ holds => ⟨holds.1,.inr holds.2⟩) fun _ _ _ => id
      refine rest _ (quiet_row fun prepared => ?_)
      split
      next => exact quiet_fail _
      next => exact exportAll_quiet _

theorem resume_quiet : Quiet cut (resume cut) := by
  refine framed_row fun current => ?_
  refine framed_memory fun kept => ?_
  split
  next again =>
    refine Framed.bind (Q := fun _ => Ready cut) ?_ fun _ => ?_
    · refine freezeExport_steady.consequence ?_ (fun _ _ _ => And.left) fun _ _ _ => id
      rintro l w ⟨ready,rfl⟩
      exact ⟨ready,.inr again.2⟩
    refine Framed.bind abortAsked_quiet fun asked => ?_
    cases asked with
    | true => exact quiet_pure false
    | false =>
      refine Framed.bind resealIfSent_quiet fun _ => ?_
      exact Framed.bind (quiet_memory _) fun _ => quiet_pure true
  next => exact Framed.pure fun _ _ => And.left

end Freeze

section Reads

/-- What a pass knows of the record it acts on. -/
def Seen : Option (MoveRecord × Nat) → World → Prop
  | none, w => Unpublished w
  | some (record,version), w =>
    ∃ x ∈ w.moves.writes, x.version = version ∧ x.body = record ∧ .observed .source x ∈ w.trace

theorem Seen.published {record : MoveRecord} {version : Nat} (seen : Seen (some (record,version)) w) :
    w.moves.writes ≠ [] := by
  obtain ⟨x,member,_⟩ := seen
  exact List.ne_nil_of_mem member

theorem Seen.has {record : MoveRecord} {version : Nat} (seen : Seen (some (record,version)) w) :
    Has w record.state := by
  obtain ⟨x,member,_,rfl,_⟩ := seen
  exact ⟨x,member,rfl⟩

theorem lasting_published : Lasting Grown fun _ w => w.moves.writes ≠ [] :=
  fun _ _ _ _ grown published => writes_grow published grown.moves

theorem lasting_seen (observed : MoveRecord × Nat) : Lasting Grown fun _ w => Seen (some observed) w :=
  fun _ _ _ _ grown ⟨x,member,version,body,event⟩ =>
    ⟨x,grown.moves.mem member,version,body,grown.trace.mem event⟩

theorem lasting_later {F : Local → World → Prop} (lasting : Lasting Grown F) : Lasting Later F :=
  fun l w l' w' later => lasting l w l' w' later.grown

theorem readMove_steady : Steady cut (Ready cut) (readMove cut) fun observed l w => Ready cut l w ∧ Seen observed w := by
  refine Framed.bind framed_readMove fun answer => ?_
  have refused : ∀ f, Steady cut (fun l w => Ready cut l w ∧ Shown answer w)
      (Task.fail f : Act (Option (MoveRecord × Nat))) (fun observed l w => Ready cut l w ∧ Seen observed w) :=
    fun f => Framed.fail fun _ _ holds => holds.1.1
  cases answer with
  | error e => exact refused _
  | ok reply =>
    dsimp only
    split
    next => exact refused _
    next fresh =>
      split
      next => exact refused _
      next =>
        split
        next absent =>
          exact Framed.pure fun l w holds =>
            ⟨holds.1,(holds.2 reply rfl (by simpa using fresh)).1 absent⟩
        next present =>
          refine framed_row fun current => ?_
          split
          next => exact Framed.fail fun _ _ holds => holds.1.1.1
          next record verified =>
            refine Framed.pure fun l w holds => ⟨holds.1.1,?_⟩
            have ⟨body,_⟩ := verifyRecord_ok verified
            obtain ⟨x,member,version,same,event⟩ :=
              (holds.1.2 reply rfl (by simpa using fresh)).2 (by simpa using present)
            exact ⟨x,member,version,by simpa [body] using same.symm,event⟩

theorem appendInbox_steady (attempts : Nat) :
    Steady cut (Ready cut) (appendInbox cut attempts) fun _ l w => Ready cut l w ∧ w.moves.writes ≠ [] := by
  induction attempts with
  | zero => exact Framed.fail fun _ _ ready => ready.1
  | succ attempts ih =>
    refine Framed.bind readMove_steady fun observed => ?_
    cases observed with
    | none => exact Framed.fail fun _ _ holds => holds.1.1
    | some observed =>
      obtain ⟨record,version⟩ := observed
      have known : ∀ m : Act Unit, Quiet cut m → Steady cut
          (fun l w => Ready cut l w ∧ Seen (some (record,version)) w) m
          fun _ l w => Ready cut l w ∧ w.moves.writes ≠ [] :=
        fun m quiet => (quiet.frame (lasting_later (lasting_seen (record,version)))).consequence (fun _ _ => id)
          (fun _ _ _ holds => ⟨holds.1,holds.2.published⟩) fun _ _ _ => id
      dsimp only
      split
      next => exact known _ (quiet_pure ())
      next =>
        refine Framed.bind (inbox_quiet.frame (lasting_later (lasting_seen (record,version)))) fun pending => ?_
        split
        next => exact known _ (quiet_pure ())
        next =>
          split
          next => exact known _ (quiet_fail _)
          next =>
            refine Framed.bind ((quiet_ask _).frame (lasting_later (lasting_seen (record,version)))) fun answer => ?_
            cases answer with
            | ok _ => exact known _ (quiet_pure ())
            | error e =>
              dsimp only
              split
              next => exact ih.consequence (fun _ _ => And.left) (fun _ _ _ => id) fun _ _ _ => id
              next => exact known _ (quiet_fail _)

end Reads
end Entorhinal.Move.Source
