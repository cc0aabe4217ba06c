import Entorhinal.MoveSourceCalls

/-! The source driver keeps the pact of the three parties: its writes of the
record, its releases and undoings, and the whole pass. -/
namespace Entorhinal.Move.Source

open RecordClient (RecordError RecordReply CasSettlement)

variable {cut : Cut} {α : Type} {w w' : World} {l : Local}

section Writes

/-- A write of the record that the source may send and that may land at any time. -/
structure CanWrite (cut : Cut) (request : CasRequest MoveRecord) (w : World) : Prop where
  permitted : Permitted w.moves.writes .source request
  first : request.body.state = .published → request.body.plan = w.source.plan
  may : MayWrite w w.source

theorem CanWrite.stable {request : CasRequest MoveRecord} (can : CanWrite cut request w)
    (relied : SourceRely w w') : CanWrite cut request w' where
  permitted := can.permitted.grow relied.moves
  first := fun published => (can.first published).trans relied.row.plan.symm
  may := {
    plan := rfl
    early := by rw [relied.row.step]; exact can.may.early
    aborted := by rw [relied.row.step]; exact fun step => (can.may.aborted step).grow relied.moves
    unfroze := fun unfroze => (can.may.unfroze (relied.unfroze unfroze)).grow relied.moves }

theorem CanWrite.grown {request : CasRequest MoveRecord} (can : CanWrite cut request w)
    (source : w'.source = w.source) (moves : w.moves.writes <:+ w'.moves.writes)
    (trace : w'.trace = w.trace) : CanWrite cut request w' where
  permitted := can.permitted.grow moves
  first := source ▸ can.first
  may := {
    plan := rfl
    early := by rw [source]; exact can.may.early
    aborted := by rw [source]; exact fun step => (can.may.aborted step).grow moves
    unfroze := fun ⟨moduleId,member⟩ => (can.may.unfroze ⟨moduleId,trace ▸ member⟩).grow moves }

theorem CanWrite.plan {request : CasRequest MoveRecord} (can : CanWrite cut request w) (inv : Inv cut w) :
    request.body.plan = w.source.plan := by
  rcases can.permitted with ⟨_,_,published⟩ | ⟨x,member,_,_,same⟩
  · exact can.first published
  · exact same.trans (inv.shared.planned x member)

theorem MayWrite.synced {row stored : AgentMove} (may : MayWrite w stored) (synced : Synced row stored) :
    MayWrite w row where
  plan := synced.plan ▸ may.plan
  early := by rw [← synced.step]; exact may.early
  aborted := by rw [← synced.step]; exact may.aborted
  unfroze := may.unfroze

/-- The driver's row keeps its promises through a write of its own. -/
theorem ready_grown {request : CasRequest MoveRecord} (ready : Ready cut l w) (can : CanWrite cut request w)
    (source : w'.source = w.source) (moves : w.moves.writes <:+ w'.moves.writes)
    (trace : w'.trace = w.trace) : Ready cut l w' := by
  have may : MayWrite w l.row := MayWrite.synced can.may ready.2
  refine ⟨ready.1.grown may source moves ?_,source ▸ ready.2⟩
  exact fun ⟨moduleId,member⟩ => ⟨moduleId,trace ▸ member⟩

theorem canWrite_stable {request : CasRequest MoveRecord} :
    Stable fun l w => Ready cut l w ∧ CanWrite cut request w :=
  fun l w w' holds relied => ⟨ready_stable l w w' holds.1 relied,holds.2.stable relied⟩

theorem sendMove_loud {request : CasRequest MoveRecord} :
    Loud cut (fun l w => Ready cut l w ∧ CanWrite cut request w) (sendMove request)
      fun _ l w => Ready cut l w ∧ CanWrite cut request w := by
  refine framed_effect (e := .casMove request) (fun _ _ _ => grown_of_rely) canWrite_stable ?_
  rintro l w choice answer w' ⟨ready,can⟩ inv taken
  rcases act_casMove taken with ⟨fresh,forgotten,_,rfl⟩ | ⟨_,rfl⟩
  · have moves := applied_grows w.moves (cut.machine .source) request fresh
    exact ⟨inv.sourceServe can.permitted (can.plan inv) can.may,receiverRely_applied,
      ⟨ready_grown ready can rfl moves rfl,can.grown rfl moves rfl⟩,moves,List.suffix_rfl⟩
  · exact ⟨inv.sourceFly can.permitted (can.plan inv) can.may,receiverRely_fly,
      ⟨ready_grown ready can rfl List.suffix_rfl rfl,can.grown rfl List.suffix_rfl rfl⟩,
      List.suffix_rfl,List.suffix_rfl⟩

theorem cas_loud {before : Option MoveRecordState} {version : Nat} {body : MoveRecord} :
    Loud cut (fun l w => Ready cut l w ∧ (allowed before body.state .source = true →
        CanWrite cut ⟨version,body,.move cut.cutId .source body.state⟩ w))
      (cas cut before version body) fun _ => Ready cut := by
  unfold cas
  split
  next => exact Framed.fail fun _ _ holds => holds.1.1
  next checked =>
    split
    next => exact Framed.fail fun _ _ holds => holds.1.1
    next encoded same =>
      rw [encodeMoveRecord_ok same]
      refine framed_row fun current => ?_
      refine Framed.bind (Q := fun _ => Ready cut) ?_ fun settled => ?_
      · refine (framed_casSettled (S := fun _ _ _ => True) (T := fun _ _ _ => True) (R := fun _ => Ready cut)
          (P := fun l w => Ready cut l w ∧
            CanWrite cut ⟨version,body,.move cut.cutId .source body.state⟩ w) ?_ ?_ ?_ ?_).consequence
          ?_ (fun _ _ _ => id) fun _ _ _ => id
        · exact sendMove_loud.consequence (fun _ _ => id) (fun _ _ _ holds => ⟨holds,trivial⟩) fun _ _ _ => id
        · refine (framed_calm (e := .readMove) canWrite_stable fun _ _ _ _ taken => (act_readMove taken).1).widen
            (fun _ _ _ _ later => later.grown) |>.consequence (fun _ _ => id)
            (fun _ _ _ holds => ⟨holds,trivial⟩) fun _ _ _ => id
        · exact fun _ _ _ holds _ _ => holds.1
        · exact fun _ _ _ _ holds _ _ => holds.1
        · exact fun l w holds => ⟨holds.1.1,holds.1.2 (checkTransition_ok checked)⟩
      cases settled with
      | error e => exact Framed.fail fun _ _ ready => ready.1
      | ok settlement => exact Framed.pure fun _ _ => id

theorem loud_weaken {P P' : Local → World → Prop} {m : Act α} {Q Q' : α → Local → World → Prop}
    (loud : Loud cut P m Q) (before : ∀ l w, P' l w → P l w) (after : ∀ a l w, Q a l w → Q' a l w) :
    Loud cut P' m Q' := loud.consequence before after fun _ _ _ => id

theorem save_loud : Loud cut (Savable cut true) (save true) fun _ => Ready cut :=
  loud_weaken (save_cleared fun _ => True) (fun _ _ savable => ⟨savable,trivial⟩) fun _ _ _ => And.left

theorem quiet_loud {m : Act α} (quiet : Quiet cut m) : Loud cut (Ready cut) m fun _ => Ready cut :=
  Steady.loud quiet

/-- An edit of the row, whatever it changes. -/
theorem edit_loud {P : Local → World → Prop} {Q : Unit → Local → World → Prop}
    {change : AgentMove → AgentMove} (holds : ∀ l w, P l w → Q () { l with row := change l.row } w) :
    Loud cut P (editRow change) Q :=
  Framed.edit (fun _ _ _ => ⟨List.suffix_rfl,List.suffix_rfl⟩) holds

theorem announce_loud : Loud cut (Ready cut) (announce cut) fun _ => Ready cut := by
  refine Framed.bind (appendInbox_steady 8).loud fun _ => ?_
  refine Framed.bind (Q := fun _ => Kept cut) (edit_loud ?_) fun _ => save_steady.loud
  exact fun l w holds => holds.1.1.advanced holds.2 (.inl rfl) rfl

def Thawed (w : World) : Prop := Unfroze w → Has w .aborted

theorem lasting_thawed : Lasting Later fun _ w => Thawed w :=
  fun _ _ _ _ later thawed unfroze => (thawed (later.unfroze unfroze)).grow later.grown.moves

/-- Once there is a record, nothing is unfrozen unless it reads aborted. -/
theorem thawed_of_published {row : AgentMove} (ok : SourceOk cut w row) (published : w.moves.writes ≠ []) :
    Thawed w := fun unfroze => (ok.undone unfroze).resolve_right fun rest => published rest.1.1

theorem publish_loud :
    Loud cut (fun l w => Ready cut l w ∧ l.row.step = .sealed ∧ Thawed w) (publish cut) fun _ => Ready cut := by
  have lasting : Lasting Later fun l w => l.row.step = .sealed ∧ Thawed w :=
    fun l w l' w' later holds => ⟨lasting_step (· = .sealed) l w l' w' later holds.1,
      lasting_thawed l w l' w' later holds.2⟩
  refine Framed.bind (Steady.loud (inbox_quiet.frame lasting)) fun pending => ?_
  split
  next =>
    refine Framed.bind (Steady.loud ?_) fun _ => save_steady.loud
    refine Framed.consequence (Q := fun _ => Kept cut) (edit_kept ?_) (fun _ _ holds => holds.1.1)
      (fun _ _ _ => id) fun _ _ _ => id
    exact fun row => ⟨rfl,rfl,rfl,fun _ => rfl⟩
  next =>
    refine framed_row fun current => ?_
    refine Framed.bind (loud_weaken cas_loud ?_ fun _ _ _ => id) fun settlement => ?_
    · rintro l w ⟨⟨ready,step,thawed⟩,rfl⟩
      refine ⟨ready,fun _ => ⟨.inl ⟨rfl,rfl,rfl⟩,fun _ => ready.2.plan.symm,rfl,?_,?_,thawed⟩⟩
      · rw [ready.2.step,step]; simp
      · rw [ready.2.step,step]; simp
    · exact Framed.bind (quiet_loud (landed_quiet settlement)) fun _ => announce_loud

theorem finishReleased_loud :
    Loud cut (fun l w => Kept cut l w ∧ w.moves.writes ≠ []) finishReleased fun _ => Ready cut := by
  refine Framed.bind (Q := fun _ => Savable cut true) (edit_loud ?_) fun _ => save_loud
  exact fun l w holds => ⟨holds.1.advanced holds.2 (.inr (.inr rfl)) rfl,
    fun _ => holds.1.advanced holds.2 (.inr (.inr rfl)) rfl⟩

end Writes

section Release

/-- The source read an activated record. -/
def SawActivated (w : World) : Prop := ∃ x, .observed .source x ∈ w.trace ∧ x.body.state = .activated

theorem lasting_saw : Lasting Later fun _ w => SawActivated w :=
  fun _ _ _ _ later ⟨x,event,state⟩ => ⟨x,later.grown.trace.mem event,state⟩

theorem sourceRely_released (moduleId : String) :
    SourceRely w (w.record (.sent .source moduleId .release)) :=
  ⟨.refl _,List.suffix_rfl,id,List.suffix_cons _ _,fun ⟨moduleId',member⟩ => by
    rcases List.mem_cons.mp member with same | inside
    · cases same
    · exact ⟨moduleId',inside⟩⟩

theorem callRelease_steady {moduleId : String} :
    Steady cut (fun l w => Ready cut l w ∧ SawActivated w) (call moduleId .release)
      fun _ l w => Ready cut l w ∧ SawActivated w := by
  have stable : Stable fun l w => Ready cut l w ∧ SawActivated w := ready_stable.and_lasting lasting_saw
  refine framed_effect (e := .call moduleId .release) (fun _ _ _ => later_of_rely) stable ?_
  intro l w choice answer w' holds inv taken
  cases act_call taken
  have relied := sourceRely_released (w := w) moduleId
  exact ⟨inv.releases moduleId holds.2,receiverRely_sent ..,stable l w _ holds relied,later_of_rely relied⟩

theorem releaseParticipant_steady (participant : MoveParticipant) :
    Steady cut (fun l w => Ready cut l w ∧ SawActivated w) (releaseParticipant participant)
      fun _ l w => Ready cut l w ∧ SawActivated w := by
  refine Framed.bind ((client_quiet _).frame lasting_saw) fun _ => ?_
  refine Framed.bind callRelease_steady fun answer => ?_
  cases answer with
  | error e => exact Framed.fail fun _ _ holds => holds.1.1
  | ok _ => exact save_quiet.frame lasting_saw

theorem release_loud {observed : MoveRecord × Nat} :
    Loud cut (fun l w => Ready cut l w ∧ l.row.step = .releasing ∧ Seen (some observed) w)
      (release cut (some observed)) fun _ => Ready cut := by
  obtain ⟨record,version⟩ := observed
  have lasting : Lasting Later fun l w => l.row.step = .releasing ∧ Seen (some (record,version)) w :=
    fun l w l' w' later holds => ⟨lasting_step (· = .releasing) l w l' w' later holds.1,
      lasting_seen (record,version) l w l' w' later.grown holds.2⟩
  unfold release
  dsimp only
  split
  next => exact loud_weaken finishReleased_loud (fun _ _ holds => ⟨holds.1.1,holds.2.2.published⟩) fun _ _ _ => id
  next =>
    split
    next => exact Framed.fail fun _ _ holds => holds.1.1
    next state =>
      have activated : record.state = .activated := not_not.mp state
      refine Framed.bind (Steady.loud ((applyClaim_quiet true).frame lasting)) fun _ => ?_
      refine Framed.bind (Steady.loud (handoff_quiet.frame lasting)) fun _ => ?_
      refine framed_row fun current => ?_
      refine Framed.bind (Q := fun _ l w => Ready cut l w ∧ l.row.step = .releasing ∧
        Seen (some (record,version)) w) ?_ fun _ => ?_
      · refine loud_weaken (Steady.loud ((Framed.each fun participant _ =>
          releaseParticipant_steady participant).frame lasting)) ?_ ?_
        · rintro l w ⟨⟨ready,step,seen⟩,_⟩
          have ⟨x,_,_,same,event⟩ := seen
          exact ⟨⟨ready,x,event,same ▸ activated⟩,step,seen⟩
        · exact fun _ _ _ holds => ⟨holds.1.1,holds.2⟩
      refine Framed.bind (Q := fun _ l w => Ready cut l w ∧ w.moves.writes ≠ []) ?_ fun settlement => ?_
      · refine loud_weaken (cas_loud.frame lasting_published) ?_ fun _ _ _ => id
        rintro l w ⟨ready,step,seen⟩
        refine ⟨⟨ready,fun permitted => ⟨?_,nofun,rfl,?_,?_,?_⟩⟩,seen.published⟩
        · obtain ⟨x,member,same,rfl,_⟩ := seen
          exact .inr ⟨x,member,same,by rw [activated]; exact permitted,rfl⟩
        · rw [ready.2.step,step]; simp
        · rw [ready.2.step,step]; simp
        · exact thawed_of_published ready.1 seen.published
      cases settlement with
      | moved reply => exact Framed.pure fun _ _ => And.left
      | landed landed =>
        refine Framed.bind (Q := fun _ l w => Kept cut l w ∧ w.moves.writes ≠ []) (edit_loud ?_) fun _ =>
          finishReleased_loud
        exact fun l w holds => ⟨holds.1.1.similar rfl rfl rfl id,holds.2⟩

end Release

section Undo

def Running (l : Local) : Prop := l.row.step.isTerminal = false

theorem refuseAbort_loud (state : MoveRecordState) :
    Loud cut (fun l w => (Kept cut l w ∧ w.moves.writes ≠ []) ∧ Running l) (refuseAbort state)
      fun _ l w => Ready cut l w ∧ Running l := by
  refine Framed.bind (Q := fun _ l w => Savable cut true l w ∧ l.row.step.isTerminal = false)
    (edit_loud ?_) fun _ => save_cleared fun step => step.isTerminal = false
  rintro l w ⟨⟨kept,published⟩,running⟩
  have ok := SourceOk.cleared kept (.inl published)
  exact ⟨⟨ok.similar rfl rfl rfl id,fun _ => ok.similar rfl rfl rfl id⟩,running⟩

theorem lasting_unfreeze : Lasting Later fun l w => MayUnfreeze w l.row :=
  fun _ _ _ _ later may => may.imp (·.grow later.grown.moves)
    fun rest => ⟨later.unpublished rest.1,later.abort rest.2⟩

theorem callAbort_loud {moduleId : String} :
    Loud cut (fun l w => Ready cut l w ∧ MayUnfreeze w l.row) (call moduleId .abort)
      fun _ l w => Ready cut l w ∧ MayUnfreeze w l.row := by
  refine framed_effect (e := .call moduleId .abort) (fun _ _ _ => grown_of_rely)
    (ready_stable.and_lasting lasting_unfreeze) ?_
  rintro l w choice answer w' ⟨ready,may⟩ inv taken
  cases act_call taken
  have stored : MayUnfreeze w w.source := may.imp id fun rest => ⟨rest.1,ready.2.abort rest.2⟩
  exact ⟨inv.unfreezes stored moduleId,receiverRely_sent ..,⟨⟨ready.1.unfreezes may moduleId,ready.2⟩,may⟩,
    List.suffix_rfl,List.suffix_cons _ _⟩

theorem abortParticipant_loud (participant : MoveParticipant) :
    Loud cut (fun l w => Ready cut l w ∧ MayUnfreeze w l.row) (abortParticipant participant)
      fun _ l w => Ready cut l w ∧ MayUnfreeze w l.row := by
  refine framed_row fun current => ?_
  split
  next => exact Framed.pure fun _ _ => And.left
  next =>
    refine Framed.bind (loud_weaken (Steady.loud ((client_quiet _).frame lasting_unfreeze))
      (fun _ _ => And.left) fun _ _ _ => id) fun _ => ?_
    refine Framed.bind callAbort_loud fun answer => ?_
    cases answer with
    | error e => exact Framed.fail fun _ _ holds => holds.1.1
    | ok _ =>
      refine Framed.bind (Steady.loud (Framed.frame (quiet_progress fun _ => rfl) lasting_unfreeze)) fun _ => ?_
      exact Steady.loud (save_quiet.frame lasting_unfreeze)

theorem abortParticipants_loud :
    Loud cut (fun l w => Ready cut l w ∧ MayUnfreeze w l.row) abortParticipants
      fun _ l w => Ready cut l w ∧ MayUnfreeze w l.row := by
  refine framed_row fun current => ?_
  exact loud_weaken (Framed.each fun participant _ => abortParticipant_loud participant)
    (fun _ _ => And.left) fun _ _ _ => id

theorem finishAborted_loud :
    Loud cut (fun l w => Ready cut l w ∧ MayUnfreeze w l.row) finishAborted fun _ => Ready cut := by
  refine Framed.bind (Q := fun _ => Savable cut true) (edit_loud ?_) fun _ => save_loud
  rintro l w ⟨ready,may⟩
  have undone : Has w .aborted ∨ Unpublished w := may.imp id And.left
  exact ⟨ready.1.ended undone rfl rfl,fun _ => ready.1.ended undone rfl rfl⟩

theorem undoUnpublished_loud :
    Loud cut (fun l w => Ready cut l w ∧ MayUnfreeze w l.row) (undoUnpublished cut) fun _ => Ready cut := by
  refine Framed.bind abortParticipants_loud fun _ => ?_
  exact Framed.bind (Steady.loud (undoSeal_quiet.frame lasting_unfreeze)) fun _ => finishAborted_loud

theorem undoAborted_loud :
    Loud cut (fun l w => Ready cut l w ∧ MayUnfreeze w l.row) undoAborted fun _ => Ready cut := by
  refine Framed.bind (Steady.loud ((applyClaim_quiet false).frame lasting_unfreeze)) fun _ => ?_
  refine framed_row fun current => loud_weaken (P := fun l w => Ready cut l w ∧ MayUnfreeze w l.row) ?_
    (fun _ _ => And.left) fun _ _ _ => id
  split
  next =>
    refine Framed.bind (Steady.loud (abortDoorCut_quiet.frame lasting_unfreeze)) fun _ => ?_
    exact Framed.bind abortParticipants_loud fun _ => finishAborted_loud
  next => exact Framed.bind abortParticipants_loud fun _ => finishAborted_loud

/-- What is known of the record when a pass acts: that there is none while the
cut is sealed, or the write that was read. -/
def Known (observed : Option (MoveRecord × Nat)) (l : Local) (w : World) : Prop :=
  match observed with
  | none => l.row.step = .sealed → Unpublished w
  | some observed => Seen (some observed) w

theorem lasting_known (observed : Option (MoveRecord × Nat)) : Lasting Later (Known observed) := by
  intro l w l' w' later known
  cases observed with
  | none => exact fun step => later.unpublished (known (later.step ▸ step))
  | some observed => exact lasting_seen observed l w l' w' later.grown known

/-- The cut of a row that is being undone. -/
structure Undoing (observed : Option (MoveRecord × Nat)) (l : Local) (w : World) : Prop where
  abort : l.row.abortRequested.isSome = true
  step : Freezes l.row.step ∨ l.row.step = .published
  known : Known observed l w

theorem lasting_undoing (observed : Option (MoveRecord × Nat)) : Lasting Later (Undoing observed) :=
  fun l w l' w' later undoing => ⟨later.abort undoing.abort,by rw [later.step]; exact undoing.step,
    lasting_known observed l w l' w' later undoing.known⟩

theorem cleanup_loud (observed : Option (MoveRecord × Nat)) :
    Loud cut (fun l w => Ready cut l w ∧ Undoing observed l w) (cleanup cut observed) fun _ => Ready cut := by
  have lasting := lasting_undoing observed
  refine Framed.bind (Steady.loud (settlePending_quiet.frame lasting)) fun _ => ?_
  refine framed_row fun asked => loud_weaken (P := fun l w => Ready cut l w ∧ Undoing observed l w) ?_
    (fun _ _ => And.left) fun _ _ _ => id
  refine Framed.bind (Steady.loud (Framed.frame (quiet_edit fun _ => ⟨rfl,rfl,rfl,rfl⟩) lasting)) fun _ => ?_
  refine Framed.bind (Steady.loud (save_quiet.frame lasting)) fun _ => ?_
  refine framed_row fun current => ?_
  split
  next published =>
    cases observed with
    | none =>
      dsimp only
      split
      next => exact Framed.fail fun _ _ holds => holds.1.1.1
      next unpublished =>
        refine loud_weaken undoUnpublished_loud ?_ fun _ _ _ => id
        rintro l w ⟨⟨ready,undoing⟩,rfl⟩
        exact ⟨ready,.inr ⟨undoing.known (published.resolve_right unpublished),undoing.abort⟩⟩
    | some observed =>
      obtain ⟨record,version⟩ := observed
      dsimp only
      split
      next state =>
        refine Framed.bind (loud_weaken cas_loud ?_ fun _ _ _ => id) fun settlement =>
          quiet_loud (landed_quiet settlement)
        rintro l w ⟨⟨ready,undoing⟩,rfl⟩
        have seen : Seen (some (record,version)) w := undoing.known
        refine ⟨ready,fun permitted => ⟨?_,nofun,rfl,?_,?_,thawed_of_published ready.1 seen.published⟩⟩
        · obtain ⟨x,member,same,rfl,_⟩ := seen
          exact .inr ⟨x,member,same,by rw [state]; exact permitted,rfl⟩
        · rw [ready.2.step]; rcases published with step | step <;> rw [step] <;> simp
        · rw [ready.2.step]; rcases published with step | step <;> rw [step] <;> simp
      next =>
        split
        next state =>
          refine loud_weaken undoAborted_loud ?_ fun _ _ _ => id
          rintro l w ⟨⟨ready,undoing⟩,rfl⟩
          have seen : Seen (some (record,version)) w := undoing.known
          exact ⟨ready,.inl (state ▸ seen.has)⟩
        next =>
          refine loud_weaken (refuseAbort_loud record.state) ?_ fun _ _ _ => And.left
          rintro l w ⟨⟨ready,undoing⟩,rfl⟩
          have seen : Seen (some (record,version)) w := undoing.known
          refine ⟨⟨ready.1,seen.published⟩,?_⟩
          rw [Running]
          rcases published with step | step <;> rw [step] <;> rfl
  next early =>
    refine loud_weaken undoUnpublished_loud ?_ fun _ _ _ => id
    rintro l w ⟨⟨ready,undoing⟩,rfl⟩
    refine ⟨ready,.inr ⟨ready.1.early ?_,undoing.abort⟩⟩
    rcases undoing.step with (step | step | step) | step
    · exact .inl step
    · exact .inr step
    · exact absurd (.inl step) early
    · exact absurd (.inr step) early

end Undo

section Pass

theorem advanceExported_loud :
    Loud cut (fun l w => Ready cut l w ∧ l.row.step = .exported) advanceExported fun _ => Ready cut := by
  have lasting := lasting_step (· = .exported)
  refine Framed.bind (Steady.loud (sealState_quiet.frame lasting)) fun status => ?_
  refine Framed.bind (Steady.loud (Framed.frame (quiet_edit fun _ => ⟨rfl,rfl,rfl,rfl⟩) lasting)) fun _ => ?_
  cases status with
  | published =>
    refine Framed.bind (Q := fun _ => Kept cut) (edit_loud ?_) fun _ => save_steady.loud
    exact fun l w holds => holds.1.1.sealed holds.2 rfl rfl rfl rfl
  | pending =>
    refine loud_weaken (P := Ready cut) ?_ (fun _ _ => And.left) fun _ _ _ => id
    refine Framed.bind (quiet_loud (quiet_ask .clock)) fun now => ?_
    refine Framed.bind (quiet_loud (quiet_edit fun _ => ⟨rfl,rfl,rfl,rfl⟩)) fun _ => ?_
    exact quiet_loud save_quiet
  | failed => exact Framed.fail fun _ _ holds => holds.1.1
  | aborted => exact Framed.fail fun _ _ holds => holds.1.1

theorem advancePreparing_loud :
    Loud cut (fun l w => Ready cut l w ∧ l.row.step = .preparing) (do
      freezeExport cut
      if ← abortAsked then return ()
      else
        editMemory fun m => { m with resumed := true }
        changeStep .exported
        save false) fun _ => Ready cut := by
  have lasting := lasting_step (· = .preparing)
  have frozen : Steady cut (fun l w => Ready cut l w ∧ l.row.step = .preparing) (freezeExport cut)
      fun _ l w => (Ready cut l w ∧ (l.row.abortRequested.isSome = true ∨ l.row.source.prepared = true)) ∧
        l.row.step = .preparing :=
    (freezeExport_steady.frame lasting).consequence (fun _ _ holds => ⟨⟨holds.1,.inl holds.2⟩,holds.2⟩)
      (fun _ _ _ => id) fun _ _ _ => id
  refine Framed.bind frozen.loud fun _ => ?_
  refine Framed.bind (Q := fun asked l w => Ready cut l w ∧
    (asked = false → l.row.source.prepared = true) ∧ l.row.step = .preparing) ?_ fun asked => ?_
  · refine framed_row fun current => Framed.pure ?_
    rintro l w ⟨⟨⟨ready,frozen⟩,step⟩,rfl⟩
    exact ⟨ready,fun none => frozen.resolve_left (by simp [none]),step⟩
  · cases asked with
    | true => exact Framed.pure fun _ _ => And.left
    | false =>
      refine Framed.bind (Q := fun _ l w => Ready cut l w ∧ l.row.source.prepared = true ∧
        l.row.step = .preparing) (Framed.edit ?_ ?_) fun _ => ?_
      · exact fun _ _ _ => ⟨List.suffix_rfl,List.suffix_rfl⟩
      · exact fun l w holds => ⟨holds.1,holds.2.1 rfl,holds.2.2⟩
      refine Framed.bind (Q := fun _ => Kept cut) (edit_loud ?_) fun _ => save_steady.loud
      exact fun l w holds => holds.1.1.exported holds.2.2 holds.2.1 rfl rfl rfl rfl

theorem advance_loud (observed : Option (MoveRecord × Nat)) :
    Loud cut (fun l w => Ready cut l w ∧ Known observed l w ∧ Thawed w) (advance cut observed)
      fun _ => Ready cut := by
  have lasting : Lasting Later fun l w => Known observed l w ∧ Thawed w :=
    fun l w l' w' later holds => ⟨lasting_known observed l w l' w' later holds.1,
      lasting_thawed l w l' w' later holds.2⟩
  refine Framed.bind (Steady.loud (resume_quiet.frame lasting)) fun resumed => ?_
  split
  next =>
    refine framed_row fun current => ?_
    split
    next step =>
      refine loud_weaken advancePreparing_loud ?_ fun _ _ _ => id
      exact fun l w holds => ⟨holds.1.1,holds.2 ▸ step⟩
    next step =>
      refine loud_weaken advanceExported_loud ?_ fun _ _ _ => id
      exact fun l w holds => ⟨holds.1.1,holds.2 ▸ step⟩
    next step =>
      cases observed with
      | none =>
        refine loud_weaken publish_loud ?_ fun _ _ _ => id
        exact fun l w holds => ⟨holds.1.1,holds.2 ▸ step,holds.1.2.2⟩
      | some observed => exact loud_weaken announce_loud (fun _ _ holds => holds.1.1) fun _ _ _ => id
    next step =>
      cases observed with
      | none => exact Framed.pure fun _ _ holds => holds.1.1
      | some observed =>
        dsimp only
        split
        next =>
          refine loud_weaken finishReleased_loud ?_ fun _ _ _ => id
          exact fun l w holds => ⟨holds.1.1.1,Seen.published holds.1.2.1⟩
        next => exact Framed.pure fun _ _ holds => holds.1.1
    next step =>
      cases observed with
      | none => exact Framed.fail fun _ _ holds => holds.1.1.1
      | some observed =>
        refine loud_weaken release_loud ?_ fun _ _ _ => id
        exact fun l w holds => ⟨holds.1.1,holds.2 ▸ step,holds.1.2.1⟩
    next => exact Framed.pure fun _ _ holds => holds.1.1
  next => exact Framed.pure fun _ _ => And.left

theorem clock_kept : Steady cut (Kept cut) (clock : Act Int) fun _ => Kept cut :=
  framed_ask kept_stable .clock

/-- A failed pass is recorded in the row, from wherever it failed. -/
theorem failed_steady (f : Failure) : Steady cut (Kept cut) (failed cut f) fun _ => Ready cut := by
  have edited : ∀ change : AgentMove → AgentMove, (∀ row, (change row).step = row.step ∧
      (change row).plan = row.plan ∧ (change row).source.prepared = row.source.prepared ∧
      (row.abortRequested.isSome = true → (change row).abortRequested.isSome = true)) →
      Steady cut (Kept cut) (do editRow change; save false) fun _ => Ready cut :=
    fun change same => Framed.bind (edit_kept same) fun _ => save_steady
  refine framed_row fun current => ?_
  refine Framed.consequence (P := Kept cut) ?_ (fun _ _ => And.left) (fun _ _ _ => id) fun _ _ _ => id
  dsimp only
  split
  next =>
    refine Framed.bind (Q := fun _ => Kept cut) (Framed.edit ?_ fun _ _ => id) fun _ => ?_
    · exact fun _ _ _ => ⟨rfl,id,id,⟨List.suffix_rfl,List.suffix_rfl⟩,id,id⟩
    · exact edited _ fun _ => ⟨rfl,rfl,rfl,id⟩
  split
  next => exact edited _ fun _ => ⟨rfl,rfl,rfl,id⟩
  split
  next => exact Framed.bind clock_kept fun now => edited _ fun _ => ⟨rfl,rfl,rfl,id⟩
  next => exact edited _ fun _ => ⟨rfl,rfl,rfl,fun _ => rfl⟩

theorem notice_loud (record : MoveRecord) (version : Nat) :
    Loud cut (fun l w => (Ready cut l w ∧ w.moves.writes ≠ []) ∧ Running l) (notice record version)
      fun _ l w => Ready cut l w ∧ Running l := by
  have running : Lasting Later fun l _ => Running l := lasting_step fun step => step.isTerminal = false
  have lasting : Lasting Later fun l w => w.moves.writes ≠ [] ∧ Running l := fun l w l' w' later holds =>
    ⟨lasting_later lasting_published l w l' w' later holds.1,running l w l' w' later holds.2⟩
  refine Framed.bind (Q := fun _ l w => Ready cut l w ∧ w.moves.writes ≠ [] ∧ Running l) ?_ fun _ => ?_
  · refine loud_weaken (Steady.loud (Framed.frame (quiet_edit ?_) lasting)) ?_ fun _ _ _ => id
    · exact fun _ => ⟨rfl,rfl,rfl,rfl⟩
    · exact fun _ _ holds => ⟨holds.1.1,holds.1.2,holds.2⟩
  refine framed_row fun current => ?_
  split
  next =>
    refine Framed.bind (Q := fun _ l w => Kept cut l w ∧ Running l) ?_ fun _ =>
      Steady.loud (save_steady.frame running)
    refine loud_weaken (Steady.loud (Framed.frame (edit_kept ?_) running)) ?_ fun _ _ _ => id
    · exact fun _ => ⟨rfl,rfl,rfl,fun _ => rfl⟩
    · exact fun _ _ holds => ⟨holds.1.1.1,holds.1.2.2⟩
  next =>
    split
    next =>
      refine loud_weaken (refuseAbort_loud record.state) ?_ fun _ _ _ => id
      exact fun _ _ holds => ⟨⟨holds.1.1.1,holds.1.2.1⟩,holds.1.2.2⟩
    next => exact Framed.pure fun _ _ holds => ⟨holds.1.1,holds.1.2.2⟩

theorem noticeActivated_loud (record : MoveRecord) :
    Loud cut (fun l w => (Ready cut l w ∧ w.moves.writes ≠ []) ∧ Running l) (noticeActivated record)
      fun _ l w => Ready cut l w ∧ Running l := by
  refine framed_row fun current => ?_
  split
  next =>
    refine Framed.bind (Q := fun _ l w => Savable cut true l w ∧ l.row.step.isTerminal = false)
      (edit_loud ?_) fun _ => save_cleared fun step => step.isTerminal = false
    rintro l w ⟨⟨⟨ready,published⟩,_⟩,_⟩
    exact ⟨⟨ready.1.advanced published (.inr (.inl rfl)) rfl,
      fun _ => ready.1.advanced published (.inr (.inl rfl)) rfl⟩,rfl⟩
  next => exact Framed.pure fun _ _ holds => ⟨holds.1.1.1,holds.1.2⟩

theorem watch_loud (watching : Bool) (observed : Option (MoveRecord × Nat)) :
    Loud cut (fun l w => (Ready cut l w ∧ Running l) ∧ Known observed l w) (watch watching observed)
      fun _ l w => (Ready cut l w ∧ Running l) ∧ Known observed l w := by
  cases observed with
  | none => exact Framed.pure fun _ _ => id
  | some observed =>
    obtain ⟨record,version⟩ := observed
    unfold watch
    dsimp only
    split
    next =>
      have seen := lasting_seen (record,version)
      refine Framed.bind (loud_weaken ((notice_loud record version).frame seen) ?_ fun _ _ _ => id) fun _ => ?_
      · exact fun _ _ holds => ⟨⟨⟨holds.1.1,Seen.published holds.2⟩,holds.1.2⟩,holds.2⟩
      · refine loud_weaken ((noticeActivated_loud record).frame seen) ?_ fun _ _ _ => id
        exact fun _ _ holds => ⟨⟨⟨holds.1.1,holds.2.published⟩,holds.1.2⟩,holds.2⟩
    next => exact Framed.pure fun _ _ => id

theorem onSource_running {row : AgentMove} (ok : SourceOk cut w row) (running : row.step.isTerminal = false) :
    Freezes row.step ∨ row.step = .published ∨ row.step = .releasing := by
  have side := ok.onSource
  rw [Freezes]
  generalize row.step = step at side running
  cases step <;> simp_all [ofSource,MoveStep.isTerminal]

theorem work_loud (observed : Option (MoveRecord × Nat)) (current : AgentMove) :
    Loud cut (fun l w => ((Ready cut l w ∧ Running l) ∧ Known observed l w) ∧
        l.row.abortRequested.isSome = current.abortRequested.isSome ∧ l.row.step = current.step)
      (if current.abortRequested.isSome ∧ current.step ≠ .releasing then cleanup cut observed
        else advance cut observed) fun _ => Ready cut := by
  split
  next undoing =>
    refine loud_weaken (cleanup_loud observed) ?_ fun _ _ _ => id
    rintro l w ⟨⟨⟨ready,running⟩,known⟩,abort,step⟩
    refine ⟨ready,abort.trans undoing.1,?_,known⟩
    rcases onSource_running ready.1 running with freezes | published | releasing
    · exact .inl freezes
    · exact .inr published
    · exact absurd (step ▸ releasing) undoing.2
  next going =>
    refine loud_weaken (advance_loud observed) ?_ fun _ _ _ => id
    rintro l w ⟨⟨⟨ready,running⟩,known⟩,abort,step⟩
    refine ⟨ready,known,fun unfroze => ?_⟩
    rcases ready.1.undone unfroze with aborted | ⟨unpublished,asked | ended⟩
    · exact aborted
    · have releasing : current.step = .releasing := by
        by_contra other
        exact going ⟨abort ▸ asked,other⟩
      exact absurd unpublished.1 (ready.1.late (.inr (.inl (step.trans releasing))))
    · rw [Running,ended] at running
      cases running

theorem proceed_loud (watching : Bool) (observed : Option (MoveRecord × Nat)) :
    Loud cut (fun l w => (Ready cut l w ∧ Running l) ∧ Known observed l w) (proceed cut watching observed)
      fun _ => Ready cut := by
  refine Framed.bind (watch_loud watching observed) fun _ => ?_
  refine framed_row fun current => framed_memory fun kept => ?_
  split
  next =>
    cases observed with
    | none => exact Framed.pure fun _ _ holds => holds.1.1.1
    | some observed =>
      dsimp only
      split
      next =>
        refine loud_weaken finishReleased_loud ?_ fun _ _ _ => id
        exact fun _ _ holds => ⟨holds.1.1.1.1,Seen.published holds.1.2⟩
      next => exact Framed.pure fun _ _ holds => holds.1.1.1
  split
  next => exact Framed.pure fun _ _ holds => holds.1.1.1
  have stable : Stable fun l w => ((Ready cut l w ∧ Running l) ∧ Known observed l w) ∧ l.row = current :=
    fun l w w' holds relied => ⟨⟨⟨ready_stable l w w' holds.1.1.1 relied,holds.1.1.2⟩,
      lasting_known observed l w l w' (later_of_rely relied) holds.1.2⟩,holds.2⟩
  refine Framed.bind (Steady.loud (framed_ask stable .clock)) fun now => ?_
  split
  next => exact Framed.pure fun _ _ holds => holds.1.1.1
  refine Framed.bind (Q := fun result l w => match result with
    | .ok _ => Ready cut l w
    | .error _ => Kept cut l w) ?_ fun result => ?_
  · refine Framed.attempt (loud_weaken (work_loud observed current) ?_ fun _ _ _ => id) (fun _ _ _ => id)
      fun _ _ _ => id
    rintro l w ⟨holds,rfl⟩
    exact ⟨holds,rfl,rfl⟩
  cases result with
  | ok _ => exact Framed.pure fun _ _ => id
  | error f => exact (failed_steady f).loud

/-- The pass reads the record where it watches it or the poll is due. -/
theorem polled_loud (watching due : Bool) {step : MoveStep} (running : step.isTerminal = false)
    (watched : watching = false → step ≠ .sealed) :
    Loud cut (fun l w => Ready cut l w ∧ l.row.step = step)
      (if watching ∨ due then do
        match ← (readMove cut).attempt with
        | .error f => failed cut f
        | .ok observed => proceed cut watching observed
      else proceed cut watching none) fun _ _ _ => True := by
  have started : Lasting Later fun l _ => l.row.step = step := lasting_step (· = step)
  split
  next =>
    refine Framed.bind (Q := fun result l w => match result with
      | .ok observed => (Ready cut l w ∧ Running l) ∧ Known observed l w
      | .error _ => Kept cut l w) ?_ fun result => ?_
    · refine Framed.attempt (Steady.loud (readMove_steady.frame started)) ?_ fun _ _ _ => id
      rintro observed l w ⟨⟨ready,seen⟩,same⟩
      refine ⟨⟨ready,by rw [Running,same]; exact running⟩,?_⟩
      cases observed with
      | none => exact fun _ => seen
      | some observed => exact seen
    cases result with
    | ok observed => exact loud_weaken (proceed_loud _ observed) (fun _ _ => id) fun _ _ _ _ => trivial
    | error f => exact loud_weaken (failed_steady f).loud (fun _ _ => id) fun _ _ _ _ => trivial
  next unwatched =>
    refine loud_weaken (proceed_loud _ none) ?_ fun _ _ _ _ => trivial
    rintro l w ⟨ready,same⟩
    refine ⟨⟨ready,by rw [Running,same]; exact running⟩,fun sealed => ?_⟩
    exact absurd (same ▸ sealed) (watched (by cases watching <;> simp_all))

/-- A pass from a row that was just loaded. -/
theorem tick_loud : Loud cut (Ready cut) (tick cut) fun _ _ _ => True := by
  refine framed_row fun current => ?_
  split
  next => exact Framed.pure fun _ _ _ => trivial
  next running =>
    have started : Lasting Later fun l _ => l.row.step = current.step := lasting_step (· = current.step)
    have begun : ∀ l w, Ready cut l w ∧ l.row = current → Ready cut l w ∧ l.row.step = current.step :=
      fun l w holds => ⟨holds.1,congrArg AgentMove.step holds.2⟩
    refine loud_weaken (P := fun l w => Ready cut l w ∧ l.row.step = current.step) ?_ begun fun _ _ _ => id
    refine Framed.bind (Steady.loud ((quiet_ask .pollDue).frame started)) fun due => ?_
    refine polled_loud _ due (by simpa using running) ?_
    cases current.step <;> simp

/-- The source's passes keep the pact from any world of it, whatever the driver remembers. -/
theorem pass_safe (kept : Memory) : (discipline cut).Safe (pass cut .source kept) (fun _ _ => True) w := by
  intro s relied holds choice answer s' taken
  have ⟨inv',rely'⟩ : Inv cut s' ∧ ∀ p, rely cut p s s' := by
    rcases act_consumeRetry taken with rfl | ⟨row,found,rfl⟩
    · exact ⟨holds,fun p => rely_refl p _⟩
    · cases found
      refine holds.markSource ?_
      rcases consumeMoveAbortRetry_cases s.source with same | ⟨_,request,same⟩
      · exact .inl same
      · exact .inr ⟨request,same⟩
  refine ⟨inv',fun q _ => rely' q,?_⟩
  intro t relied' holds' choice' found t' taken'
  obtain ⟨rfl,loaded⟩ := act_row taken'
  refine ⟨holds',fun q _ => rely_refl q _,?_⟩
  cases found with
  | error code => trivial
  | ok found =>
    have same : found = some t'.source := loaded found rfl
    subst same
    refine Discipline.Safe.bind (tick_loud.safe ⟨holds'.source,rfl,rfl,id⟩) fun _ _ _ => trivial

end Pass
end Entorhinal.Move.Source
