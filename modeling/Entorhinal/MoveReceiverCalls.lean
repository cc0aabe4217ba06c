import Entorhinal.MovePact

/-! What the receiver driver's functions keep: one lemma for each of those that
neither write the records nor change the step, in the order of the driver. -/
namespace Entorhinal.Move

section Rows

variable {cut : Cut} {w : World}

/-- The rows agree on the plan and the claim. -/
structure SameClaim (row row' : AgentMove) : Prop where
  plan : row'.plan = row.plan
  take : row'.claimTakeBody = row.claimTakeBody
  takeVersion : row'.claimTakeVersion = row.claimTakeVersion
  landed : row'.claimLandedVersion = row.claimLandedVersion

theorem Extends.same {stored row row' : AgentMove} (extends' : Extends stored row) (same : SameClaim row row') :
    Extends stored row' := by
  refine ⟨extends'.plan.trans same.plan.symm,?_,?_⟩
  · rw [same.take,same.takeVersion]; exact extends'.take
  · rw [same.landed]; exact extends'.landed

/-- A row that takes another step keeps its promises as far as the step allows. -/
theorem ReceiverOk.onward {row row' : AgentMove} (ok : ReceiverOk cut w row) (same : SameClaim row row')
    (pending : ∀ moduleId, row'.receiver.pending = some ⟨moduleId,.activate⟩ → Saved w)
    (staged : pastStaged row'.step = true → Has w .staged)
    (claimed : pastClaimed row'.step = true → Has w .claimed ∧ row.claimLandedVersion.isSome = true)
    (backing : Attempted cut w .aborted →
      (row'.abortRequested.isSome = true ∧ row'.step.beforeBoundary .receiver = true) ∨ row'.step = .aborted)
    (begun : Attempted cut w .activated → crossed row'.step = true)
    (saved : Saved w → crossed row'.step = true) (ended : row'.step = .aborted → Settled cut w) :
    ReceiverOk cut w row' where
  machines := same.plan ▸ ok.machines
  published := ok.published
  plan := fun x member => (ok.plan x member).trans same.plan.symm
  staged := staged
  claimed := by rw [same.landed]; exact claimed
  backing := backing
  begun := begun
  saved := saved
  pending := pending
  stored := by
    obtain ⟨stored,found,extended⟩ := ok.stored
    exact ⟨stored,found,extended.same same⟩
  landed := by rw [same.landed,same.take]; exact ok.landed
  take := by
    intro take body
    have old := ok.take take (same.take ▸ body)
    exact ⟨old.holder,by rw [same.takeVersion,same.plan]; exact old.version,same.plan ▸ old.prior⟩
  ended := ended

theorem ReceiverOk.similar {row row' : AgentMove} (ok : ReceiverOk cut w row) (same : SameClaim row row')
    (step : row'.step = row.step)
    (abort : row.abortRequested.isSome = true → row'.abortRequested.isSome = true)
    (pending : ∀ moduleId, row'.receiver.pending = some ⟨moduleId,.activate⟩ → Saved w) :
    ReceiverOk cut w row' := by
  refine ok.onward same pending ?_ ?_ ?_ ?_ ?_ ?_
  · rw [step]; exact ok.staged
  · rw [step]; exact ok.claimed
  · rw [step]; exact fun attempted => (ok.backing attempted).imp (fun before => ⟨abort before.1,before.2⟩) id
  · rw [step]; exact ok.begun
  · rw [step]; exact ok.saved
  · rw [step]; exact ok.ended

end Rows
namespace Receiver

open RecordClient (RecordError RecordReply CasSettlement)

variable {cut : Cut} {α : Type} {w w' : World} {l : Local}

/-- The stored row is the driver's, apart from an abort asked for meanwhile. -/
structure Synced (row stored : AgentMove) : Prop where
  plan : stored.plan = row.plan
  step : stored.step = row.step
  take : stored.claimTakeBody = row.claimTakeBody
  takeVersion : stored.claimTakeVersion = row.claimTakeVersion
  landed : stored.claimLandedVersion = row.claimLandedVersion
  abort : row.abortRequested.isSome = true → stored.abortRequested.isSome = true

def Kept (cut : Cut) (l : Local) (w : World) : Prop := ReceiverOk cut w l.row

/-- The row may be saved with the step it has: the boundary was saved before. -/
def Savable (cut : Cut) (l : Local) (w : World) : Prop :=
  Kept cut l w ∧ (l.row.step = .activating → Saved w)

def Ready (cut : Cut) (l : Local) (w : World) : Prop :=
  Savable cut l w ∧ ∃ stored, w.receiver = some stored ∧ Synced l.row stored

/-- The records and the trace grow. -/
structure Grown (_ : Local) (w : World) (_ : Local) (w' : World) : Prop where
  moves : w.moves.writes <:+ w'.moves.writes
  claims : w.claims.writes <:+ w'.claims.writes
  trace : w.trace <:+ w'.trace

/-- The row stays where it is in the move. -/
structure Along (l : Local) (w : World) (l' : Local) (w' : World) : Prop where
  step : l'.row.step = l.row.step
  abort : l.row.abortRequested.isSome = true → l'.row.abortRequested.isSome = true
  landed : l.row.claimLandedVersion.isSome = true → l'.row.claimLandedVersion.isSome = true
  grown : Grown l w l' w'

/-- What sending a claim write leaves as it is. -/
structure Claiming (l : Local) (w : World) (l' : Local) (w' : World) : Prop extends Along l w l' w' where
  version : l'.row.recordVersion = l.row.recordVersion

/-- What sending a write of the move record leaves as it is. -/
structure Writing (cut : Cut) (l : Local) (w : World) (l' : Local) (w' : World) : Prop
    extends Along l w l' w' where
  settled : Settled cut w → Settled cut w'

/-- What the driver's quiet steps and the other parties leave as it is. -/
structure Later (cut : Cut) (l : Local) (w : World) (l' : Local) (w' : World) : Prop
    extends Writing cut l w l' w' where
  version : l'.row.recordVersion = l.row.recordVersion
  unlanded : l.row.claimLandedVersion = none → l'.row.claimLandedVersion = none

theorem Later.claiming {l' : Local} (later : Later cut l w l' w') : Claiming l w l' w' :=
  ⟨later.toAlong,later.version⟩

theorem Synced.refl (row : AgentMove) : Synced row row := ⟨rfl,rfl,rfl,rfl,rfl,id⟩

theorem Synced.marked {row stored stored' : AgentMove} (synced : Synced row stored)
    (marked : Marked stored stored') : Synced row stored' := by
  rcases marked with rfl | ⟨request,rfl⟩
  · exact synced
  · exact ⟨synced.plan,synced.step,synced.take,synced.takeVersion,synced.landed,fun _ => rfl⟩

theorem grown_of_rely (relied : ReceiverRely cut w w') : Grown l w l w' :=
  ⟨relied.moves,relied.claims,relied.trace⟩

theorem later_of_rely (relied : ReceiverRely cut w w') : Later cut l w l w' :=
  ⟨⟨⟨rfl,id,id,grown_of_rely relied⟩,relied.settled⟩,rfl,id⟩

theorem later_edit (change : AgentMove → AgentMove) (step : (change l.row).step = l.row.step)
    (abort : l.row.abortRequested.isSome = true → (change l.row).abortRequested.isSome = true)
    (landed : (change l.row).claimLandedVersion = l.row.claimLandedVersion)
    (version : (change l.row).recordVersion = l.row.recordVersion) :
    Later cut l w { l with row := change l.row } w :=
  ⟨⟨⟨step,abort,fun some => landed ▸ some,List.suffix_rfl,List.suffix_rfl,List.suffix_rfl⟩,id⟩,version,
    landed.trans⟩

theorem savable_stable : Stable cut .receiver (Savable cut) :=
  fun _ _ _ ok relied inv => ⟨ok.1.stable relied inv.shared,fun step => relied.trace.mem (ok.2 step)⟩

theorem kept_stable : Stable cut .receiver (Kept cut) := fun _ _ _ ok relied inv =>
  ReceiverOk.stable ok relied inv.shared

theorem ready_stable : Stable cut .receiver (Ready cut) := by
  intro l w w' ready relied inv
  obtain ⟨stored,found,synced⟩ := ready.2
  obtain ⟨stored',found',marked⟩ := relied.row stored found
  exact ⟨savable_stable l w w' ready.1 relied inv,stored',found',synced.marked marked⟩

theorem stable_and {P F : Local → World → Prop} (stable : Stable cut .receiver P)
    (lasting : Lasting (Later cut) F) : Stable cut .receiver fun l w => P l w ∧ F l w :=
  fun l w w' holds relied inv => ⟨stable l w w' holds.1 relied inv,
    lasting _ _ _ _ (later_of_rely relied) holds.2⟩

/-- A fact about the driver's own row. -/
theorem stable_row {P : Local → World → Prop} (stable : Stable cut .receiver P) (p : Local → Prop) :
    Stable cut .receiver fun l w => P l w ∧ p l :=
  fun l w w' holds relied inv => ⟨stable l w w' holds.1 relied inv,holds.2⟩

abbrev discipline (cut : Cut) : Discipline World Effect Effect.Answer Choice :=
  (pact cut).discipline .receiver

/-- How a task may fail: with a row that may be saved, and where the claim has
moved with the stored row still the driver's. -/
def Refused (cut : Cut) (f : Failure) (l : Local) (w : World) : Prop :=
  Kept cut l w ∧ (f.reason = some .claimMoved → Ready cut l w)

theorem Ready.kept (ready : Ready cut l w) : Kept cut l w := ready.1.1

theorem Ready.refused (ready : Ready cut l w) (f : Failure) : Refused cut f l w := ⟨ready.kept,fun _ => ready⟩

theorem Ready.saved (ready : Ready cut l w) (step : l.row.step = .activating) : Saved w := ready.1.2 step

/-- A task of the driver that leaves the relation behind it. -/
abbrev Steps (cut : Cut) (later : Local → World → Local → World → Prop) (P : Local → World → Prop)
    (m : Act α) (Q : α → Local → World → Prop) : Prop :=
  Framed (discipline cut) later P m Q (Refused cut)

abbrev Steady (cut : Cut) (P : Local → World → Prop) (m : Act α) (Q : α → Local → World → Prop) : Prop :=
  Steps cut (Later cut) P m Q

/-- A task that may also change the step or write the records. -/
abbrev Loud (cut : Cut) (P : Local → World → Prop) (m : Act α) (Q : α → Local → World → Prop) : Prop :=
  Steps cut Grown P m Q

abbrev Quiet (cut : Cut) (m : Act α) : Prop := Steady cut (Ready cut) m fun _ => Ready cut

section Steps

variable {later : Local → World → Local → World → Prop} {P P' F : Local → World → Prop} {m : Act α}
variable {Q Q' : α → Local → World → Prop}

theorem Steps.weaken (steps : Steps cut later P m Q) (before : ∀ l w, P' l w → P l w)
    (after : ∀ a l w, Q a l w → Q' a l w) : Steps cut later P' m Q' :=
  steps.consequence before after fun _ _ _ => id

theorem Steps.either {c : Prop} [Decidable c] {n : Act α} (first : Steps cut later P m Q)
    (second : Steps cut later P n Q) : Steps cut later P (if c then m else n) Q := by
  split
  next => exact first
  next => exact second

theorem Steps.loud (steps : Steps cut later P m Q)
    (grows : ∀ l w l' w', later l w l' w' → Grown l w l' w') : Loud cut P m Q := steps.widen grows

theorem Steady.loud (steady : Steady cut P m Q) : Loud cut P m Q :=
  steady.widen fun _ _ _ _ later => later.grown

theorem Steady.claiming (steady : Steady cut P m Q) : Steps cut Claiming P m Q :=
  steady.widen fun _ _ _ _ later => later.claiming

theorem Steady.writing (steady : Steady cut P m Q) : Steps cut (Writing cut) P m Q :=
  steady.widen fun _ _ _ _ later => later.toWriting

theorem lasting_step (p : MoveStep → Prop) : Lasting (Later cut) fun l _ => p l.row.step :=
  fun _ _ l' _ later holds => show p l'.row.step from later.step ▸ holds

theorem lasting_boundary : Lasting (Later cut) fun l w => l.row.step = .activating → Saved w :=
  fun _ _ _ _ later held step => later.grown.trace.mem (held (later.step ▸ step))

end Steps

section Effects

variable {P : Local → World → Prop}

theorem ask_steady (stable : Stable cut .receiver P) (question : Question) :
    Steady cut P (ask question) fun _ => P :=
  framed_ask (p := .receiver) (fun _ _ _ => later_of_rely) stable question

/-- Only a row past the boundary calls for an activation. -/
theorem call_steady {moduleId : String} {op : ParticipantOp} (stable : Stable cut .receiver P)
    (crossed : ∀ l w, P l w → op = .activate → Saved w) : Steady cut P (call moduleId op) fun _ => P := by
  refine framed_act (e := .call moduleId op) (fun _ _ _ => later_of_rely) stable ?_
  intro l w choice answer w' holds inv taken
  cases act_call taken
  have relied : ReceiverRely cut w (w.record (.sent .receiver moduleId op)) := receiverRely_sent ..
  have inv' : Inv cut (w.record (.sent .receiver moduleId op)) := by
    by_cases activates : op = .activate
    · rw [activates]; exact inv.activates (crossed l w holds activates) moduleId
    · have harmless : Harmless w (.sent .receiver moduleId op) := activates
      exact inv.calm ⟨_,_,_,rfl,fun _ => id,fun _ => id,.inr ⟨_,harmless,rfl⟩⟩
  refine ⟨inv',fun q other => ?_,stable l w _ holds relied inv',later_of_rely relied⟩
  cases q with
  | source => exact sourceRely_sent moduleId op
  | receiver => exact absurd rfl other
  | inbox => exact List.suffix_rfl

/-- What a reply that is not stale says of the claim: none of this cut's writes
is still under way, and a claim of this machine is its take. -/
def ClaimShown (cut : Cut) (answer : Except RecordError (RecordReply AgentClaim)) (w : World) : Prop :=
  ∀ reply, answer = .ok reply → reply.stale = false →
    w.claimFlights = [] ∧ reply = .shows w.claims.current cut.toMachine false ∧
    ∀ x, w.claims.current = some x → x.body.holder = some cut.toMachine → x.writeId = .claim cut.cutId .take

theorem claimFlights_receiver (inv : Inv cut w) : ∀ f ∈ w.claimFlights, f.side = .receiver := by
  intro f member
  obtain absent | ⟨row,found⟩ := Option.eq_none_or_eq_some w.receiver
  · rw [(inv.untouched absent).claimFlights] at member; cases member
  · exact ((inv.receiver row found).2.flights f member).1

theorem readClaim_steady (stable : Stable cut .receiver P) :
    Steady cut P readClaimRecord fun answer l w => P l w ∧ ClaimShown cut answer w := by
  refine framed_calm (e := .readClaim) (fun _ _ _ => later_of_rely) stable ?_
  intro w choice answer w' inv taken
  have ⟨calm,shows⟩ := act_readClaim taken
  refine ⟨calm,fun reply same fresh => ?_⟩
  obtain ⟨shown,claims,flights⟩ := shows reply same fresh
  refine ⟨?_,by rw [claims]; exact shown,by rw [claims]; exact inv.shared.holder⟩
  rw [flights]
  exact List.filter_eq_nil_iff.mpr fun f member => by simp [claimFlights_receiver inv f member,Party.side]

/-- What a reply that is not stale says of the move record. A record that was
staged is not shown as published, and one past the activation was activated here. -/
def MoveShown (cut : Cut) (answer : Except RecordError (RecordReply MoveRecord)) (w : World) : Prop :=
  ∀ reply, answer = .ok reply → reply.stale = false → reply.absent = false →
    ∃ x ∈ w.moves.writes, x.version = reply.version ∧ reply.body = some x.body ∧
      (Has w .staged → x.body.state ≠ .published) ∧
      (x.body.state = .activated ∨ x.body.state = .released → Attempted cut w .activated)

theorem moveShown_of_act {choice : Choice} {answer : Except RecordError (RecordReply MoveRecord)} {p : Party}
    (inv : Inv cut w) (taken : act cut p w .readMove choice = some (answer,w')) : MoveShown cut answer w' := by
  intro reply same fresh present
  have ⟨calm,shows⟩ := act_readMove taken
  have inv' := inv.calm calm
  obtain ⟨rfl,moves,_,_⟩ := shows reply same fresh
  cases current : w.moves.current with
  | none => rw [current] at present; cases present
  | some x =>
    obtain ⟨rest,writes⟩ : ∃ rest, w'.moves.writes = x :: rest :=
      List.head?_eq_some_iff.mp (moves ▸ current)
    have documented := inv'.shared.documented
    rw [writes] at documented
    refine ⟨x,by rw [writes]; exact List.mem_cons_self,rfl,rfl,fun staged => ?_,fun past => ?_⟩
    · rw [Has,writes] at staged
      exact documented.staged_current staged
    · have activated : Has w' .activated := by
        rw [Has,writes]
        exact documented.activated_before past
      exact activated.attempted inv'.shared

theorem readMove_shown (stable : Stable cut .receiver P) :
    Steady cut P readMoveRecord fun answer l w => P l w ∧ MoveShown cut answer w := by
  refine framed_calm (e := .readMove) (fun _ _ _ => later_of_rely) stable ?_
  exact fun w choice answer w' inv taken => ⟨(act_readMove taken).1,moveShown_of_act inv taken⟩

end Effects

section Rows

/-- The world after the receiver saved a row that meets its promises. -/
theorem saves_inv (inv : Inv cut w) {next : AgentMove} (ok : ReceiverOk cut w next) :
    Inv cut (w.saves next) ∧ (∀ q, q ≠ .receiver → rely cut q w (w.saves next)) ∧
    ∀ l, Later cut l w l (w.saves next) := by
  refine ⟨inv.saves ok,fun q other => ?_,fun l => ?_⟩
  · cases q with
    | source => exact sourceRely_saves next
    | receiver => exact absurd rfl other
    | inbox => exact List.suffix_rfl
  · exact ⟨⟨⟨rfl,id,id,List.suffix_rfl,List.suffix_rfl,List.suffix_cons _ _⟩,id⟩,rfl,id⟩

/-- The row stands in the store as it is. -/
structure Stored (cut : Cut) (w : World) (row : AgentMove) : Prop where
  ok : ReceiverOk cut w row
  found : w.receiver = some row
  saved : row.step = .activating → Saved w

theorem storedRow (inv : Inv cut w) {row : AgentMove} (found : w.receiver = some row) :
    Stored cut w row := ⟨(inv.receiver row found).1,found,(inv.receiver row found).2.activating⟩

theorem Stored.ready {l : Local} (stored : Stored cut w l.row) : Ready cut l w :=
  ⟨⟨stored.ok,stored.saved⟩,l.row,stored.found,.refl _⟩

/-- A saved row goes on from the row that was given. -/
structure Follows (row saved : AgentMove) : Prop where
  step : saved.step = row.step
  abort : row.abortRequested.isSome = true → saved.abortRequested.isSome = true
  landed : saved.claimLandedVersion = row.claimLandedVersion
  version : saved.recordVersion = row.recordVersion

/-- What a checkpoint leaves. The store keeps its own row only where the
boundary was not saved before. -/
def Leaves (cut : Cut) (row : AgentMove) (w : World) : Except String AgentMove → Prop
  | .error _ => ReceiverOk cut w row
  | .ok saved => Stored cut w saved ∧ (Follows row saved ∨ (row.step = .activating ∧ ¬ Saved w))

theorem framed_checkpoint {φ : Type} {E : φ → Local → World → Prop} {current : AgentMove} :
    Framed (discipline cut) (Later cut) (fun l w => Kept cut l w ∧ l.row = current)
      (checkpoint current false : Driver φ _) (fun answer l w => l.row = current ∧ Leaves cut current w answer)
      E := by
  refine framed_act (p := .receiver) (e := .checkpoint current false) (fun _ _ _ => later_of_rely)
    (stable_row kept_stable (·.row = current)) ?_
  rintro l w choice answer w' ⟨(kept : ReceiverOk cut w l.row),rfl⟩ inv taken
  rcases act_checkpoint taken with ⟨rfl,code,rfl⟩ | ⟨stored,found,rfl,rfl⟩
  · exact ⟨inv,fun q _ => rely_refl q _,⟨rfl,kept⟩,later_of_rely (.refl cut _)⟩
  have current := storedRow inv found
  rcases checkpointAgentMove_cases stored l.row false with ⟨step,before,_,same⟩ | ⟨_,abort,same,_,joined⟩
  · rw [same]
    obtain ⟨inv',relied,later⟩ := saves_inv inv current.ok
    refine ⟨inv',relied,⟨rfl,storedRow inv' rfl,.inr ⟨step,fun saved => ?_⟩⟩,later l⟩
    rcases saved_saves saved with after | already
    · rw [before] at after; cases after
    · have past := current.ok.saved already
      rw [before] at past
      cases past
  · rw [same]
    have ok : ReceiverOk cut w (AgentMove.keepBackground { l.row with abortRequested := abort } stored) :=
      kept.similar ⟨rfl,rfl,rfl,rfl⟩ rfl (fun asked => (joined rfl).mp (.inr asked))
        fun moduleId waiting => kept.pending moduleId waiting
    obtain ⟨inv',relied,later⟩ := saves_inv inv ok
    refine ⟨inv',relied,⟨rfl,storedRow inv' rfl,.inl ?_⟩,later l⟩
    exact ⟨rfl,fun asked => (joined rfl).mp (.inr asked),rfl,rfl⟩

theorem refused_store {code : String} (kept : Kept cut l w) : Refused cut (.store code) l w :=
  ⟨kept,fun reason => by cases reason⟩

/-- Saving the row makes the stored row the driver's. -/
theorem save_steady : Steady cut (Savable cut) save fun _ => Ready cut := by
  refine framed_row fun current => ?_
  refine Framed.bind ((framed_checkpoint.frame lasting_boundary).consequence ?_
    (fun _ _ _ => id) fun _ _ _ => id) fun answer => ?_
  · exact fun l w holds => ⟨⟨holds.1.1,holds.2⟩,holds.1.2⟩
  cases answer with
  | error code => exact Framed.fail (by rintro l w ⟨⟨rfl,kept⟩,_⟩; exact refused_store kept)
  | ok saved =>
    refine Framed.bind (Q := fun _ => Ready cut) (Framed.edit ?_ ?_) fun _ => ?_
    · rintro l w ⟨⟨rfl,_,follows⟩,boundary⟩
      have ⟨step,abort,landed,version⟩ :=
        follows.resolve_right fun refused => refused.2 (boundary refused.1)
      exact later_edit (fun _ => saved) step abort landed version
    · rintro l w ⟨⟨rfl,stored,_⟩,_⟩
      exact Stored.ready stored
    · refine Framed.bind (ask_steady ready_stable .gauges) fun answer => ?_
      cases answer with
      | error code => exact Framed.fail fun _ _ ready => ready.refused _
      | ok _ => exact Framed.pure fun _ _ => id

/-- A save that may be refused at the boundary. -/
theorem save_loud : Loud cut (Kept cut) save fun _ => Ready cut := by
  refine framed_row fun current => ?_
  refine Framed.bind (framed_checkpoint.widen fun _ _ _ _ later => later.grown) fun answer => ?_
  cases answer with
  | error code => exact Framed.fail (by rintro l w ⟨rfl,kept⟩; exact refused_store kept)
  | ok saved =>
    refine Framed.bind (Q := fun _ => Ready cut) (Framed.edit ?_ ?_) fun _ => ?_
    · exact fun l w _ => ⟨List.suffix_rfl,List.suffix_rfl,List.suffix_rfl⟩
    · rintro l w ⟨rfl,stored,_⟩
      exact Stored.ready stored
    · refine Framed.bind (Steady.loud (ask_steady ready_stable .gauges)) fun answer => ?_
      cases answer with
      | error code => exact Framed.fail fun _ _ ready => ready.refused _
      | ok _ => exact Framed.pure fun _ _ => id

end Rows
section Quiet

variable {m : Act α}

/-- An edit that the driver's promises do not speak of. -/
structure Mild (row row' : AgentMove) : Prop where
  claim : SameClaim row row'
  step : row'.step = row.step

theorem savable_edit (change : AgentMove → AgentMove) (savable : Savable cut l w)
    (mild : Mild l.row (change l.row))
    (abort : l.row.abortRequested.isSome = true → (change l.row).abortRequested.isSome = true)
    (pending : ∀ moduleId, (change l.row).receiver.pending = some ⟨moduleId,.activate⟩ → Saved w) :
    Savable cut { l with row := change l.row } w := by
  refine ⟨ReceiverOk.similar savable.1 mild.claim mild.step abort pending,fun step => ?_⟩
  exact savable.2 (mild.step.symm.trans step)

theorem ready_edit (change : AgentMove → AgentMove) (ready : Ready cut l w) (mild : Mild l.row (change l.row))
    (abort : (change l.row).abortRequested = l.row.abortRequested)
    (pending : ∀ moduleId, (change l.row).receiver.pending = some ⟨moduleId,.activate⟩ → Saved w) :
    Ready cut { l with row := change l.row } w := by
  refine ⟨savable_edit change ready.1 mild (fun asked => abort ▸ asked) pending,?_⟩
  obtain ⟨stored,found,synced⟩ := ready.2
  refine ⟨stored,found,synced.plan.trans mild.claim.plan.symm,synced.step.trans mild.step.symm,
    synced.take.trans mild.claim.take.symm,synced.takeVersion.trans mild.claim.takeVersion.symm,
    synced.landed.trans mild.claim.landed.symm,fun asked => synced.abort ?_⟩
  rw [← abort]
  exact asked

theorem quiet_pure (a : α) : Quiet cut (pure a : Act α) := Framed.pure fun _ _ => id

theorem quiet_fail (f : Failure) : Quiet cut (Task.fail f : Act α) := Framed.fail fun _ _ ready => ready.refused f

theorem quiet_ask (question : Question) : Quiet cut (ask question : Act question.Reply) :=
  ask_steady ready_stable question

theorem quiet_row {f : AgentMove → Act α} (rest : ∀ current, Quiet cut (f current)) :
    Quiet cut (row >>= f) :=
  framed_row fun current => (rest current).weaken (fun _ _ => And.left) fun _ _ _ => id

theorem quiet_edit {change : AgentMove → AgentMove} (mild : ∀ row, Mild row (change row))
    (version : ∀ row, (change row).recordVersion = row.recordVersion)
    (abort : ∀ row, (change row).abortRequested = row.abortRequested)
    (pending : ∀ row, (change row).receiver.pending = row.receiver.pending) : Quiet cut (editRow change) := by
  refine Framed.edit ?_ ?_
  · exact fun l w _ => later_edit change (mild l.row).step (fun asked => abort l.row ▸ asked)
      (mild l.row).claim.landed (version l.row)
  · intro l w ready
    refine ready_edit change ready (mild l.row) (abort l.row) fun moduleId waiting => ?_
    rw [pending] at waiting
    exact ready.kept.pending moduleId waiting

/-- The progress may name a pending activation only past the boundary. -/
theorem progress_steady {change : ReceiverProgress → ReceiverProgress} {F : Local → World → Prop}
    (lasting : Lasting (Later cut) F)
    (allowed : ∀ l w, Ready cut l w → F l w → ∀ moduleId,
      (change l.row.receiver).pending = some ⟨moduleId,.activate⟩ → Saved w) :
    Steady cut (fun l w => Ready cut l w ∧ F l w) (editProgress change) fun _ l w => Ready cut l w ∧ F l w := by
  have moved : ∀ l w, Later cut l w { l with row := { l.row with receiver := change l.row.receiver } } w :=
    fun l w => later_edit (fun row => { row with receiver := change row.receiver }) rfl id rfl rfl
  refine Framed.edit (fun l w _ => moved l w) fun l w holds => ?_
  refine ⟨?_,lasting _ _ _ _ (moved l w) holds.2⟩
  exact ready_edit (fun row => { row with receiver := change row.receiver }) holds.1
    ⟨⟨rfl,rfl,rfl,rfl⟩,rfl⟩ rfl (allowed l w holds.1 holds.2)

theorem quiet_progress {change : ReceiverProgress → ReceiverProgress}
    (allowed : ∀ l w, Ready cut l w → ∀ moduleId,
      (change l.row.receiver).pending = some ⟨moduleId,.activate⟩ → Saved w) :
    Quiet cut (editProgress change) :=
  (progress_steady (F := fun _ _ => True) (fun _ _ _ _ _ => id) fun l w ready _ => allowed l w ready).weaken
    (fun _ _ ready => ⟨ready,trivial⟩) fun _ _ _ => And.left

/-- Progress that keeps the pending call. -/
theorem keeps_pending {change : ReceiverProgress → ReceiverProgress}
    (same : ∀ p, (change p).pending = p.pending) : Quiet cut (editProgress change) := by
  refine quiet_progress fun l w ready moduleId waiting => ?_
  rw [same] at waiting
  exact ready.kept.pending moduleId waiting

theorem save_quiet : Quiet cut save := save_steady.weaken (fun _ _ => And.left) fun _ _ _ => id

theorem guard_quiet (check : LocalCheck) : Quiet cut (guard check) := by
  refine Framed.bind (quiet_ask _) fun answer => ?_
  cases answer with
  | error o => exact quiet_fail _
  | ok _ => exact quiet_pure ()

theorem checkedVersion_steady {later : Local → World → Local → World → Prop} {P : Local → World → Prop}
    (ready : ∀ l w, P l w → Ready cut l w) (version : Nat) :
    Steps cut later P (checkedVersion version) fun checked l w => P l w ∧ checked = version := by
  unfold checkedVersion
  split
  next => exact Framed.fail fun l w holds => (ready l w holds).refused _
  next => exact Framed.pure fun _ _ holds => ⟨holds,rfl⟩

theorem client_quiet (moduleId : String) : Quiet cut (client moduleId) := by
  refine Framed.bind (quiet_ask _) fun answer => ?_
  cases answer with
  | error code => exact quiet_fail _
  | ok _ => exact quiet_pure ()

theorem presentModules_quiet : Quiet cut presentModules := by
  refine Framed.bind (quiet_ask _) fun answer => ?_
  cases answer with
  | error o => exact quiet_fail _
  | ok present => exact quiet_pure present

theorem decideSkipped_quiet (present : List String) : Quiet cut (decideSkipped present) := by
  refine quiet_row fun current => ?_
  split
  next => exact Framed.bind (keeps_pending fun _ => rfl) fun _ => save_quiet
  next => exact quiet_pure ()

theorem call_quiet {moduleId : String} {op : ParticipantOp} (harmless : op ≠ .activate) :
    Quiet cut (call moduleId op) := call_steady ready_stable fun _ _ _ activates => absurd activates harmless

theorem checkReady_quiet (participant : MoveParticipant) : Quiet cut (checkReady cut participant) := by
  refine Framed.bind (guard_quiet _) fun _ => ?_
  refine Framed.bind (client_quiet _) fun _ => ?_
  refine Framed.bind (call_quiet (by simp)) fun answer => ?_
  cases answer with
  | error e => exact quiet_fail _
  | ok _ => exact guard_quiet _

theorem preconditions_quiet : Quiet cut (preconditions cut) := by
  refine Framed.bind (guard_quiet _) fun _ => ?_
  refine Framed.bind (guard_quiet _) fun _ => ?_
  refine Framed.bind (guard_quiet _) fun _ => ?_
  refine Framed.bind presentModules_quiet fun present => ?_
  refine Framed.bind (decideSkipped_quiet present) fun _ => ?_
  refine quiet_row fun current => ?_
  refine Framed.bind (Framed.each fun participant _ => checkReady_quiet participant) fun _ => ?_
  exact Framed.bind (guard_quiet _) fun _ => guard_quiet _

theorem clearPending_quiet : Quiet cut clearPending :=
  Framed.bind (quiet_progress fun _ _ _ _ waiting => by cases waiting) fun _ => save_quiet

/-- An activation may be called. -/
def MayCall (op : ParticipantOp) (w : World) : Prop := op = .activate → Saved w

theorem lasting_mayCall (op : ParticipantOp) : Lasting (Later cut) fun _ w => MayCall op w :=
  fun _ _ _ _ later may activates => later.grown.trace.mem (may activates)

theorem call_may {moduleId : String} (op : ParticipantOp) :
    Steady cut (fun l w => Ready cut l w ∧ MayCall op w) (call moduleId op)
      fun _ l w => Ready cut l w ∧ MayCall op w :=
  call_steady (stable_and ready_stable (lasting_mayCall op)) fun _ _ holds => holds.2

theorem settlePending_quiet : Quiet cut (settlePending cut) := by
  refine framed_row fun current => ?_
  split
  next => exact Framed.pure fun _ _ => And.left
  next pending found =>
    have lasting := @lasting_mayCall cut pending.op
    refine Steps.weaken (P := fun l w => Ready cut l w ∧ MayCall pending.op w) ?_ ?_ (fun _ _ _ => And.left)
      (Q := fun _ l w => Ready cut l w ∧ MayCall pending.op w)
    · split
      next => exact clearPending_quiet.frame lasting
      split
      next =>
        refine Framed.bind ((client_quiet _).frame lasting) fun _ => ?_
        refine Framed.bind ((call_quiet (by simp)).frame lasting) fun answer => ?_
        cases answer with
        | error e => exact (quiet_fail _).frame lasting
        | ok _ =>
          refine Steps.either ?_ (clearPending_quiet.frame lasting)
          refine Framed.bind (call_may pending.op) fun answer => ?_
          cases answer with
          | error e => exact (quiet_fail _).frame lasting
          | ok _ =>
            refine Framed.bind (Framed.frame (keeps_pending ?_) lasting) fun _ => ?_
            · exact fun _ => rfl
            · exact clearPending_quiet.frame lasting
      next => exact (quiet_fail _).frame lasting
    · rintro l w ⟨ready,rfl⟩
      refine ⟨ready,fun activates => ?_⟩
      exact ready.kept.pending pending.moduleId (found.trans (activates ▸ rfl))

theorem callPersisted_steady (moduleId : String) (op : ParticipantOp) :
    Steady cut (fun l w => Ready cut l w ∧ MayCall op w) (callPersisted cut moduleId op)
      fun _ l w => Ready cut l w ∧ MayCall op w := by
  have lasting := @lasting_mayCall cut op
  refine Framed.bind ((client_quiet _).frame lasting) fun _ => ?_
  refine Framed.bind (progress_steady lasting ?_) fun _ => ?_
  · intro l w _ may moduleId' waiting
    simp only [Option.some.injEq,PendingCall.mk.injEq] at waiting
    exact may waiting.2
  refine Framed.bind (save_quiet.frame lasting) fun _ => ?_
  refine Framed.bind (call_may op) fun answer => ?_
  have failing : ∀ f, Steady cut (fun l w => Ready cut l w ∧ MayCall op w)
      (do clearPending; Task.fail f : Act ParticipantReply) fun _ l w => Ready cut l w ∧ MayCall op w :=
    fun f => Framed.bind (clearPending_quiet.frame lasting) fun _ => (quiet_fail f).frame lasting
  cases answer with
  | ok reply => exact Framed.bind (clearPending_quiet.frame lasting) fun _ => Framed.pure fun _ _ => id
  | error e =>
    cases e with
    | outcomeUnknown => exact (quiet_fail _).frame lasting
    | refused code => exact failing _
    | contractViolation code => exact failing _
    | invalidReply => exact failing _

theorem callPersisted_quiet (moduleId : String) {op : ParticipantOp} (harmless : op ≠ .activate) :
    Quiet cut (callPersisted cut moduleId op) :=
  (callPersisted_steady moduleId op).weaken
    (fun _ _ ready => ⟨ready,fun activates => absurd activates harmless⟩) fun _ _ _ => And.left

theorem checkDiverged_quiet (participant : MoveParticipant) : Quiet cut (checkDiverged cut participant) := by
  refine Framed.bind (callPersisted_quiet _ (by simp)) fun reply => ?_
  split
  next => exact quiet_fail _
  next => exact quiet_pure ()

theorem importData_quiet (participant : MoveParticipant) : Quiet cut (importData cut participant) :=
  Framed.bind (callPersisted_quiet _ (by simp)) fun _ => quiet_pure ()

theorem activateParticipant_steady (participant : MoveParticipant) :
    Steady cut (fun l w => Ready cut l w ∧ MayCall .activate w) (activateParticipant cut participant)
      fun _ l w => Ready cut l w ∧ MayCall .activate w :=
  Framed.bind (callPersisted_steady participant.moduleId .activate) fun _ => Framed.pure fun _ _ => id

theorem removeInbox_quiet : Quiet cut removeInbox := by
  refine Framed.bind (quiet_ask _) fun answer => ?_
  cases answer with
  | error code => exact quiet_fail _
  | ok _ => exact quiet_pure ()

theorem decideAbsent_quiet : Quiet cut decideAbsent := by
  refine quiet_row fun current => ?_
  split
  next => exact Framed.bind presentModules_quiet fun present => decideSkipped_quiet present
  next => exact quiet_pure ()

theorem adoptRequest_quiet : Quiet cut adoptRequest := by
  refine quiet_row fun current => ?_
  split
  next => exact quiet_fail _
  next request _ =>
    exact quiet_edit (fun _ => ⟨⟨rfl,rfl,rfl,rfl⟩,rfl⟩) (fun _ => rfl) (fun _ => rfl) fun _ => rfl

theorem abortParticipant_quiet (participant : MoveParticipant) : Quiet cut (abortParticipant cut participant) := by
  refine quiet_row fun current => ?_
  split
  next => exact quiet_pure ()
  next =>
    refine Framed.bind (client_quiet _) fun _ => ?_
    refine Framed.bind (quiet_progress fun _ _ _ _ waiting => by cases waiting) fun _ => ?_
    refine Framed.bind save_quiet fun _ => ?_
    refine Framed.bind (call_quiet (by simp)) fun answer => ?_
    cases answer with
    | error e => exact quiet_fail _
    | ok _ => exact Framed.bind (quiet_progress fun _ _ _ _ waiting => by cases waiting) fun _ => save_quiet

theorem takeoverState_quiet : Quiet cut takeoverState := by
  refine quiet_row fun current => ?_
  split
  next =>
    refine Framed.bind (quiet_ask _) fun answer => ?_
    cases answer with
    | error e => exact quiet_fail _
    | ok state => exact quiet_pure _
  next => exact quiet_pure _

theorem takeover_quiet (state : TakeoverState) : Quiet cut (takeover state) := by
  unfold takeover
  split
  next =>
    refine Framed.bind (keeps_pending fun _ => rfl) fun _ => ?_
    refine Framed.bind save_quiet fun _ => ?_
    refine Framed.bind (quiet_ask _) fun answer => ?_
    cases answer with
    | error e => exact quiet_fail _
    | ok state => exact quiet_pure state
  next => exact quiet_pure state

end Quiet

section Still

variable {P : Local → World → Prop}

/-- A read of the claim and its caching leave the row and every stable fact alone. -/
theorem applyClaim_steady (stable : Stable cut .receiver P) (ready : ∀ l w, P l w → Ready cut l w) :
    Steady cut P applyClaim fun _ => P := by
  have refuse : ∀ f, Steady cut P (Task.fail f : Act Unit) fun _ => P :=
    fun f => Framed.fail fun l w holds => (ready l w holds).refused f
  have cached : Steady cut P applyClaim.cache fun _ => P := by
    refine Framed.bind (ask_steady stable .cacheClaims) fun answer => ?_
    cases answer with
    | error code => exact refuse _
    | ok _ => exact Framed.pure fun _ _ => id
  refine Framed.bind ((readClaim_steady stable).weaken (fun _ _ => id) fun _ _ _ => And.left) fun answer => ?_
  cases answer with
  | error e => exact refuse _
  | ok reply =>
    refine framed_row fun current => Steps.weaken (P := P) ?_ (fun _ _ => And.left) fun _ _ _ => id
    split
    next => exact refuse _
    split
    next => exact cached
    split
    next => exact refuse _
    next =>
      refine Framed.bind (checkedVersion_steady ready reply.version) fun _ => ?_
      exact cached.weaken (fun _ _ => And.left) fun _ _ _ => id

theorem guard_steady (stable : Stable cut .receiver P) (ready : ∀ l w, P l w → Ready cut l w)
    (check : LocalCheck) : Steady cut P (guard check) fun _ => P := by
  refine Framed.bind (ask_steady stable _) fun answer => ?_
  cases answer with
  | error o => exact Framed.fail fun l w holds => (ready l w holds).refused _
  | ok _ => exact Framed.pure fun _ _ => id

theorem applyClaim_quiet : Quiet cut applyClaim := applyClaim_steady ready_stable fun _ _ => id

end Still
end Receiver
end Entorhinal.Move
