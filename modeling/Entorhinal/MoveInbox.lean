import Entorhinal.MovePact

/-! The receiver's inbox keeps the pact: a row that it admits carries the plan of
the record it read. -/
namespace Entorhinal.Move.Receiver

open RecordClient (RecordError RecordReply)

variable {cut : Cut} {α : Type} {w w' : World}

abbrev inboxDiscipline (cut : Cut) : Discipline World Effect Effect.Answer Choice :=
  (pact cut).discipline .inbox

/-- The move record only grows. -/
def Polled (_ : Local) (w : World) (_ : Local) (w' : World) : Prop := w.moves.writes <:+ w'.moves.writes

/-- A task of the inbox that needs this much of the record. -/
abbrev Polls (cut : Cut) (P : World → Prop) (m : Act α) (Q : α → World → Prop) : Prop :=
  Framed (inboxDiscipline cut) Polled (fun _ w => P w) m (fun a _ w => Q a w) fun _ _ _ => True

def Growing (P : World → Prop) : Prop := ∀ w w', P w → w.moves.writes <:+ w'.moves.writes → P w'

theorem Growing.stable {P : World → Prop} (growing : Growing P) : Stable cut .inbox fun _ w => P w :=
  fun _ w w' holds relied _ => growing w w' holds relied

theorem growing_true : Growing fun _ => True := fun _ _ _ _ => trivial

/-- The record has this plan. -/
def Planned (plan : MovePlan) (w : World) : Prop := ∃ x ∈ w.moves.writes, x.body.plan = plan

theorem growing_planned (plan : MovePlan) : Growing (Planned plan) :=
  fun _ _ ⟨x,member,same⟩ grown => ⟨x,grown.mem member,same⟩

section Tasks

variable {P : World → Prop}

theorem polls_ask (growing : Growing P) (question : Question) :
    Polls cut P (ask question : Act question.Reply) fun _ => P :=
  framed_ask (p := .inbox) (fun _ _ _ => id) growing.stable question

theorem polls_pure : Polls cut P (pure () : Act Unit) fun _ _ => True := Framed.pure fun _ _ _ => trivial

theorem polls_fail (f : Failure) : Polls cut P (Task.fail f : Act Unit) fun _ _ => True :=
  Framed.fail fun _ _ _ => trivial

theorem polls_removeInbox (growing : Growing P) : Polls cut P removeInbox fun _ _ => True := by
  refine Framed.bind (polls_ask growing .removeInbox) fun answer => ?_
  cases answer with
  | error code => exact polls_fail _
  | ok _ => exact polls_pure

end Tasks

theorem admitReceivedMove_ok {stored : Option AgentMove} {row next : AgentMove} {slotFree : Bool}
    (admitted : admitReceivedMove stored row slotFree = .ok next) :
    stored = some next ∨ (stored = none ∧ next = row ∧ (row.step = .pickedUp ∨ row.step = .aborted)) := by
  unfold admitReceivedMove at admitted
  split at admitted
  next => cases admitted
  next valid =>
    cases stored with
    | some existing => cases admitted; exact .inl rfl
    | none =>
      dsimp only at admitted
      split at admitted
      next =>
        cases admitted
        refine .inr ⟨rfl,rfl,?_⟩
        by_contra other
        exact valid (.inr (not_or.mp other))
      next => cases admitted

theorem admittedRow_fields (record : MoveRecord) (entry : PendingMove) (reply : RecordReply MoveRecord)
    (doorAuthor : String) :
    let row := admittedRow record entry reply doorAuthor
    row.plan = record.plan ∧ row.claimTakeBody = none ∧ row.claimLandedVersion = none ∧
      row.receiver.pending = none := by
  intro row
  unfold row admittedRow
  split <;> exact ⟨rfl,rfl,rfl,rfl⟩

theorem polls_admission (record : MoveRecord) (entry : PendingMove) (reply : RecordReply MoveRecord)
    (doorAuthor : String) :
    Polls cut (Planned record.plan) (admission (admittedRow record entry reply doorAuthor))
      fun _ => Planned record.plan := by
  have growing := growing_planned record.plan
  refine framed_act (p := .inbox) (e := .admission _) (fun _ _ _ => id) growing.stable ?_
  intro l w choice answer w' planned inv taken
  have still : ∀ q, q ≠ .inbox → rely cut q w w := fun q _ => rely_refl q w
  rcases act_admission taken with rfl | ⟨next,slotFree,admitted,rfl⟩
  · exact ⟨inv,still,planned,List.suffix_rfl⟩
  rcases admitReceivedMove_ok admitted with stored | ⟨absent,rfl,step⟩
  · have same : { w with receiver := some next } = w := by rw [← stored]
    rw [same]
    exact ⟨inv,still,planned,List.suffix_rfl⟩
  · obtain ⟨x,member,plan⟩ := planned
    have ⟨fields,take,landed,pending⟩ := admittedRow_fields record entry reply doorAuthor
    refine ⟨inv.admits absent member (fields.trans plan.symm) step take landed pending,fun q _ => ?_,
      ⟨x,member,plan⟩,List.suffix_rfl⟩
    cases q with
    | source => exact ⟨.refl _,List.suffix_rfl,id,List.suffix_rfl,id⟩
    | receiver =>
      refine ⟨fun row found => ?_,List.suffix_rfl,List.suffix_rfl,fun _ => id,id,List.suffix_rfl,id⟩
      rw [absent] at found
      cases found
    | inbox => exact List.suffix_rfl

theorem polls_admitEntry (record : MoveRecord) (entry : PendingMove) (reply : RecordReply MoveRecord) :
    Polls cut (Planned record.plan) (admitEntry record entry reply) fun _ _ => True := by
  have growing := growing_planned record.plan
  refine Framed.bind (polls_ask growing .freeSlot) fun free => ?_
  cases free with
  | error code => exact polls_fail _
  | ok free =>
    cases free with
    | false => exact polls_pure
    | true =>
      refine Framed.bind (polls_ask growing .doorRead) fun answer => ?_
      cases answer with
      | error e =>
        cases e with
        | refused code =>
          dsimp only
          split
          next => exact polls_removeInbox growing
          next => exact polls_fail _
        | outcomeUnknown => exact polls_fail _
        | invalidReply => exact polls_fail _
      | ok author =>
        dsimp only
        split
        next => exact polls_removeInbox growing
        next =>
          refine Framed.bind (polls_admission record entry reply author) fun answer => ?_
          cases answer with
          | error code =>
            dsimp only
            split
            next => exact polls_pure
            next => exact polls_fail _
          | ok row =>
            dsimp only
            split
            next => exact polls_removeInbox growing
            next => exact polls_pure

/-- A reply that is not stale carries the body of a write. -/
theorem polls_readMove :
    Polls cut (fun _ => True) readMoveRecord fun answer w => ∀ reply, answer = .ok reply →
      reply.stale = false → ∀ body, reply.body = some body → Planned body.plan w := by
  refine (framed_calm (p := .inbox) (e := .readMove)
    (S := fun answer w => ∀ reply, answer = .ok reply → reply.stale = false → ∀ body, reply.body = some body →
      Planned body.plan w) (fun _ _ _ => id) growing_true.stable ?_).consequence (fun _ _ => id)
    (fun _ _ _ => And.right) fun _ _ _ => id
  intro w choice answer w' inv taken
  have ⟨calm,shows⟩ := act_readMove taken
  refine ⟨calm,fun reply same fresh body shown => ?_⟩
  obtain ⟨rfl,moves,_⟩ := shows reply same fresh
  obtain ⟨x,current,rfl⟩ := Option.map_eq_some_iff.mp shown
  exact ⟨x,moves ▸ Register.current_mem current,rfl⟩

theorem polls_readEntry (entry : PendingMove) (existing : Option AgentMove) :
    Polls cut (fun _ => True) (readEntry cut entry existing) fun _ _ => True := by
  have removes : ∀ {P : World → Prop}, Polls cut P removeInbox fun _ _ => True := by
    intro P
    exact (polls_removeInbox growing_true).consequence (fun _ _ _ => trivial) (fun _ _ _ => id) fun _ _ _ => id
  refine Framed.bind polls_readMove fun answer => ?_
  cases answer with
  | error e => exact polls_fail _
  | ok reply =>
    dsimp only
    split
    next => exact polls_pure
    next fresh =>
      split
      next => exact removes
      next =>
        split
        next => exact removes
        next record decoded =>
          split
          next => exact removes
          split
          next => exact polls_pure
          next =>
            refine (polls_admitEntry record entry reply).consequence ?_ (fun _ _ _ => id) fun _ _ _ => id
            intro l w shown
            cases body : reply.body with
            | none => rw [body] at decoded; cases decoded
            | some found =>
              rw [body] at decoded
              rw [decodeMoveRecord_ok decoded]
              exact shown reply rfl (by simpa using fresh) found body

theorem polls_pollEntry (entry : PendingMove) :
    Polls cut (fun _ => True) (pollEntry cut entry) fun _ _ => True := by
  have loaded : Polls cut (fun _ => True) loadRow fun _ _ => True := by
    refine framed_act (p := .inbox) (e := .row) (fun _ _ _ => id) growing_true.stable ?_
    intro l w choice answer w' _ inv taken
    obtain ⟨rfl,_⟩ := act_row taken
    exact ⟨inv,fun q _ => rely_refl q _,trivial,List.suffix_rfl⟩
  refine Framed.bind loaded fun answer => ?_
  cases answer with
  | error code => exact polls_fail _
  | ok existing =>
    dsimp only
    split
    next => exact polls_removeInbox growing_true
    next => exact polls_readEntry entry existing

/-- The inbox's polls keep the pact from any world of it. -/
theorem poll_safe (kept : Memory) :
    (inboxDiscipline cut).Safe (pass cut .inbox kept) (fun _ _ => True) w := by
  intro s relied holds choice entry s' taken
  cases act_ask taken
  refine ⟨holds,fun q _ => rely_refl q _,?_⟩
  cases entry with
  | none => trivial
  | some entry => exact Discipline.Safe.bind ((polls_pollEntry entry).safe trivial) fun _ _ _ => trivial

end Entorhinal.Move.Receiver
