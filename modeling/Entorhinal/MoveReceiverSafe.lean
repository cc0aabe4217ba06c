import Entorhinal.MoveReceiverCalls

/-! The receiver driver keeps the pact of the three parties: its writes of the
two records, its cleanup and its steps, the whole pass and the inbox. -/
namespace Entorhinal.Move.Receiver

open RecordClient (RecordError RecordReply CasSettlement)

variable {cut : Cut} {α : Type} {w w' : World} {l : Local}

section MoveWrites

theorem MayMove.synced {row stored : AgentMove} {request : CasRequest MoveRecord}
    (may : MayMove w row request) (synced : Synced row stored) : MayMove w stored request where
  permitted := may.permitted
  aborted := by
    rw [synced.step]
    exact fun state => (may.aborted state).imp (fun before => ⟨synced.abort before.1,before.2⟩) id
  activated := by rw [synced.step]; exact may.activated

theorem MayMove.grow {row : AgentMove} {request : CasRequest MoveRecord} (may : MayMove w row request)
    (moves : w.moves.writes <:+ w'.moves.writes) : MayMove w' row request :=
  ⟨may.permitted.grow moves,may.aborted,may.activated⟩

theorem mayMove_stable {request : CasRequest MoveRecord} :
    Stable cut .receiver fun l w => Ready cut l w ∧ MayMove w l.row request :=
  fun l w w' holds relied inv => ⟨ready_stable l w w' holds.1 relied inv,MayMove.grow holds.2 relied.moves⟩

/-- The driver's row keeps its promises through a write of its own. -/
theorem ready_grown {request : CasRequest MoveRecord} (ready : Ready cut l w) (may : MayMove w l.row request)
    (inv : Inv cut w') (receiver : w'.receiver = w.receiver) (claims : w'.claims = w.claims)
    (flights : w'.claimFlights = w.claimFlights) (trace : w'.trace = w.trace)
    (moves : w.moves.writes <:+ w'.moves.writes)
    (attempted : ∀ state, Attempted cut w' state → Attempted cut w state ∨ request.body.state = state) :
    Ready cut l w' := by
  have kept : ReceiverOk cut w l.row := ready.kept
  refine ⟨⟨kept.grown may inv.shared receiver claims flights trace moves attempted,fun step => ?_⟩,?_⟩
  · have saved := ready.saved step
    rw [Saved] at saved ⊢
    rwa [trace]
  · rw [receiver]
    exact ready.2

theorem sendMove_writing {request : CasRequest MoveRecord} :
    Steps cut (Writing cut) (fun l w => Ready cut l w ∧ MayMove w l.row request) (sendMove request)
      fun answer l w => (Ready cut l w ∧ MayMove w l.row request) ∧
        ∀ version, answer = .ok version → Has w request.body.state := by
  refine framed_act (p := .receiver) (e := .casMove request)
    (fun _ _ _ relied => (later_of_rely relied).toWriting) mayMove_stable ?_
  rintro l w choice answer w' ⟨ready,may⟩ inv taken
  obtain ⟨stored,found,synced⟩ := ready.2
  have mayStored := MayMove.synced may synced
  have published : w.moves.writes ≠ [] := ready.kept.published
  rcases act_casMove taken with ⟨fresh,forgotten,rfl,rfl⟩ | ⟨⟨error,rfl⟩,rfl⟩
  · have moves := applied_grows w.moves (cut.machine .receiver) request fresh
    have inv' := @Inv.receiverServe _ _ inv _ _ fresh found mayStored
    refine ⟨inv',fun q other => ?_,⟨⟨?_,MayMove.grow may moves⟩,fun version answer => ?_⟩,?_⟩
    · cases q with
      | source => exact sourceRely_applied published
      | receiver => exact absurd rfl other
      | inbox => exact moves
    · exact ready_grown ready may inv' rfl rfl rfl rfl moves
        fun state attempted => (attempted_applied attempted).imp id (·.2)
    · exact ⟨_,answered_ok answer,rfl⟩
    · exact ⟨⟨rfl,id,id,moves,List.suffix_rfl,List.suffix_rfl⟩,id⟩
  · have inv' := inv.receiverFly found mayStored
    refine ⟨inv',fun q other => ?_,⟨⟨?_,MayMove.grow may List.suffix_rfl⟩,fun version answer => by cases answer⟩,?_⟩
    · cases q with
      | source => exact sourceRely_fly published
      | receiver => exact absurd rfl other
      | inbox => exact List.suffix_rfl
    · exact ready_grown ready may inv' rfl rfl rfl rfl List.suffix_rfl fun state => attempted_fly
    · exact ⟨⟨rfl,id,id,List.suffix_rfl,List.suffix_rfl,List.suffix_rfl⟩,id⟩

theorem decodeMove_ok {body record : MoveRecord} (decoded : decodeMove cut body = .ok record) :
    record = body := by
  unfold decodeMove at decoded
  cases checked : decodeMoveRecord cut.encoding cut.cutId body with
  | error e => rw [checked] at decoded; cases decoded
  | ok found =>
    rw [checked] at decoded
    cases decoded
    exact decodeMoveRecord_ok checked

theorem moveBody_plan {row : AgentMove} (state : MoveRecordState) : (moveBody cut row state).plan = row.plan := by
  unfold moveBody
  split <;> rfl

theorem moveBody_state {row : AgentMove} (state : MoveRecordState) : (moveBody cut row state).state = state := by
  unfold moveBody
  split <;> rfl

/-- The record stands in this state at the version that the driver read. -/
def Stands (before : MoveRecordState) (l : Local) (w : World) : Prop :=
  ∃ x ∈ w.moves.writes, x.version = l.row.recordVersion ∧ x.body.state = before

/-- The driver may take the record to this state from where its row is. -/
structure MayState (after : MoveRecordState) (l : Local) : Prop where
  aborted : after = .aborted →
    l.row.abortRequested.isSome = true ∧ l.row.step.beforeBoundary .receiver = true
  activated : after = .activated → crossed l.row.step = true

/-- A transition that was settled as landed stands in the history. -/
theorem casMove_writing (before after : MoveRecordState) :
    Steps cut (Writing cut) (fun l w => Ready cut l w ∧ Stands before l w ∧ MayState after l)
      (casMove cut before after) fun _ l w => Ready cut l w ∧ Has w after := by
  have refuse : ∀ f, Steps cut (Writing cut) (fun l w => Ready cut l w ∧ Stands before l w ∧ MayState after l)
      (Task.fail f : Act Unit) fun _ l w => Ready cut l w ∧ Has w after :=
    fun f => Framed.fail fun _ _ holds => holds.1.refused f
  unfold casMove
  split
  next => exact refuse _
  next checked =>
    refine framed_row fun current => ?_
    split
    next => exact Steps.weaken (refuse _) (fun _ _ => And.left) fun _ _ _ => id
    next encoded same =>
      cases encodeMoveRecord_ok same
      have state : (moveBody cut current after).state = after := moveBody_state after
      refine Framed.bind (Q := fun settled l w => Ready cut l w ∧
        ∀ version, settled = .ok (.landed version) → Has w after) ?_ fun settled => ?_
      · refine (framed_casSettled
          (P := fun l w => Ready cut l w ∧
            MayMove w l.row ⟨current.recordVersion,moveBody cut current after,.move cut.cutId .receiver after⟩)
          (S := fun answer _ w => ∀ version, answer = .ok version → Has w (moveBody cut current after).state)
          (T := fun reply _ w => MoveShown cut reply w)
          sendMove_writing (Steady.writing (readMove_shown mayMove_stable)) ?_ ?_).consequence
          ?_ (fun _ _ _ => id) fun _ _ _ => id
        · intro answer l w holds sent settled
          refine ⟨holds.1,fun version landed => ?_⟩
          rcases RecordClient.casSettled_landed landed with answered | ⟨_,_,_,shown,_⟩
          · exact state ▸ sent version answered
          · cases shown
        · intro answer reply l w holds shown unsettled
          refine ⟨holds.1,fun version landed => ?_⟩
          rcases RecordClient.casSettled_landed landed with rfl | ⟨reply,found,value,rfl,fresh,present,_,_,body,left,right⟩
          · cases unsettled
          · obtain ⟨x,member,_,shows,_⟩ := shown reply rfl fresh present
            have equal : x.body = moveBody cut current after := by
              have this : some x.body = some found := shows.symm.trans body
              cases this
              exact (decodeMove_ok left).symm.trans (decodeMove_ok right)
            exact ⟨x,member,equal ▸ state⟩
        · rintro l w ⟨⟨ready,⟨x,member,version,stands⟩,may⟩,rfl⟩
          refine ⟨ready,?_,?_,?_⟩
          · refine .inr ⟨x,member,version,?_,?_⟩
            · rw [stands,state]
              exact checkTransition_ok checked
            · exact (moveBody_plan after).trans (ready.kept.plan x member).symm
          · rw [state]; exact fun abort => .inl (may.aborted abort)
          · rw [state]; exact may.activated
      cases settled with
      | error e => exact Framed.fail fun _ _ holds => holds.1.refused _
      | ok settlement =>
        cases settlement with
        | moved reply => exact Framed.fail fun _ _ holds => holds.1.refused _
        | landed version =>
          refine Framed.bind (checkedVersion_steady (fun _ _ holds => holds.1) version) fun checked => ?_
          refine Framed.edit ?_ ?_
          · exact fun l w _ => ⟨⟨rfl,id,id,List.suffix_rfl,List.suffix_rfl,List.suffix_rfl⟩,id⟩
          · rintro l w ⟨⟨ready,has⟩,_⟩
            refine ⟨?_,has version rfl⟩
            exact ready_edit (fun row => { row with recordVersion := checked }) ready ⟨⟨rfl,rfl,rfl,rfl⟩,rfl⟩ rfl
              ready.kept.pending

end MoveWrites

section ClaimWrites

def Running (l : Local) : Prop := l.row.step ≠ .aborted

theorem lasting_running : Lasting Claiming fun l _ => Running l :=
  fun _ _ l' _ claiming running => show l'.row.step ≠ .aborted from claiming.step ▸ running

theorem lasting_landed : Lasting Claiming fun l _ => l.row.claimLandedVersion.isSome = true :=
  fun _ _ _ _ claiming => claiming.landed

theorem lasting_claiming {F : Local → World → Prop} (lasting : Lasting Claiming F) : Lasting (Later cut) F :=
  fun l w l' w' later => lasting l w l' w' later.claiming

theorem Fits.synced {row stored : AgentMove} {request : CasRequest AgentClaim} (fits : Fits cut row request)
    (synced : Synced row stored) : Fits cut stored request := by
  rw [Fits,synced.take,synced.takeVersion,synced.landed,synced.plan]
  exact fits

/-- The claim write that the driver may send from its row. -/
def MayClaim (cut : Cut) (request : CasRequest AgentClaim) (current : AgentMove) (l : Local) (w : World) : Prop :=
  Ready cut l w ∧ l.row = current ∧ current.step ≠ .aborted ∧ Fits cut current request

theorem mayClaim_stable {request : CasRequest AgentClaim} {current : AgentMove} :
    Stable cut .receiver (MayClaim cut request current) :=
  fun l w w' holds relied inv => ⟨ready_stable l w w' holds.1 relied inv,holds.2⟩

theorem sendClaim_claiming {request : CasRequest AgentClaim} {current : AgentMove} :
    Steps cut Claiming (MayClaim cut request current) (sendClaim request) fun answer l w =>
      MayClaim cut request current l w ∧ ∀ version, answer = .ok version →
        ∃ x ∈ w.claims.writes, x.version = version ∧ x.writeId = request.writeId := by
  refine framed_act (p := .receiver) (e := .casClaim request)
    (fun _ _ _ relied => (later_of_rely relied).claiming) mayClaim_stable ?_
  rintro l w choice answer w' ⟨ready,rfl,running,fits⟩ inv taken
  obtain ⟨stored,found,synced⟩ := ready.2
  have kept : ReceiverOk cut w l.row := ready.kept
  have alive : stored.step ≠ .aborted := by rw [synced.step]; exact running
  have others : ∀ claims flights, ∀ q, q ≠ .receiver →
      rely cut q w { w with claims := claims, claimFlights := flights } := by
    intro claims flights q other
    cases q with
    | source => exact sourceRely_claims _ _
    | receiver => exact absurd rfl other
    | inbox => exact List.suffix_rfl
  rcases act_casClaim taken with ⟨fresh,forgotten,rfl,rfl⟩ | ⟨⟨error,rfl⟩,rfl⟩
  · have claims := applied_grows w.claims (cut.machine .receiver) request fresh
    refine ⟨inv.serveClaim found alive (Fits.synced fits synced),others _ _,⟨⟨?_,rfl,running,fits⟩,?_⟩,?_⟩
    · exact ⟨⟨kept.claims running,ready.1.2⟩,stored,found,synced⟩
    · exact fun version answer => ⟨_,answered_ok answer,rfl,rfl⟩
    · exact ⟨⟨rfl,id,id,List.suffix_rfl,claims,List.suffix_rfl⟩,rfl⟩
  · refine ⟨inv.flyClaim found alive (Fits.synced fits synced),others _ _,⟨⟨?_,rfl,running,fits⟩,?_⟩,?_⟩
    · exact ⟨⟨kept.claimFlight running,ready.1.2⟩,stored,found,synced⟩
    · exact fun version answer => by cases answer
    · exact ⟨⟨rfl,id,id,List.suffix_rfl,List.suffix_rfl,List.suffix_rfl⟩,rfl⟩

/-- What a settled claim write says: a take that landed stands in the history. -/
theorem settleClaim_claiming {request : CasRequest AgentClaim} {current : AgentMove}
    {author agentId : String} :
    Steps cut Claiming (MayClaim cut request current)
      (casSettled sendClaim readClaimRecord author (AgentClaim.decode agentId) request) fun settled l w =>
        MayClaim cut request current l w ∧ (request.writeId = .claim cut.cutId .take →
          request.body.holder = some cut.toMachine → ∀ version, settled = .ok (.landed version) →
          ∃ x ∈ w.claims.writes, x.version = version ∧ x.writeId = .claim cut.cutId .take) := by
  refine framed_casSettled (P := MayClaim cut request current)
    (S := fun answer _ w => ∀ version, answer = .ok version →
      ∃ x ∈ w.claims.writes, x.version = version ∧ x.writeId = request.writeId)
    (T := fun reply _ w => ClaimShown cut reply w)
    sendClaim_claiming (Steady.claiming (readClaim_steady mayClaim_stable)) ?_ ?_
  · intro answer l w holds sent settled
    refine ⟨holds,fun take _ version landed => ?_⟩
    rcases RecordClient.casSettled_landed landed with answered | ⟨_,_,_,shown,_⟩
    · exact take ▸ sent version answered
    · cases shown
  · intro answer reply l w holds shown unsettled
    refine ⟨holds,fun take holder version landed => ?_⟩
    rcases RecordClient.casSettled_landed landed with rfl | ⟨reply,found,value,rfl,fresh,present,version,_,body,left,right⟩
    · cases unsettled
    · obtain ⟨_,shows,own⟩ := shown reply rfl fresh
      have same : found = request.body := (AgentClaim.decode_ok left).symm.trans (AgentClaim.decode_ok right)
      cases current : w.claims.current with
      | none => rw [shows,current] at present; cases present
      | some x =>
        rw [shows,current] at body version
        have equal : x.body = found := by simpa [RecordReply.shows] using body
        refine ⟨x,Register.current_mem current,version,own x current ?_⟩
        rw [equal,same]
        exact holder

end ClaimWrites

section Take

/-- The row with a take that moves the claim from its pinned version. -/
theorem ReceiverOk.withTake {row : AgentMove} {take : AgentClaim} (ok : ReceiverOk cut w row)
    (stored : ∃ stored, w.receiver = some stored ∧ stored.plan = row.plan ∧ stored.claimTakeBody = none ∧
      stored.claimLandedVersion = none)
    (unlanded : row.claimLandedVersion = none) (holder : take.holder = some cut.toMachine)
    (prior : Prior cut w row.plan.claimVersion take) :
    ReceiverOk cut w { row with
      claimTakeBody := some take
      claimTakeVersion := some row.plan.claimVersion } where
  machines := ok.machines
  published := ok.published
  plan := ok.plan
  staged := ok.staged
  claimed := ok.claimed
  backing := ok.backing
  begun := ok.begun
  saved := ok.saved
  pending := ok.pending
  stored := by
    obtain ⟨stored,found,plan,none,unlanded'⟩ := stored
    exact ⟨stored,found,plan,.inl none,.inl unlanded'⟩
  landed := fun version landed => by rw [unlanded] at landed; cases landed
  take := by
    rintro body ⟨⟩
    exact ⟨holder,rfl,prior⟩
  ended := ok.ended

theorem takeBody_ok {row : AgentMove} {held : Option AgentClaim} {take : AgentClaim}
    (taken : takeBody cut row held = .ok take) :
    take.holder = some row.plan.toMachine ∧ take.epoch = (held.elim 0 (·.epoch)) + 1 := by
  cases held <;>
  · simp only [takeBody] at taken
    split at taken
    next => cases taken
    next => cases taken; exact ⟨rfl,rfl⟩

/-- Nothing of the take is known, neither here nor in the store. -/
def Untaken (l : Local) : Prop := l.row.claimTakeBody = none ∧ l.row.claimLandedVersion = none

/-- What the record held at the pinned version. -/
def Held (cut : Cut) (held : Option AgentClaim) (l : Local) (w : World) : Prop :=
  ∀ take : AgentClaim, take.epoch = held.elim 0 (·.epoch) + 1 → Prior cut w l.row.plan.claimVersion take

theorem persistTake_steady (held : Option AgentClaim) :
    Steady cut (fun l w => (Ready cut l w ∧ Untaken l) ∧ Held cut held l w) (persistTake cut held)
      fun _ => Ready cut := by
  refine framed_row fun current => ?_
  split
  next => exact Framed.fail fun _ _ holds => holds.1.1.1.refused _
  next take taken =>
    refine Framed.bind (checkedVersion_steady (fun _ _ holds => holds.1.1.1) _) fun version => ?_
    refine Framed.bind (Q := fun _ => Savable cut) (Framed.edit ?_ ?_) fun _ => save_steady
    · exact fun l w _ => later_edit (fun row => { row with
        claimTakeBody := some take
        claimTakeVersion := some version }) rfl id rfl rfl
    · rintro l w ⟨⟨⟨⟨ready,none,unlanded⟩,held⟩,rfl⟩,rfl⟩
      have ⟨holder,epoch⟩ := takeBody_ok taken
      obtain ⟨stored,found,synced⟩ := ready.2
      refine ⟨ReceiverOk.withTake ready.kept ?_ unlanded ?_ (held take epoch),ready.1.2⟩
      · exact ⟨stored,found,synced.plan,synced.take.trans none,synced.landed.trans unlanded⟩
      · rw [holder,ready.kept.machines.2]

theorem takeFailed_quiet (f : Failure) : Quiet cut (takeFailed f : Act α) := by
  refine Framed.bind (Framed.consequence (P := Ready cut) (Q := fun _ => Ready cut) (keeps_pending ?_)
    (fun _ _ => id) (fun _ _ _ => id) fun _ _ _ => id) fun _ => quiet_fail f
  exact fun _ => rfl

theorem prepareTake_steady :
    Steady cut (fun l w => Ready cut l w ∧ Untaken l) (prepareTake cut) fun _ => Ready cut := by
  refine Framed.bind (readClaim_steady (stable_row ready_stable Untaken)) fun answer => ?_
  have left : ∀ {m : Act Unit} {P : Local → World → Prop}, Quiet cut m → (∀ l w, P l w → Ready cut l w) →
      Steady cut P m fun _ => Ready cut :=
    fun quiet ready => Steps.weaken quiet ready fun _ _ _ => id
  cases answer with
  | error e => exact left (quiet_fail _) fun _ _ holds => holds.1.1
  | ok reply =>
    refine framed_row fun current => ?_
    split
    next => exact left (quiet_fail _) fun _ _ holds => holds.1.1.1
    next fresh =>
      have fresh : reply.stale = false := by simpa using fresh
      split
      next => exact left (takeFailed_quiet _) fun _ _ holds => holds.1.1.1
      next version =>
        have version : reply.version = current.plan.claimVersion := not_not.mp version
        split
        next absent =>
          refine (persistTake_steady none).weaken ?_ fun _ _ _ => id
          rintro l w ⟨⟨holds,shown⟩,rfl⟩
          refine ⟨holds,fun take epoch => .inl ⟨?_,epoch⟩⟩
          obtain ⟨_,shows,_⟩ := shown reply rfl fresh
          rw [← version,shows]
          have none : w.claims.current = none := by
            rw [shows] at absent
            exact Option.isNone_iff_eq_none.mp absent
          simp [none,RecordReply.shows]
        next present =>
          split
          next => exact left (quiet_fail _) fun _ _ holds => holds.1.1.1
          next claim decoded =>
            split
            next => exact left (takeFailed_quiet _) fun _ _ holds => holds.1.1.1
            next held =>
              refine (persistTake_steady (some claim)).weaken ?_ fun _ _ _ => id
              rintro l w ⟨⟨holds,shown⟩,rfl⟩
              refine ⟨holds,fun take epoch => ?_⟩
              obtain ⟨_,shows,_⟩ := shown reply rfl fresh
              have body := decodeClaim_ok decoded
              cases current : w.claims.current with
              | none => rw [shows,current] at body; cases body
              | some x =>
                rw [shows,current] at body version
                have equal : x.body = claim := by simpa [RecordReply.shows] using body
                refine .inr ⟨x,Register.current_mem current,version,?_,?_,fun positive => ?_⟩
                · rw [equal]; exact epoch
                · rw [equal]; exact decodeClaim_epoch decoded
                · rw [equal] at positive ⊢
                  have holder := not_and_not_right.mp held positive
                  rw [holder,holds.1.kept.machines.1]

/-- The row with the version that its take landed at. -/
theorem ReceiverOk.withLanded {row : AgentMove} {version : Nat} (ok : ReceiverOk cut w row)
    (stored : ∃ stored, w.receiver = some stored ∧ Synced row stored) (unlanded : row.claimLandedVersion = none)
    (body : row.claimTakeBody.isSome = true)
    (landed : ∃ x ∈ w.claims.writes, x.version = version ∧ x.writeId = .claim cut.cutId .take) :
    ReceiverOk cut w { row with claimLandedVersion := some version } where
  machines := ok.machines
  published := ok.published
  plan := ok.plan
  staged := ok.staged
  claimed := fun past => ⟨(ok.claimed past).1,rfl⟩
  backing := ok.backing
  begun := ok.begun
  saved := ok.saved
  pending := ok.pending
  stored := by
    obtain ⟨stored,found,synced⟩ := stored
    exact ⟨stored,found,synced.plan,.inr ⟨synced.take,synced.takeVersion⟩,.inl (synced.landed.trans unlanded)⟩
  landed := by
    rintro found ⟨⟩
    exact ⟨body,landed⟩
  take := fun take body => ⟨(ok.take take body).holder,(ok.take take body).version,(ok.take take body).prior⟩
  ended := ok.ended

theorem sendTake_claiming :
    Steps cut Claiming (fun l w => (Ready cut l w ∧ Running l) ∧ l.row.claimLandedVersion = none) (sendTake cut)
      fun _ l w => Ready cut l w ∧ l.row.claimLandedVersion.isSome = true := by
  refine framed_row fun current => ?_
  refine Framed.known (p := current.claimLandedVersion = none) (fun _ _ holds => holds.2 ▸ holds.1.2)
    fun unlanded => ?_
  split
  next => exact Framed.fail fun _ _ holds => holds.1.1.1.refused _
  next => exact Framed.fail fun _ _ holds => holds.1.1.1.refused _
  next version body taken found =>
    refine Framed.bind ((@settleClaim_claiming _ _ current _ _).weaken ?_ fun _ _ _ => id) fun settled => ?_
    · rintro l w ⟨⟨⟨ready,running⟩,_⟩,rfl⟩
      exact ⟨ready,rfl,running,.inl ⟨rfl,taken,found⟩⟩
    cases settled with
    | error e => exact Framed.fail fun _ _ holds => holds.1.1.refused _
    | ok settlement =>
      cases settlement with
      | moved reply =>
        dsimp only
        split
        next => exact Framed.fail fun _ _ holds => holds.1.1.refused _
        next =>
          refine Framed.bind (Q := fun _ => Ready cut) ?_ fun _ => Framed.fail fun _ _ ready => ready.refused _
          refine Steps.weaken (Steady.claiming (keeps_pending ?_)) (fun _ _ holds => holds.1.1) fun _ _ _ => id
          exact fun _ => rfl
      | landed landed =>
        refine Framed.bind (checkedVersion_steady (fun _ _ holds => holds.1.1) landed) fun checked => ?_
        refine Framed.bind (Q := fun _ l w => Savable cut l w ∧ l.row.claimLandedVersion.isSome = true)
          (Framed.edit ?_ ?_) fun _ => Framed.frame (Steady.claiming save_steady) lasting_landed
        · exact fun l w _ => ⟨⟨rfl,id,fun _ => rfl,List.suffix_rfl,List.suffix_rfl,List.suffix_rfl⟩,rfl⟩
        · rintro l w ⟨⟨⟨ready,rfl,_⟩,written⟩,rfl⟩
          have holder : body.holder = some cut.toMachine := (ready.kept.take body found).holder
          refine ⟨⟨ReceiverOk.withLanded ready.kept ready.2 unlanded ?_ ?_,ready.1.2⟩,rfl⟩
          · rw [found]; rfl
          · exact written rfl holder checked rfl

theorem takeClaim_claiming :
    Steps cut Claiming (fun l w => Ready cut l w ∧ Running l) (takeClaim cut)
      fun _ l w => Ready cut l w ∧ l.row.claimLandedVersion.isSome = true := by
  refine framed_row fun current => ?_
  split
  next landed => exact Framed.pure fun _ _ holds => ⟨holds.1.1,holds.2 ▸ landed⟩
  next unlanded =>
    have unlanded : current.claimLandedVersion = none := by simpa using unlanded
    split
    next untaken =>
      have lasting : Lasting (Later cut) fun l _ => Running l ∧ l.row.claimLandedVersion = none :=
        fun l w l' w' later holds => ⟨lasting_running l w l' w' later.claiming holds.1,later.unlanded holds.2⟩
      refine Framed.bind (Steady.claiming (prepareTake_steady.frame lasting) |>.weaken ?_ fun _ _ _ => id) fun _ => ?_
      · rintro l w ⟨⟨ready,running⟩,rfl⟩
        exact ⟨⟨ready,by simpa using untaken,unlanded⟩,running,unlanded⟩
      · exact sendTake_claiming.weaken (fun _ _ holds => ⟨⟨holds.1,holds.2.1⟩,holds.2.2⟩) fun _ _ _ => id
    next => exact sendTake_claiming.weaken (fun _ _ holds => ⟨holds.1,holds.2 ▸ unlanded⟩) fun _ _ _ => id

/-- A take that lost leaves the stored row the driver's. -/
theorem reconcileTake_claiming :
    Steps cut Claiming (fun l w => Ready cut l w ∧ Running l) (reconcileTake cut) fun _ => Ready cut := by
  refine framed_row fun current => ?_
  split
  next =>
    refine Framed.bind (Q := fun result l w => match result with
      | .ok _ => Ready cut l w
      | .error f => Refused cut f l w) ?_ fun result => ?_
    · exact (takeClaim_claiming.weaken (fun _ _ => And.left) fun _ _ _ => id).attempt (fun _ _ _ => And.left)
        fun _ _ _ => id
    cases result with
    | ok _ => exact Framed.pure fun _ _ => id
    | error f =>
      refine framed_row fun after => ?_
      dsimp only
      split
      next => exact Framed.fail fun _ _ holds => holds.1
      next lost => exact Framed.pure fun _ _ holds => holds.1.2 (not_not.mp (not_or.mp lost).1)
  next => exact Framed.pure fun _ _ holds => holds.1.1

theorem returnClaim_claiming :
    Steps cut Claiming (fun l w => Ready cut l w ∧ Running l) (returnClaim cut) fun _ => Ready cut := by
  refine framed_row fun current => ?_
  split
  next => exact Framed.pure fun _ _ holds => holds.1.1
  next => exact Framed.fail fun _ _ holds => holds.1.1.refused _
  next version take landed found =>
    split
    next => exact Framed.fail fun _ _ holds => holds.1.1.refused _
    next =>
      refine Framed.bind ((@settleClaim_claiming _ _ current _ _).weaken ?_ fun _ _ _ => And.left)
        fun settled => ?_
      · rintro l w ⟨⟨ready,running⟩,rfl⟩
        exact ⟨ready,rfl,running,.inr ⟨rfl,landed,take,found,rfl⟩⟩
      cases settled with
      | error e => exact Framed.fail fun _ _ holds => holds.1.refused _
      | ok settlement =>
        cases settlement with
        | landed version => exact Framed.pure fun _ _ => And.left
        | moved reply =>
          dsimp only
          split
          next => exact Framed.pure fun _ _ => And.left
          next => exact Framed.fail fun _ _ holds => holds.1.refused _

theorem checkReturned_steady :
    Steady cut (Ready cut) checkReturned fun _ l w => Ready cut l w ∧ Settled cut w := by
  refine Framed.bind (readClaim_steady ready_stable) fun answer => ?_
  have refuse : ∀ {P : Local → World → Prop} (f : Failure), (∀ l w, P l w → Ready cut l w) →
      Steady cut P (Task.fail f : Act Unit) fun _ l w => Ready cut l w ∧ Settled cut w :=
    fun f ready => Framed.fail fun l w holds => (ready l w holds).refused f
  cases answer with
  | error e => exact refuse _ fun _ _ => And.left
  | ok reply =>
    refine framed_row fun current => ?_
    split
    next => exact refuse _ fun _ _ holds => holds.1.1
    next fresh =>
      have fresh : reply.stale = false := by simpa using fresh
      split
      next absent =>
        refine Framed.pure fun l w holds => ⟨holds.1.1,?_⟩
        obtain ⟨flights,shows,_⟩ := holds.1.2 reply rfl fresh
        have none : w.claims.current = none := by
          rw [shows] at absent
          exact Option.isNone_iff_eq_none.mp absent
        exact ⟨flights,by simp [claimHolder,none]⟩
      next present =>
        split
        next => exact refuse _ fun _ _ holds => holds.1.1
        next claim decoded =>
          split
          next => exact refuse _ fun _ _ holds => holds.1.1
          next other =>
            refine Framed.pure ?_
            rintro l w ⟨⟨ready,shown⟩,rfl⟩
            obtain ⟨flights,shows,_⟩ := shown reply rfl fresh
            refine ⟨ready,flights,fun holder => other ?_⟩
            have body := decodeClaim_ok decoded
            rw [shows] at body
            rw [ready.kept.machines.2]
            obtain ⟨x,current,held⟩ := Option.bind_eq_some_iff.mp holder
            have equal : x.body = claim := by simpa [RecordReply.shows,current] using body
            rw [← equal]
            exact held

end Take

section Reads

/-- What a pass knows of the record it read: it is behind none of the row's steps,
and ahead of them only where this machine activated. -/
structure Consistent (record : MoveRecord) (step : MoveStep) : Prop where
  staged : pastStaged step = true → record.state ≠ .published
  activated : record.state = .activated ∨ record.state = .released → crossed step = true

/-- The record as read, at a version. -/
def Read (record : MoveRecord) (version : Nat) (l : Local) (w : World) : Prop :=
  (∃ x ∈ w.moves.writes, x.version = version ∧ x.body = record) ∧ Consistent record l.row.step

/-- The record that a pass acts on, at the version its row carries. -/
def Seen (record : MoveRecord) (l : Local) (w : World) : Prop := Read record l.row.recordVersion l w

theorem lasting_seen (record : MoveRecord) : Lasting Claiming (Seen record) := by
  rintro l w l' w' claiming ⟨⟨x,member,version,body⟩,consistent⟩
  refine ⟨⟨x,claiming.grown.moves.mem member,version.trans claiming.version.symm,body⟩,?_⟩
  rw [claiming.step]
  exact consistent

theorem Seen.stands {record : MoveRecord} (seen : Seen record l w) : Stands record.state l w := by
  obtain ⟨⟨x,member,version,rfl⟩,_⟩ := seen
  exact ⟨x,member,version,rfl⟩

theorem Stands.has {state : MoveRecordState} (stands : Stands state l w) : Has w state := by
  obtain ⟨x,member,_,same⟩ := stands
  exact ⟨x,member,same⟩

theorem readMove_steady :
    Steady cut (Ready cut) (readMove cut) fun observed l w => Ready cut l w ∧ Read observed.1 observed.2 l w := by
  refine Framed.bind (readMove_shown ready_stable) fun answer => ?_
  cases answer with
  | error e => exact Framed.fail fun _ _ holds => holds.1.refused _
  | ok reply =>
    dsimp only
    split
    next => exact Framed.fail fun _ _ holds => holds.1.refused _
    next shown =>
      have fresh : reply.stale = false := by simpa using (not_or.mp shown).1
      have present : reply.absent = false := by simpa using (not_or.mp shown).2
      refine Framed.bind (checkedVersion_steady (fun _ _ => And.left) reply.version) fun version => ?_
      refine framed_row fun current => ?_
      split
      next => exact Framed.fail fun _ _ holds => holds.1.1.1.refused _
      next record verified =>
        refine Framed.pure ?_
        rintro l w ⟨⟨⟨ready,shows⟩,rfl⟩,rfl⟩
        obtain ⟨x,member,version,body,staged,activated⟩ := shows reply rfl fresh present
        have ⟨same,_⟩ := verifyRecord_ok verified
        have equal : x.body = record := by
          have this : some x.body = some record := body.symm.trans same
          cases this
          rfl
        refine ⟨ready,⟨x,member,version,equal⟩,?_,?_⟩
        · exact fun past => equal ▸ staged (ready.kept.staged past)
        · exact fun past => ready.kept.begun (activated (equal.symm ▸ past))

end Reads

section Advance

variable {P : Local → World → Prop}

/-- An edit of the row, whatever it changes. -/
theorem edit_loud {Q : Unit → Local → World → Prop} {change : AgentMove → AgentMove}
    (holds : ∀ l w, P l w → Q () { l with row := change l.row } w) : Loud cut P (editRow change) Q :=
  Framed.edit (fun _ _ _ => ⟨List.suffix_rfl,List.suffix_rfl,List.suffix_rfl⟩) holds

theorem before_boundary {step : MoveStep} (before : step.beforeBoundary .receiver = true) :
    step ≠ .aborted ∧ step ≠ .activating ∧ crossed step = false := by
  cases step <;> simp_all [MoveStep.beforeBoundary,crossed]

/-- A step before the boundary leads to another one before it. -/
theorem ReceiverOk.earlier {row row' : AgentMove} (ok : ReceiverOk cut w row) (same : SameClaim row row')
    (pending : row'.receiver.pending = row.receiver.pending)
    (abort : row'.abortRequested = row.abortRequested)
    (before : row.step.beforeBoundary .receiver = true) (after : row'.step.beforeBoundary .receiver = true)
    (staged : pastStaged row'.step = true → Has w .staged)
    (claimed : pastClaimed row'.step = true → Has w .claimed ∧ row.claimLandedVersion.isSome = true) :
    ReceiverOk cut w row' := by
  have ⟨running,_,uncrossed⟩ := before_boundary before
  refine ok.onward same ?_ staged claimed ?_ ?_ ?_ ?_
  · exact fun moduleId waiting => ok.pending moduleId (pending ▸ waiting)
  · exact fun attempted => (ok.backing attempted).elim (fun asked => .inl ⟨abort ▸ asked.1,after⟩)
      fun ended => absurd ended running
  · exact fun attempted => absurd (ok.begun attempted) (by simp [uncrossed])
  · exact fun saved => absurd (ok.saved saved) (by simp [uncrossed])
  · exact fun step => absurd step (before_boundary after).1

/-- Past the boundary a row only goes on. -/
theorem ReceiverOk.past {row row' : AgentMove} (ok : ReceiverOk cut w row) (same : SameClaim row row')
    (pending : row'.receiver.pending = row.receiver.pending)
    (before : crossed row.step = true) (after : crossed row'.step = true) : ReceiverOk cut w row' := by
  have crossedStep : ∀ step, crossed step = true → pastStaged step = true ∧ pastClaimed step = true ∧
      step.beforeBoundary .receiver = false ∧ step ≠ .aborted := by
    intro step
    cases step <;> simp [crossed,pastStaged,pastClaimed,MoveStep.beforeBoundary]
  have ⟨staged,claimed,late,running⟩ := crossedStep row.step before
  refine ok.onward same ?_ (fun _ => ok.staged staged) (fun _ => ok.claimed claimed) ?_ (fun _ => after)
    (fun _ => after) ?_
  · exact fun moduleId waiting => ok.pending moduleId (pending ▸ waiting)
  · intro attempted
    rcases ok.backing attempted with asked | ended
    · rw [late] at asked; cases asked.2
    · exact absurd ended running
  · exact fun ended => absurd ended (crossedStep _ after).2.2.2

/-- Takes a step and saves it. -/
theorem changeStep_loud {step : MoveStep}
    (ok : ∀ l w, P l w → ReceiverOk cut w { l.row with
      step := step
      attempts := 0
      hold := none
      receiver := { l.row.receiver with retryAtMs := 0 } }) :
    Loud cut P (changeStep step >>= fun _ => save) fun _ => Ready cut :=
  Framed.bind (edit_loud fun l w holds => ok l w holds) fun _ => save_loud

theorem advancePickedUp_loud :
    Loud cut (fun l w => Ready cut l w ∧ l.row.step = .pickedUp) (advancePickedUp cut) fun _ => Ready cut := by
  have lasting := @lasting_step cut (· = .pickedUp)
  refine Framed.bind (Steady.loud (settlePending_quiet.frame lasting)) fun _ => ?_
  refine Framed.bind (Steady.loud (preconditions_quiet.frame lasting)) fun _ => ?_
  refine framed_row fun checked => Steps.weaken (P := fun l w => Ready cut l w ∧ l.row.step = .pickedUp) ?_
    (fun _ _ => And.left) fun _ _ _ => id
  refine Framed.bind (Steady.loud ((Framed.each fun p _ => checkDiverged_quiet p).frame lasting)) fun _ => ?_
  refine Framed.bind (Steady.loud ((guard_quiet _).frame lasting)) fun _ => ?_
  refine Framed.bind (Steady.loud ((guard_quiet _).frame lasting)) fun _ => ?_
  refine framed_row fun current => Steps.weaken (P := fun l w => Ready cut l w ∧ l.row.step = .pickedUp) ?_
    (fun _ _ => And.left) fun _ _ _ => id
  refine Framed.bind (Steady.loud ((Framed.each fun p _ => importData_quiet p).frame lasting)) fun _ => ?_
  refine Framed.bind (Steady.loud ((guard_quiet _).frame lasting)) fun _ => ?_
  refine changeStep_loud fun l w holds => ?_
  refine ReceiverOk.earlier holds.1.kept ⟨rfl,rfl,rfl,rfl⟩ rfl rfl (by rw [holds.2]; rfl) rfl ?_ ?_
  · simp [pastStaged,crossed]
  · simp [pastClaimed,crossed]

theorem stage_loud :
    Loud cut (fun l w => (Ready cut l w ∧ l.row.step = .imported) ∧ Has w .staged)
      (changeStep .staged >>= fun _ => save) fun _ => Ready cut := by
  refine changeStep_loud fun l w holds => ?_
  refine ReceiverOk.earlier holds.1.1.kept ⟨rfl,rfl,rfl,rfl⟩ rfl rfl (by rw [holds.1.2]; rfl) rfl
    (fun _ => holds.2) ?_
  simp [pastClaimed,crossed]

theorem lasting_writing {F : Local → World → Prop} (lasting : Lasting (Writing cut) F) : Lasting (Later cut) F :=
  fun l w l' w' later => lasting l w l' w' later.toWriting

theorem written_step (p : MoveStep → Prop) : Lasting (Writing cut) fun l _ => p l.row.step :=
  fun _ _ l' _ writing holds => show p l'.row.step from writing.step ▸ holds

theorem Steps.written {m : Act α} {Q : α → Local → World → Prop} (steps : Steps cut (Writing cut) P m Q) :
    Loud cut P m Q := steps.widen fun _ _ _ _ writing => writing.grown

theorem Steps.claimed {m : Act α} {Q : α → Local → World → Prop} (steps : Steps cut Claiming P m Q) :
    Loud cut P m Q := steps.widen fun _ _ _ _ claiming => claiming.grown

theorem advanceImported_loud (observed : MoveRecord) :
    Loud cut (fun l w => Ready cut l w ∧ l.row.step = .imported ∧ Seen observed l w)
      (advanceImported cut observed) fun _ => Ready cut := by
  have lasting : Lasting (Later cut) fun l w => l.row.step = .imported ∧ Seen observed l w :=
    fun l w l' w' later holds => ⟨later.step.trans holds.1,lasting_seen observed l w l' w' later.claiming holds.2⟩
  refine Framed.bind (Steady.loud ((guard_quiet _).frame lasting)) fun _ => ?_
  split
  next state =>
    refine Framed.bind (Steps.written (Steps.weaken ((casMove_writing .published .staged).frame
      (written_step (· = .imported))) ?_ fun _ _ _ => id)) fun _ => ?_
    · rintro l w ⟨ready,step,seen⟩
      exact ⟨⟨ready,state ▸ seen.stands,⟨nofun,nofun⟩⟩,step⟩
    · exact stage_loud.weaken (fun _ _ holds => ⟨⟨holds.1.1,holds.2⟩,holds.1.2⟩) fun _ _ _ => id
  split
  next state =>
    refine stage_loud.weaken ?_ fun _ _ _ => id
    rintro l w ⟨ready,step,seen⟩
    exact ⟨⟨ready,step⟩,Stands.has (state ▸ seen.stands)⟩
  next => exact Framed.fail fun _ _ holds => holds.1.refused _

theorem finishClaimed_loud :
    Loud cut (fun l w => (Ready cut l w ∧ l.row.step = .staged ∧ l.row.claimLandedVersion.isSome = true) ∧
      Has w .claimed) advanceStaged.finish fun _ => Ready cut := by
  refine Framed.bind (edit_loud ?_) fun _ => Framed.bind save_loud fun _ => Steady.loud applyClaim_quiet
  rintro l w ⟨⟨ready,step,landed⟩,claimed⟩
  have ok : ReceiverOk cut w l.row := ready.kept
  refine ReceiverOk.earlier ok ⟨rfl,rfl,rfl,rfl⟩ rfl rfl (by rw [step]; rfl) rfl (fun _ => ok.staged ?_)
    fun _ => ⟨claimed,landed⟩
  rw [step]
  rfl

/-- A staged row that is not aborting reads a staged or a claimed record. -/
theorem staged_or_claimed {record : MoveRecord} (consistent : Consistent record .staged)
    (live : record.state ≠ .aborted) (unclaimed : record.state ≠ .claimed) : record.state = .staged := by
  have unpublished := consistent.staged rfl
  have inactive : ¬ (record.state = .activated ∨ record.state = .released) :=
    fun past => by cases consistent.activated past
  cases state : record.state <;> simp_all

theorem advanceStaged_loud (observed : MoveRecord) (live : observed.state ≠ .aborted) :
    Loud cut (fun l w => Ready cut l w ∧ l.row.step = .staged ∧ Seen observed l w)
      (advanceStaged cut observed) fun _ => Ready cut := by
  have lasting : Lasting Claiming fun l w => l.row.step = .staged ∧ Seen observed l w :=
    fun l w l' w' claiming holds =>
      ⟨claiming.step.trans holds.1,lasting_seen observed l w l' w' claiming holds.2⟩
  refine Framed.bind (Steady.loud ((guard_quiet _).frame (lasting_claiming lasting))) fun _ => ?_
  refine Framed.bind (Steps.claimed (Steps.weaken (takeClaim_claiming.frame lasting) ?_ fun _ _ _ => id))
    fun _ => ?_
  · rintro l w ⟨ready,step,seen⟩
    exact ⟨⟨ready,by rw [Running,step]; simp⟩,step,seen⟩
  split
  next unclaimed =>
    have landed : Lasting (Writing cut) fun l _ => l.row.step = .staged ∧ l.row.claimLandedVersion.isSome = true :=
      fun l w l' w' writing holds => ⟨writing.step.trans holds.1,writing.landed holds.2⟩
    refine Framed.bind (Steps.written (Steps.weaken ((casMove_writing .staged .claimed).frame landed)
      ?_ fun _ _ _ => id)) fun _ => ?_
    · rintro l w ⟨⟨ready,landed⟩,step,seen⟩
      have state : observed.state = .staged :=
        staged_or_claimed (step ▸ seen.2) live unclaimed
      exact ⟨⟨ready,state ▸ seen.stands,⟨nofun,nofun⟩⟩,step,landed⟩
    · exact finishClaimed_loud.weaken (fun _ _ holds => ⟨⟨holds.1.1,holds.2⟩,holds.1.2⟩) fun _ _ _ => id
  next claimed =>
    refine finishClaimed_loud.weaken ?_ fun _ _ _ => id
    rintro l w ⟨⟨ready,landed⟩,step,seen⟩
    exact ⟨⟨ready,step,landed⟩,Stands.has (not_not.mp claimed ▸ seen.stands)⟩

theorem advanceClaimed_loud :
    Loud cut (fun l w => Ready cut l w ∧ l.row.step = .claimed ∧ l.row.abortRequested.isSome = false)
      advanceClaimed fun _ => Ready cut := by
  have stable : Stable cut .receiver fun l w =>
      Ready cut l w ∧ l.row.step = .claimed ∧ l.row.abortRequested.isSome = false :=
    stable_row ready_stable fun l => l.row.step = .claimed ∧ l.row.abortRequested.isSome = false
  refine Framed.bind (Steady.loud (applyClaim_steady stable fun _ _ => And.left)) fun _ => ?_
  refine Framed.bind (Steady.loud (guard_steady stable (fun _ _ => And.left) _)) fun _ => ?_
  refine changeStep_loud ?_
  rintro l w ⟨ready,step,unasked⟩
  have ok : ReceiverOk cut w l.row := ready.kept
  refine ok.onward ⟨rfl,rfl,rfl,rfl⟩ ok.pending (fun _ => ok.staged ?_) (fun _ => ok.claimed ?_) ?_ (fun _ => rfl)
    (fun _ => rfl) nofun
  · rw [step]; rfl
  · rw [step]; rfl
  · intro attempted
    rcases ok.backing attempted with asked | ended
    · rw [unasked] at asked; cases asked.1
    · rw [step] at ended; cases ended

/-- The activation's checkpoint of the row that goes on from the boundary. -/
theorem activation_loud {current : AgentMove} {now : Int} :
    Loud cut (fun l w => (Ready cut l w ∧ l.row.step = .activating) ∧ l.row = current)
      (activation { current with
        step := .activated
        attempts := 0
        hold := none
        receiver := { current.receiver with retryAtMs := 0 }
        activatedAtMs := some now })
      fun answer l w => match answer with
        | .error _ => Ready cut l w
        | .ok activated => Stored cut w activated := by
  have stable : Stable cut .receiver fun l w => (Ready cut l w ∧ l.row.step = .activating) ∧ l.row = current :=
    stable_row (stable_row ready_stable (·.row.step = .activating)) (·.row = current)
  refine framed_act (p := .receiver) (e := .activation _) (fun _ _ _ => grown_of_rely) stable ?_
  rintro l w choice answer w' ⟨⟨ready,step⟩,rfl⟩ inv taken
  rcases act_activation taken with ⟨rfl,code,rfl⟩ | ⟨stored,next,boundElsewhere,found,activated,rfl,rfl⟩
  · exact ⟨inv,fun q _ => rely_refl q _,ready,List.suffix_rfl,List.suffix_rfl,List.suffix_rfl⟩
  have ok : ReceiverOk cut w next := by
    unfold activateAgentMove at activated
    split at activated
    next => cases activated
    split at activated
    next => cases activated
    next =>
      cases activated
      exact ReceiverOk.past ready.kept ⟨rfl,rfl,rfl,rfl⟩ rfl (by rw [step]; rfl) rfl
  obtain ⟨inv',relied,later⟩ := saves_inv inv ok
  exact ⟨inv',relied,storedRow inv' rfl,(later l).grown⟩

theorem finishActivation_loud :
    Loud cut (fun l w => Ready cut l w ∧ l.row.step = .activating) finishActivation fun _ => Ready cut := by
  have stable : Stable cut .receiver fun l w => Ready cut l w ∧ l.row.step = .activating :=
    stable_row ready_stable (·.row.step = .activating)
  refine Framed.bind (Steady.loud (ask_steady stable .clock)) fun now => ?_
  refine framed_row fun current => ?_
  refine Framed.bind (Steady.loud (guard_steady (stable_row stable (·.row = current)) (fun _ _ holds => holds.1.1) _))
    fun _ => ?_
  refine Framed.bind activation_loud fun answer => ?_
  cases answer with
  | error code => exact Framed.fail fun _ _ ready => Ready.refused ready _
  | ok activated =>
    refine Framed.bind (Q := fun _ => Ready cut) (edit_loud fun l w stored => Stored.ready stored) fun _ => ?_
    refine Framed.bind (Steady.loud (quiet_ask .gauges)) fun answer => ?_
    cases answer with
    | error code => exact Framed.fail fun _ _ ready => ready.refused _
    | ok _ => exact Steady.loud removeInbox_quiet

theorem advanceActivating_loud (observed : MoveRecord) :
    Loud cut (fun l w => Ready cut l w ∧ l.row.step = .activating ∧ Seen observed l w)
      (advanceActivating cut observed) fun _ => Ready cut := by
  have lasting : Lasting (Later cut) fun l w => l.row.step = .activating ∧ Seen observed l w :=
    fun l w l' w' later holds => ⟨later.step.trans holds.1,lasting_seen observed l w l' w' later.claiming holds.2⟩
  refine Framed.bind (Steady.loud (settlePending_quiet.frame lasting)) fun _ => ?_
  refine framed_row fun current => ?_
  refine Framed.bind (Steps.weaken (Steady.loud ((Framed.each fun participant _ =>
    activateParticipant_steady participant).frame lasting)) ?_ fun _ _ _ => id) fun _ => ?_
  · exact fun l w holds => ⟨⟨holds.1.1,fun _ => holds.1.1.saved holds.1.2.1⟩,holds.1.2⟩
  split
  next state =>
    refine Framed.bind (Steps.written (Steps.weaken ((casMove_writing .claimed .activated).frame
      (written_step (· = .activating))) ?_ fun _ _ _ => id)) fun _ => ?_
    · rintro l w ⟨⟨ready,_⟩,step,seen⟩
      exact ⟨⟨ready,state ▸ seen.stands,⟨nofun,fun _ => by rw [step]; rfl⟩⟩,step⟩
    · exact finishActivation_loud.weaken (fun _ _ holds => ⟨holds.1.1,holds.2⟩) fun _ _ _ => id
  split
  next => exact finishActivation_loud.weaken (fun _ _ holds => ⟨holds.1.1,holds.2.1⟩) fun _ _ _ => id
  next => exact Framed.fail fun _ _ holds => holds.1.1.refused _

/-- Past the boundary the row goes on to another step there. -/
theorem goOn_loud {before step : MoveStep} (past : crossed before = true) (after : crossed step = true) :
    Loud cut (fun l w => Ready cut l w ∧ l.row.step = before) (changeStep step >>= fun _ => save)
      fun _ => Ready cut :=
  changeStep_loud fun _ _ holds =>
    ReceiverOk.past holds.1.kept ⟨rfl,rfl,rfl,rfl⟩ rfl (by rw [holds.2]; exact past) after

theorem advanceActivated_loud :
    Loud cut (fun l w => Ready cut l w ∧ l.row.step = .activated) advanceActivated fun _ => Ready cut := by
  have lasting := @lasting_step cut (· = .activated)
  refine Framed.bind (Steady.loud (removeInbox_quiet.frame lasting)) fun _ => ?_
  refine framed_row fun current => Steps.weaken (P := fun l w => Ready cut l w ∧ l.row.step = .activated) ?_
    (fun _ _ => And.left) fun _ _ _ => id
  split
  next => exact Framed.fail fun _ _ holds => holds.1.refused _
  next =>
    refine Framed.bind (Steady.loud ((quiet_ask .clock).frame lasting)) fun now => ?_
    split
    next => exact Framed.pure fun _ _ => And.left
    next =>
      refine Framed.bind (Steady.loud (takeoverState_quiet.frame lasting)) fun before => ?_
      refine Framed.bind (Steady.loud ((takeover_quiet before).frame lasting)) fun after => ?_
      cases after with
      | taken => exact goOn_loud rfl rfl
      | failed => exact Framed.fail fun _ _ holds => holds.1.refused _
      | notStarted => exact Framed.pure fun _ _ => And.left
      | inProgress => exact Framed.pure fun _ _ => And.left

/-- The row of a pass that goes on: not aborting before the boundary. -/
def Going (observed : MoveRecord) (l : Local) : Prop :=
  l.row.step.beforeBoundary .receiver = true → l.row.abortRequested.isSome = false ∧ observed.state ≠ .aborted

theorem advance_loud (observed : MoveRecord) :
    Loud cut (fun l w => (Ready cut l w ∧ Seen observed l w) ∧ Going observed l) (advance cut observed)
      fun _ => Ready cut := by
  refine framed_row fun current => ?_
  split
  next step => exact advancePickedUp_loud.weaken (fun _ _ holds => ⟨holds.1.1.1,holds.2 ▸ step⟩) fun _ _ _ => id
  next step =>
    refine (advanceImported_loud observed).weaken ?_ fun _ _ _ => id
    exact fun _ _ holds => ⟨holds.1.1.1,holds.2 ▸ step,holds.1.1.2⟩
  next step =>
    refine Framed.known (p := observed.state ≠ .aborted) ?_ fun live => ?_
    · rintro l w ⟨⟨_,going⟩,rfl⟩
      exact (going (by rw [step]; rfl)).2
    · refine (advanceStaged_loud observed live).weaken ?_ fun _ _ _ => id
      exact fun _ _ holds => ⟨holds.1.1.1,holds.2 ▸ step,holds.1.1.2⟩
  next step =>
    refine advanceClaimed_loud.weaken ?_ fun _ _ _ => id
    rintro l w ⟨⟨⟨ready,_⟩,going⟩,rfl⟩
    exact ⟨ready,step,(going (by rw [step]; rfl)).1⟩
  next step =>
    refine (advanceActivating_loud observed).weaken ?_ fun _ _ _ => id
    exact fun _ _ holds => ⟨holds.1.1.1,holds.2 ▸ step,holds.1.1.2⟩
  next step => exact advanceActivated_loud.weaken (fun _ _ holds => ⟨holds.1.1.1,holds.2 ▸ step⟩) fun _ _ _ => id
  next => exact Framed.pure fun _ _ holds => holds.1.1.1

end Advance

section Cleanup

/-- The row of a move that is being undone. -/
structure Undoing (l : Local) : Prop where
  abort : l.row.abortRequested.isSome = true
  before : l.row.step.beforeBoundary .receiver = true

theorem Undoing.along {l' : Local} (undoing : Undoing l) (along : Along l w l' w') : Undoing l' :=
  ⟨along.abort undoing.abort,by rw [along.step]; exact undoing.before⟩

theorem lasting_undoing : Lasting (Later cut) fun l _ => Undoing l :=
  fun _ _ _ _ later undoing => undoing.along later.toAlong

theorem publishAborted_writing :
    Steps cut (Writing cut) (fun l w => Ready cut l w ∧ Undoing l) (publishAborted cut) fun _ => Ready cut := by
  refine Framed.bind (Steady.writing (readMove_steady.frame lasting_undoing)) fun observed => ?_
  obtain ⟨record,version⟩ := observed
  refine Framed.bind (Q := fun _ l w => Ready cut l w ∧ Stands record.state l w ∧ Undoing l)
    (Framed.edit ?_ ?_) fun _ => ?_
  · exact fun l w _ => ⟨⟨rfl,id,id,List.suffix_rfl,List.suffix_rfl,List.suffix_rfl⟩,id⟩
  · rintro l w ⟨⟨ready,⟨x,member,same,body⟩,_⟩,undoing⟩
    refine ⟨?_,⟨x,member,same,body ▸ rfl⟩,undoing.abort,undoing.before⟩
    exact ready_edit (fun row => { row with recordVersion := version }) ready ⟨⟨rfl,rfl,rfl,rfl⟩,rfl⟩ rfl
      ready.kept.pending
  split
  next =>
    refine (casMove_writing record.state .aborted).weaken ?_ fun _ _ _ => And.left
    exact fun _ _ holds => ⟨holds.1,holds.2.1,⟨fun _ => ⟨holds.2.2.abort,holds.2.2.before⟩,nofun⟩⟩
  next => exact Framed.pure fun _ _ => And.left

/-- A claim that names another machine, with nothing of this one under way, lets
the row end aborted. -/
theorem finishAborted_loud :
    Loud cut (fun l w => Ready cut l w ∧ Undoing l ∧ Settled cut w) (changeStep .aborted >>= fun _ => save)
      fun _ => Ready cut := by
  refine changeStep_loud ?_
  rintro l w ⟨ready,undoing,settled⟩
  have ok : ReceiverOk cut w l.row := ready.kept
  have uncrossed := (before_boundary undoing.before).2.2
  refine ok.onward ⟨rfl,rfl,rfl,rfl⟩ ok.pending nofun nofun (fun _ => .inr rfl) ?_ ?_ fun _ => settled
  · exact fun attempted => absurd (ok.begun attempted) (by simp [uncrossed])
  · exact fun saved => absurd (ok.saved saved) (by simp [uncrossed])

theorem cleanup_loud :
    Loud cut (fun l w => Ready cut l w ∧ Undoing l) (cleanup cut) fun _ => Ready cut := by
  have claiming : Lasting Claiming fun l _ => Undoing l := fun _ _ _ _ claiming undoing =>
    undoing.along claiming.toAlong
  have running : ∀ l w, Ready cut l w ∧ Undoing l → (Ready cut l w ∧ Running l) ∧ Undoing l :=
    fun l w holds => ⟨⟨holds.1,(before_boundary holds.2.before).1⟩,holds.2⟩
  have settled : Lasting (Writing cut) fun l w => Undoing l ∧ Settled cut w := fun _ _ _ _ writing holds =>
    ⟨holds.1.along writing.toAlong,writing.settled holds.2⟩
  have quiet := lasting_writing settled
  refine Framed.bind (Steady.loud (decideAbsent_quiet.frame lasting_undoing)) fun _ => ?_
  refine Framed.bind (Steady.loud (settlePending_quiet.frame lasting_undoing)) fun _ => ?_
  refine Framed.bind (Steady.loud (adoptRequest_quiet.frame lasting_undoing)) fun _ => ?_
  refine Framed.bind (Steps.claimed (Steps.weaken (reconcileTake_claiming.frame claiming) running fun _ _ _ => id))
    fun _ => ?_
  refine Framed.bind (Steps.claimed (Steps.weaken (returnClaim_claiming.frame claiming) running fun _ _ _ => id))
    fun _ => ?_
  refine Framed.bind (Steady.loud (checkReturned_steady.frame lasting_undoing)) fun _ => ?_
  refine framed_row fun current => ?_
  refine Framed.bind (Steps.weaken (Steady.loud ((Framed.each fun participant _ =>
    abortParticipant_quiet participant).frame quiet)) ?_ fun _ _ _ => id) fun _ => ?_
  · exact fun _ _ holds => ⟨holds.1.1.1,holds.1.2,holds.1.1.2⟩
  refine Framed.bind (Steps.written (Steps.weaken (publishAborted_writing.frame settled) ?_ fun _ _ _ => id))
    fun _ => ?_
  · exact fun _ _ holds => ⟨⟨holds.1,holds.2.1⟩,holds.2⟩
  refine Framed.bind (Steady.loud (applyClaim_quiet.frame quiet)) fun _ => ?_
  exact Framed.bind (Steady.loud (removeInbox_quiet.frame quiet)) fun _ => finishAborted_loud

end Cleanup

section Pass

/-- Some edit of the row that keeps its promises and may ask for the abort. -/
theorem edit_kept {change : AgentMove → AgentMove} (mild : ∀ row, Mild row (change row))
    (abort : ∀ row, row.abortRequested.isSome = true → (change row).abortRequested.isSome = true)
    (pending : ∀ row, (change row).receiver.pending = row.receiver.pending) :
    Loud cut (Kept cut) (editRow change) fun _ => Kept cut := by
  refine edit_loud fun l w kept => ?_
  refine ReceiverOk.similar kept (mild l.row).claim (mild l.row).step (abort l.row) fun moduleId waiting => ?_
  rw [pending] at waiting
  exact ReceiverOk.pending kept moduleId waiting

theorem clock_kept : Loud cut (Kept cut) (clock : Act Int) fun _ => Kept cut :=
  Steady.loud (ask_steady kept_stable .clock)

theorem record_loud (cleaning : Bool) (f : Failure) (reason : Option MoveReason) :
    Loud cut (Kept cut) (failed.record cleaning f reason) fun _ => Ready cut := by
  refine Framed.bind (edit_kept ?_ ?_ ?_) fun _ => ?_
  · exact fun _ => ⟨⟨rfl,rfl,rfl,rfl⟩,rfl⟩
  · exact fun _ => id
  · exact fun _ => rfl
  refine Framed.bind clock_kept fun now => ?_
  cases reason with
  | some reason =>
    refine Framed.bind (edit_kept ?_ ?_ ?_) fun _ => save_loud
    · exact fun _ => ⟨⟨rfl,rfl,rfl,rfl⟩,rfl⟩
    · exact fun _ _ => rfl
    · exact fun _ => rfl
  | none =>
    refine Framed.bind (edit_kept ?_ ?_ ?_) fun _ => save_loud
    · exact fun _ => ⟨⟨rfl,rfl,rfl,rfl⟩,rfl⟩
    · exact fun _ => id
    · exact fun _ => rfl

/-- A failed pass is recorded in the row, from wherever it failed. -/
theorem failed_loud (cleaning : Bool) (f : Failure) :
    Loud cut (Kept cut) (failed cleaning f) fun _ => Ready cut := by
  refine framed_row fun current => Steps.weaken (P := Kept cut) ?_ (fun _ _ => And.left) fun _ _ _ => id
  split
  next =>
    refine Framed.bind (Q := fun _ => Kept cut) ?_ fun _ => ?_
    · exact Framed.edit (fun _ _ _ => ⟨List.suffix_rfl,List.suffix_rfl,List.suffix_rfl⟩) fun _ _ => id
    refine Framed.bind (edit_kept ?_ ?_ ?_) fun _ => save_loud
    · exact fun _ => ⟨⟨rfl,rfl,rfl,rfl⟩,rfl⟩
    · exact fun _ => id
    · exact fun _ => rfl
  next =>
    dsimp only
    split
    next =>
      refine Framed.bind (edit_kept ?_ ?_ ?_) fun _ => record_loud cleaning f _
      · exact fun _ => ⟨⟨rfl,rfl,rfl,rfl⟩,rfl⟩
      · exact fun _ => id
      · exact fun _ => rfl
    next => exact record_loud cleaning f _

/-- An abort that the record shows is taken over. -/
def Noticed (observed : MoveRecord) (l : Local) : Prop :=
  observed.state = .aborted → l.row.step.beforeBoundary .receiver = true → l.row.abortRequested.isSome = true

theorem lasting_noticed (observed : MoveRecord) : Lasting (Later cut) fun l _ => Noticed observed l :=
  fun _ _ _ _ later noticed aborted before => later.abort (noticed aborted (later.step ▸ before))

theorem lasting_observed (observed : MoveRecord) :
    Lasting (Later cut) fun l w => Seen observed l w ∧ Noticed observed l :=
  fun l w l' w' later holds => ⟨lasting_seen observed l w l' w' later.claiming holds.1,
    lasting_noticed observed l w l' w' later holds.2⟩

theorem noticeAborted_steady (observed : MoveRecord) :
    Steady cut (fun l w => Ready cut l w ∧ Seen observed l w) (observe.noticeAborted observed)
      fun _ l w => Ready cut l w ∧ Seen observed l w ∧ Noticed observed l := by
  refine framed_row fun current => ?_
  split
  next =>
    have asked : Lasting (Later cut) fun l w => Seen observed l w ∧ l.row.abortRequested.isSome = true :=
      fun l w l' w' later holds => ⟨lasting_seen observed l w l' w' later.claiming holds.1,later.abort holds.2⟩
    refine Framed.bind (Q := fun _ l w => Savable cut l w ∧ Seen observed l w ∧
      l.row.abortRequested.isSome = true) (Framed.edit ?_ ?_) fun _ => ?_
    · exact fun l w _ => later_edit (fun row => { row with
        reason := observed.reason
        detail := observed.detail
        abortRequested := some ⟨observed.reason,observed.detail,false⟩ }) rfl (fun _ => rfl) rfl rfl
    · rintro l w ⟨⟨ready,seen⟩,_⟩
      refine ⟨?_,seen,rfl⟩
      exact savable_edit (fun row => { row with
        reason := observed.reason
        detail := observed.detail
        abortRequested := some ⟨observed.reason,observed.detail,false⟩ }) ready.1 ⟨⟨rfl,rfl,rfl,rfl⟩,rfl⟩
        (fun _ => rfl) ready.kept.pending
    · refine Steps.weaken (save_steady.frame asked) (fun _ _ => id) ?_
      exact fun _ _ _ holds => ⟨holds.1,holds.2.1,fun _ _ => holds.2.2⟩
  next kept =>
    refine Framed.pure ?_
    rintro l w ⟨⟨ready,seen⟩,rfl⟩
    refine ⟨ready,seen,fun aborted before => ?_⟩
    by_contra unasked
    exact kept ⟨aborted,before,by simpa using unasked⟩

theorem observe_loud :
    Loud cut (Ready cut) (observe cut) fun result l w => Ready cut l w ∧
      ∀ observed, result = some observed → Seen observed l w ∧ Noticed observed l := by
  have ended : ∀ l w, Ready cut l w → Ready cut l w ∧
      ∀ observed, none = some observed → Seen observed l w ∧ Noticed observed l :=
    fun l w ready => ⟨ready,fun _ same => by cases same⟩
  refine Framed.bind (Steady.loud readMove_steady) fun reply => ?_
  obtain ⟨observed,version⟩ := reply
  refine Framed.bind (Q := fun _ l w => Ready cut l w ∧ Seen observed l w) (edit_loud ?_) fun _ => ?_
  · rintro l w ⟨ready,read⟩
    refine ⟨?_,read⟩
    exact ready_edit (fun row => { row with recordVersion := version }) ready ⟨⟨rfl,rfl,rfl,rfl⟩,rfl⟩ rfl
      ready.kept.pending
  refine Framed.bind (Steady.loud (noticeAborted_steady observed)) fun _ => ?_
  refine framed_row fun current => framed_memory fun kept => ?_
  split
  next => exact Framed.pure fun l w holds => ended l w holds.1.1
  split
  next released =>
    refine Framed.bind (Q := fun _ => Kept cut) (edit_loud ?_) fun _ => ?_
    · rintro l w ⟨⟨ready,_⟩,rfl⟩
      exact ReceiverOk.past ready.kept ⟨rfl,rfl,rfl,rfl⟩ rfl (by rw [released.1]; rfl) rfl
    · exact Framed.bind save_loud fun _ => Framed.pure ended
  next =>
    refine Framed.bind (Steps.weaken (Steady.loud ((quiet_ask .clock).frame (lasting_observed observed)))
      (fun _ _ => And.left) fun _ _ _ => id) fun now => ?_
    split
    next => exact Framed.pure fun l w holds => ended l w holds.1
    next => exact Framed.pure fun _ _ holds => ⟨holds.1,fun _ same => by cases same; exact holds.2⟩

/-- A pass from a row that was just loaded. -/
theorem tick_loud : Loud cut (Ready cut) (tick cut) fun _ _ _ => True := by
  refine framed_row fun loaded => Steps.weaken (P := Ready cut) ?_ (fun _ _ => And.left) fun _ _ _ => id
  split
  next => exact Framed.pure fun _ _ _ => trivial
  next =>
    refine Framed.bind (Q := fun result l w => match result with
      | .ok result => Ready cut l w ∧ ∀ observed, result = some observed → Seen observed l w ∧ Noticed observed l
      | .error _ => Kept cut l w) ?_ fun result => ?_
    · exact observe_loud.attempt (fun _ _ _ => id) fun _ _ _ => And.left
    cases result with
    | error f => exact (failed_loud false f).weaken (fun _ _ => id) fun _ _ _ _ => trivial
    | ok result =>
      cases result with
      | none => exact Framed.pure fun _ _ _ => trivial
      | some observed =>
        refine framed_row fun current => ?_
        dsimp only
        refine Framed.bind (Q := fun result l w => match result with
          | .ok _ => Ready cut l w
          | .error _ => Kept cut l w) ?_ fun result => ?_
        · refine Framed.attempt (Q := fun _ => Ready cut) (E := Refused cut) ?_ (fun _ _ _ => id)
            fun _ _ _ => And.left
          split
          next cleaning =>
            have cleaning := Bool.and_eq_true_iff.mp cleaning
            refine cleanup_loud.weaken ?_ fun _ _ _ => id
            rintro l w ⟨⟨ready,_⟩,rfl⟩
            exact ⟨ready,cleaning.1,cleaning.2⟩
          next going =>
            refine (advance_loud observed).weaken ?_ fun _ _ _ => id
            rintro l w ⟨⟨ready,known⟩,rfl⟩
            have ⟨seen,noticed⟩ := known observed rfl
            refine ⟨⟨ready,seen⟩,fun before => ?_⟩
            have unasked : ¬ l.row.abortRequested.isSome = true := fun asked =>
              going (Bool.and_eq_true_iff.mpr ⟨asked,before⟩)
            exact ⟨by simpa using unasked,fun aborted => unasked (noticed aborted before)⟩
        cases result with
        | ok _ => exact Framed.pure fun _ _ _ => trivial
        | error f => exact (failed_loud _ f).weaken (fun _ _ => id) fun _ _ _ _ => trivial

/-- The receiver's passes keep the pact from any world of it. -/
theorem pass_safe (kept : Memory) : (discipline cut).Safe (pass cut .receiver kept) (fun _ _ => True) w := by
  intro s relied holds choice answer s' taken
  have ⟨inv',rely'⟩ : Inv cut s' ∧ ∀ p, rely cut p s s' := by
    rcases act_consumeRetry taken with rfl | ⟨row,found,rfl⟩
    · exact ⟨holds,fun p => rely_refl p _⟩
    · refine holds.markReceiver found ?_
      rcases consumeMoveAbortRetry_cases row with same | ⟨_,request,same⟩
      · exact .inl same
      · exact .inr ⟨request,same⟩
  refine ⟨inv',fun q _ => rely' q,?_⟩
  intro t relied' holds' choice' found t' taken'
  obtain ⟨rfl,loaded⟩ := act_row taken'
  refine ⟨holds',fun q _ => rely_refl q _,?_⟩
  cases found with
  | error code => trivial
  | ok found =>
    cases found with
    | none => trivial
    | some row =>
      have stored : Stored cut t' row := storedRow holds' (loaded (some row) rfl).symm
      refine Discipline.Safe.bind (tick_loud.safe (Stored.ready stored)) fun _ _ _ => trivial

end Pass
end Entorhinal.Move.Receiver
