import Entorhinal.MoveInvariant

/-! What each kind of action does to the invariant, and what it leaves for the
other parties to rely on. -/
namespace Entorhinal.Move

/-- Events that no promise speaks about. -/
def Harmless (w : World) : Event → Prop
  | .saved side step => ¬ (side = .receiver ∧ step = .activating)
  | .sent .source _ op => op ≠ .abort ∧ op ≠ .release
  | .sent .receiver _ op => op ≠ .activate
  | .observed _ x => x ∈ w.moves.writes

/-- The trace as it was, or with one event more. -/
def Adds (w : World) (allow : Event → Prop) (trace : List Event) : Prop :=
  trace = w.trace ∨ ∃ e, allow e ∧ trace = e :: w.trace

/-- Only flights fall away and harmless events are added. -/
def Calm (w w' : World) : Prop :=
  ∃ moveFlights claimFlights trace,
    w' = { w with moveFlights := moveFlights, claimFlights := claimFlights, trace := trace } ∧
    (∀ f ∈ moveFlights, f ∈ w.moveFlights) ∧ (∀ f ∈ claimFlights, f ∈ w.claimFlights) ∧
    Adds w (Harmless w) trace

theorem Adds.grows {w : World} {allow : Event → Prop} {trace : List Event} (adds : Adds w allow trace) :
    w.trace <:+ trace := by
  rcases adds with rfl | ⟨e,_,rfl⟩
  · exact List.suffix_rfl
  · exact List.suffix_cons _ _

theorem Adds.back {w : World} {allow : Event → Prop} {trace : List Event} {e : Event}
    (adds : Adds w allow trace) (refused : ¬ allow e) (member : e ∈ trace) : e ∈ w.trace := by
  rcases adds with rfl | ⟨added,allowed,rfl⟩
  · exact member
  · rcases List.mem_cons.mp member with rfl | inside
    · exact absurd allowed refused
    · exact inside

theorem Adds.suffix {w : World} {allow : Event → Prop} {trace rest : List Event} {e : Event}
    (adds : Adds w allow trace) (refused : ¬ allow e) (suffix : (e :: rest) <:+ trace) :
    (e :: rest) <:+ w.trace := by
  rcases adds with rfl | ⟨added,allowed,rfl⟩
  · exact suffix
  · rcases List.suffix_cons_iff.mp suffix with same | inside
    · cases same; exact absurd allowed refused
    · exact inside

theorem not_harmless_saved (w : World) : ¬ Harmless w (.saved .receiver .activating) := by
  simp [Harmless]

theorem not_harmless_abort (w : World) (moduleId : String) :
    ¬ Harmless w (.sent .source moduleId .abort) := by simp [Harmless]

theorem not_harmless_release (w : World) (moduleId : String) :
    ¬ Harmless w (.sent .source moduleId .release) := by simp [Harmless]

theorem not_harmless_activate (w : World) (moduleId : String) :
    ¬ Harmless w (.sent .receiver moduleId .activate) := by simp [Harmless]

variable {cut : Cut} {w w' : World}

theorem Attempted.fewer {state : MoveRecordState} {flights : List (Flight MoveRecord)}
    (attempted : Attempted cut w' state) (moves : w'.moves = w.moves) (same : w'.moveFlights = flights)
    (fewer : ∀ f ∈ flights, f ∈ w.moveFlights) : Attempted cut w state := by
  rcases attempted with ⟨f,member,rest⟩ | ⟨x,member,rest⟩
  · exact .inl ⟨f,fewer f (same ▸ member),rest⟩
  · exact .inr ⟨x,moves ▸ member,rest⟩

theorem Calm.sourceRely (calm : Calm w w') : SourceRely w w' := by
  obtain ⟨moveFlights,claimFlights,trace,rfl,moves,claims,adds⟩ := calm
  refine ⟨.refl _,List.suffix_rfl,?_,adds.grows,?_⟩
  · exact fun unpublished => ⟨unpublished.1,fun f member => unpublished.2 f (moves f member)⟩
  · exact fun ⟨moduleId,member⟩ => ⟨moduleId,adds.back (not_harmless_abort w moduleId) member⟩

theorem Calm.receiverRely (calm : Calm w w') : ReceiverRely cut w w' := by
  obtain ⟨moveFlights,claimFlights,trace,rfl,moves,claims,adds⟩ := calm
  refine ⟨fun row found => ⟨row,found,.refl _⟩,List.suffix_rfl,List.suffix_rfl,?_,?_,adds.grows,?_⟩
  · exact fun state attempted => attempted.fewer rfl rfl moves
  · rintro ⟨none,holder⟩
    refine ⟨List.eq_nil_iff_forall_not_mem.mpr fun f member => ?_,holder⟩
    have inside := claims f member
    rw [none] at inside
    cases inside
  · exact fun saved => adds.back (not_harmless_saved w) saved

theorem Calm.inboxRely (calm : Calm w w') : InboxRely w w' := calm.sourceRely.moves

theorem Calm.shared (calm : Calm w w') (shared : Shared cut w) : Shared cut w' := by
  obtain ⟨moveFlights,claimFlights,trace,rfl,moves,claims,adds⟩ := calm
  refine ⟨shared.documented,fun f member => shared.flights f (moves f member),?_,?_,shared.planned,
    fun f member => shared.sent f (moves f member),shared.holder,?_⟩
  · intro side x member
    rcases adds with rfl | ⟨e,harmless,rfl⟩
    · exact shared.seen side x member
    · rcases List.mem_cons.mp member with rfl | inside
      · exact harmless
      · exact shared.seen side x inside
  · exact fun moduleId rest suffix =>
      shared.released moduleId rest (adds.suffix (not_harmless_release w moduleId) suffix)
  · rintro ⟨moduleId,member⟩
    exact adds.grows.mem (shared.activated ⟨moduleId,adds.back (not_harmless_activate w moduleId) member⟩)

theorem Recorded.fewer {row : AgentMove} (recorded : Recorded cut w row) (claims : w'.claims = w.claims)
    (flights : ∀ f ∈ w'.claimFlights, f ∈ w.claimFlights) (trace : w.trace <:+ w'.trace) :
    Recorded cut w' row where
  flights := fun f member => recorded.flights f (flights f member)
  history := by rw [claims]; exact recorded.history
  activating := fun step => trace.mem (recorded.activating step)

theorem Untouched.fewer (untouched : Untouched cut w) (relied : ReceiverRely cut w w')
    (claims : w'.claims = w.claims) (flights : ∀ f ∈ w'.claimFlights, f ∈ w.claimFlights) :
    Untouched cut w' where
  attempted := fun state attempted => untouched.attempted state (relied.attempted state attempted)
  claimFlights := by
    refine List.eq_nil_iff_forall_not_mem.mpr fun f member => ?_
    have inside := flights f member
    rw [untouched.claimFlights] at inside
    cases inside
  claims := by rw [claims]; exact untouched.claims
  saved := fun saved => untouched.saved (relied.saved saved)

/-- An action that leaves the receiver's row and the claim record alone. -/
theorem Inv.beside (inv : Inv cut w) (shared : Shared cut w') (source : SourceOk cut w' w'.source)
    (relied : ReceiverRely cut w w') (row : w'.receiver = w.receiver) (claims : w'.claims = w.claims)
    (flights : ∀ f ∈ w'.claimFlights, f ∈ w.claimFlights) : Inv cut w' where
  shared := shared
  source := source
  receiver := by
    intro r found
    rw [row] at found
    obtain ⟨ok,recorded⟩ := inv.receiver r found
    exact ⟨ok.stable relied shared,recorded.fewer claims flights relied.trace⟩
  untouched := fun none => (inv.untouched (row ▸ none)).fewer relied claims flights

theorem Inv.calm (inv : Inv cut w) (calm : Calm w w') : Inv cut w' := by
  have shared := calm.shared inv.shared
  have source := inv.source.stable calm.sourceRely
  have relied : ReceiverRely cut w w' := calm.receiverRely
  obtain ⟨moveFlights,claimFlights,trace,rfl,moves,claims,adds⟩ := calm
  exact inv.beside shared source relied rfl rfl claims

section Source

/-- Saving a source row that meets its promises. -/
theorem Inv.setSource (inv : Inv cut w) {next : AgentMove} (ok : SourceOk cut w next) :
    Inv cut { w with source := next } := by
  have planned : Unpublished w ∨ next.plan = w.source.plan := ok.plan
  refine inv.beside ?_ ?_ ?_ rfl rfl (fun _ => id)
  · refine ⟨inv.shared.documented,inv.shared.flights,inv.shared.seen,inv.shared.released,?_,?_,
      inv.shared.holder,inv.shared.activated⟩
    · intro x member
      rcases planned with unpublished | same
      · rw [unpublished.1] at member; cases member
      · exact (inv.shared.planned x member).trans same.symm
    · intro f member side
      rcases planned with unpublished | same
      · exact absurd side (unpublished.2 f member)
      · exact (inv.shared.sent f member side).trans same.symm
  · exact ⟨ok.onSource,ok.machines,ok.prepared,ok.early,ok.late,.inr rfl,ok.aborted,ok.undone⟩
  · exact ⟨fun row found => ⟨row,found,.refl _⟩,List.suffix_rfl,List.suffix_rfl,fun _ => id,id,
      List.suffix_rfl,id⟩

theorem receiverRely_source (next : AgentMove) : ReceiverRely cut w { w with source := next } :=
  ⟨fun row found => ⟨row,found,.refl _⟩,List.suffix_rfl,List.suffix_rfl,fun _ => id,id,
    List.suffix_rfl,id⟩

/-- A source row may write the record from here on. -/
structure MayWrite (w : World) (row : AgentMove) : Prop where
  plan : row.plan = w.source.plan
  early : ¬ (row.step = .preparing ∨ row.step = .exported)
  aborted : row.step = .aborted → Has w .aborted
  unfroze : Unfroze w → Has w .aborted

/-- A source row keeps its promises when the record grows by a write of its own. -/
theorem SourceOk.grown {row : AgentMove} (ok : SourceOk cut w row) (may : MayWrite w row)
    (source : w'.source = w.source) (moves : w.moves.writes <:+ w'.moves.writes)
    (unfroze : Unfroze w' → Unfroze w) : SourceOk cut w' row where
  onSource := ok.onSource
  machines := ok.machines
  prepared := ok.prepared
  early := fun step => absurd step may.early
  late := fun step => writes_grow (ok.late step) moves
  plan := .inr (may.plan.trans (source ▸ rfl))
  aborted := fun step => .inl ((may.aborted step).grow moves)
  undone := fun sent => .inl ((may.unfroze (unfroze sent)).grow moves)

theorem Shared.serveMove (shared : Shared cut w) {side : MoveSide} {request : CasRequest MoveRecord}
    {fresh : Nat} (permitted : Permitted w.moves.writes side request)
    (plan : request.body.plan = w.source.plan) :
    Shared cut { w with moves := (applied w.moves (cut.machine side) request fresh) } := by
  have grows := applied_grows w.moves (cut.machine side) request fresh
  refine ⟨applied_documented shared.documented permitted,?_,?_,shared.released,?_,shared.sent,
    shared.holder,shared.activated⟩
  · exact fun f member => (shared.flights f member).grow grows
  · exact fun side x member => grows.mem (shared.seen side x member)
  · intro x member
    rcases applied_mem member with inside | ⟨rfl,_⟩
    · exact shared.planned x inside
    · exact plan

theorem Shared.flyMove (shared : Shared cut w) {side : MoveSide} {request : CasRequest MoveRecord}
    (permitted : Permitted w.moves.writes side request) (plan : request.body.plan = w.source.plan) :
    Shared cut { w with moveFlights := ⟨side,request⟩ :: w.moveFlights } := by
  refine ⟨shared.documented,?_,shared.seen,shared.released,shared.planned,?_,shared.holder,
    shared.activated⟩
  · intro f member
    rcases List.mem_cons.mp member with rfl | inside
    · exact permitted
    · exact shared.flights f inside
  · intro f member side'
    rcases List.mem_cons.mp member with rfl | inside
    · exact plan
    · exact shared.sent f inside side'

theorem attempted_applied {side : MoveSide} {request : CasRequest MoveRecord} {fresh : Nat}
    {state : MoveRecordState}
    (attempted : Attempted cut
      { w with moves := (applied w.moves (cut.machine side) request fresh) } state) :
    Attempted cut w state ∨ (cut.machine side = cut.toMachine ∧ request.body.state = state) := by
  rcases attempted with flying | ⟨x,member,author,same⟩
  · exact .inl (.inl flying)
  · rcases applied_mem member with inside | ⟨rfl,_⟩
    · exact .inl (.inr ⟨x,inside,author,same⟩)
    · exact .inr ⟨author,same⟩

theorem receiverRely_applied {request : CasRequest MoveRecord} {fresh : Nat} :
    ReceiverRely cut w
      { w with moves := (applied w.moves (cut.machine .source) request fresh) } where
  row := fun row found => ⟨row,found,.refl _⟩
  moves := applied_grows w.moves (cut.machine .source) request fresh
  claims := List.suffix_rfl
  attempted := by
    intro state attempted
    rcases attempted_applied attempted with before | ⟨author,_⟩
    · exact before
    · exact absurd author cut.distinct
  settled := id
  trace := List.suffix_rfl
  saved := id

theorem receiverRely_fly {request : CasRequest MoveRecord} :
    ReceiverRely cut w { w with moveFlights := ⟨.source,request⟩ :: w.moveFlights } where
  row := fun row found => ⟨row,found,.refl _⟩
  moves := List.suffix_rfl
  claims := List.suffix_rfl
  attempted := by
    rintro state (⟨f,member,side,same⟩ | written)
    · rcases List.mem_cons.mp member with rfl | inside
      · cases side
      · exact .inl ⟨f,inside,side,same⟩
    · exact .inr written
  settled := id
  trace := List.suffix_rfl
  saved := id

theorem Inv.sourceServe (inv : Inv cut w) {request : CasRequest MoveRecord} {fresh : Nat}
    (permitted : Permitted w.moves.writes .source request)
    (plan : request.body.plan = w.source.plan) (may : MayWrite w w.source) :
    Inv cut { w with moves := (applied w.moves (cut.machine .source) request fresh) } := by
  refine inv.beside (inv.shared.serveMove permitted plan) ?_ receiverRely_applied rfl rfl (fun _ => id)
  exact inv.source.grown may rfl (applied_grows ..) id

theorem Inv.sourceFly (inv : Inv cut w) {request : CasRequest MoveRecord}
    (permitted : Permitted w.moves.writes .source request)
    (plan : request.body.plan = w.source.plan) (may : MayWrite w w.source) :
    Inv cut { w with moveFlights := ⟨.source,request⟩ :: w.moveFlights } := by
  refine inv.beside (inv.shared.flyMove permitted plan) ?_ receiverRely_fly rfl rfl (fun _ => id)
  exact inv.source.grown may rfl List.suffix_rfl id

/-- A participant of the source may be unfrozen: the record reads aborted, or
there is none and this side is undoing. -/
def MayUnfreeze (w : World) (row : AgentMove) : Prop :=
  Has w .aborted ∨ (Unpublished w ∧ row.abortRequested.isSome = true)

theorem SourceOk.similar {row row' : AgentMove} (ok : SourceOk cut w row) (step : row'.step = row.step)
    (plan : row'.plan = row.plan) (prepared : row'.source.prepared = row.source.prepared)
    (abort : row.abortRequested.isSome = true → row'.abortRequested.isSome = true) :
    SourceOk cut w row' where
  onSource := step ▸ ok.onSource
  machines := plan ▸ ok.machines
  prepared := by rw [step,prepared]; exact ok.prepared
  early := by rw [step]; exact ok.early
  late := by rw [step]; exact ok.late
  plan := plan ▸ ok.plan
  aborted := by rw [step]; exact ok.aborted
  undone := fun unfroze => (ok.undone unfroze).imp id fun rest => ⟨rest.1,rest.2.imp abort (step ▸ ·)⟩

/-- A row whose abort is cleared has none to undo. -/
theorem SourceOk.cleared {row : AgentMove} (ok : SourceOk cut w row)
    (settled : w.moves.writes ≠ [] ∨ row.step = .aborted) :
    SourceOk cut w { row with abortRequested := none } where
  onSource := ok.onSource
  machines := ok.machines
  prepared := ok.prepared
  early := ok.early
  late := ok.late
  plan := ok.plan
  aborted := ok.aborted
  undone := by
    intro unfroze
    rcases ok.undone unfroze with aborted | ⟨unpublished,_⟩
    · exact .inl aborted
    · rcases settled with published | aborted
      · exact absurd unpublished.1 published
      · exact .inr ⟨unpublished,.inr aborted⟩

/-- Once there is a record, the row may take any of the steps behind it. -/
theorem SourceOk.advanced {row row' : AgentMove} (ok : SourceOk cut w row) (published : w.moves.writes ≠ [])
    (step : row'.step = .published ∨ row'.step = .releasing ∨ row'.step = .released)
    (plan : row'.plan = row.plan) : SourceOk cut w row' where
  onSource := by rcases step with step | step | step <;> rw [step] <;> rfl
  machines := plan ▸ ok.machines
  prepared := by rcases step with step | step | step <;> simp [step]
  early := by rcases step with step | step | step <;> simp [step]
  late := fun _ => published
  plan := plan ▸ ok.plan
  aborted := by rcases step with step | step | step <;> simp [step]
  undone := fun unfroze => (ok.undone unfroze).imp id fun rest => absurd rest.1.1 published

theorem SourceOk.exported {row row' : AgentMove} (ok : SourceOk cut w row) (before : row.step = .preparing)
    (prepared : row.source.prepared = true) (step : row'.step = .exported) (plan : row'.plan = row.plan)
    (source : row'.source.prepared = row.source.prepared)
    (abort : row'.abortRequested = row.abortRequested) : SourceOk cut w row' where
  onSource := by rw [step]; rfl
  machines := plan ▸ ok.machines
  prepared := fun _ => source.trans prepared
  early := fun _ => ok.early (.inl before)
  late := by simp [step]
  plan := plan ▸ ok.plan
  aborted := by simp [step]
  undone := fun unfroze => (ok.undone unfroze).imp id fun rest => ⟨rest.1,.inl (by simpa [abort,before] using rest.2)⟩

theorem SourceOk.sealed {row row' : AgentMove} (ok : SourceOk cut w row) (before : row.step = .exported)
    (step : row'.step = .sealed) (plan : row'.plan = row.plan)
    (source : row'.source.prepared = row.source.prepared)
    (abort : row'.abortRequested = row.abortRequested) : SourceOk cut w row' where
  onSource := by rw [step]; rfl
  machines := plan ▸ ok.machines
  prepared := fun _ => source.trans (ok.prepared (.inl before))
  early := by simp [step]
  late := by simp [step]
  plan := plan ▸ ok.plan
  aborted := by simp [step]
  undone := fun unfroze => (ok.undone unfroze).imp id fun rest => ⟨rest.1,.inl (by simpa [abort,before] using rest.2)⟩

/-- A cut without a record, or with an aborted one, may end aborted. -/
theorem SourceOk.ended {row row' : AgentMove} (ok : SourceOk cut w row)
    (undone : Has w .aborted ∨ Unpublished w) (step : row'.step = .aborted) (plan : row'.plan = row.plan) :
    SourceOk cut w row' where
  onSource := by rw [step]; rfl
  machines := plan ▸ ok.machines
  prepared := by simp [step]
  early := by simp [step]
  late := by simp [step]
  plan := plan ▸ ok.plan
  aborted := fun _ => undone
  undone := fun _ => undone.imp id fun unpublished => ⟨unpublished,.inr step⟩

theorem SourceOk.unfreezes {row : AgentMove} (ok : SourceOk cut w row) (may : MayUnfreeze w row)
    (moduleId : String) : SourceOk cut (w.record (.sent .source moduleId .abort)) row :=
  ⟨ok.onSource,ok.machines,ok.prepared,ok.early,ok.late,ok.plan,ok.aborted,fun _ =>
    may.imp id fun rest => ⟨rest.1,.inl rest.2⟩⟩

theorem Adds.record (w : World) (allow : Event → Prop) {e : Event} (allowed : allow e) :
    Adds w allow (w.record e).trace := .inr ⟨e,allowed,rfl⟩

theorem receiverRely_sent (side : MoveSide) (moduleId : String) (op : ParticipantOp) :
    ReceiverRely cut w (w.record (.sent side moduleId op)) where
  row := fun row found => ⟨row,found,.refl _⟩
  moves := List.suffix_rfl
  claims := List.suffix_rfl
  attempted := fun _ => id
  settled := id
  trace := List.suffix_cons _ _
  saved := fun saved => by
    rcases List.mem_cons.mp saved with same | inside
    · cases same
    · exact inside

theorem Shared.sourceSent (shared : Shared cut w) (moduleId : String) (op : ParticipantOp)
    (released : op = .release → ∃ x, .observed .source x ∈ w.trace ∧ x.body.state = .activated) :
    Shared cut (w.record (.sent .source moduleId op)) := by
  refine ⟨shared.documented,shared.flights,?_,?_,shared.planned,shared.sent,shared.holder,?_⟩
  · intro side x member
    rcases List.mem_cons.mp member with same | inside
    · cases same
    · exact shared.seen side x inside
  · intro moduleId' rest suffix
    rcases List.suffix_cons_iff.mp suffix with same | inside
    · cases same; exact released rfl
    · exact shared.released moduleId' rest inside
  · rintro ⟨moduleId',member⟩
    rcases List.mem_cons.mp member with same | inside
    · cases same
    · exact List.mem_cons_of_mem _ (shared.activated ⟨moduleId',inside⟩)

theorem Inv.unfreezes (inv : Inv cut w) (may : MayUnfreeze w w.source) (moduleId : String) :
    Inv cut (w.record (.sent .source moduleId .abort)) := by
  refine inv.beside (inv.shared.sourceSent moduleId .abort (by simp)) ?_ (receiverRely_sent ..) rfl rfl
    (fun _ => id)
  exact inv.source.unfreezes may moduleId

theorem Inv.releases (inv : Inv cut w) (moduleId : String)
    (seen : ∃ x, .observed .source x ∈ w.trace ∧ x.body.state = .activated) :
    Inv cut (w.record (.sent .source moduleId .release)) := by
  refine inv.beside (inv.shared.sourceSent moduleId .release fun _ => seen) ?_ (receiverRely_sent ..)
    rfl rfl (fun _ => id)
  have ok := inv.source
  refine ⟨ok.onSource,ok.machines,ok.prepared,ok.early,ok.late,ok.plan,ok.aborted,?_⟩
  rintro ⟨moduleId',member⟩
  rcases List.mem_cons.mp member with same | inside
  · cases same
  · exact ok.undone ⟨moduleId',inside⟩

end Source
section Acts

open RecordClient (RecordError RecordReply)

variable {p : Party} {choice : Choice}

theorem act_ask {question : Question} {answer : question.Reply}
    (taken : act cut p w (.ask question) choice = some (answer,w')) : w' = w := by
  cases choice <;> simp only [act,reduceCtorEq] at taken
  next asked reply =>
    split at taken
    next => cases taken; rfl
    next => cases taken

theorem act_call {moduleId : String} {op : ParticipantOp} {answer : Except ClientError ParticipantReply}
    (taken : act cut p w (.call moduleId op) choice = some (answer,w')) :
    w' = w.record (.sent p.side moduleId op) := by
  cases choice <;> simp only [act,reduceCtorEq] at taken
  cases taken
  rfl

theorem settles_fewer {β : Type} {flights : List (Flight β)} :
    ∀ f ∈ World.settles p flights, f ∈ flights := by
  intro f member
  cases p with
  | inbox => exact member
  | source => exact List.mem_of_mem_filter member
  | receiver => exact List.mem_of_mem_filter member

/-- A read that is not stale shows the record as it stands. -/
theorem act_readMove {answer : Except RecordError (RecordReply MoveRecord)}
    (taken : act cut p w .readMove choice = some (answer,w')) :
    Calm w w' ∧ ∀ reply, answer = .ok reply → reply.stale = false →
      reply = .shows w.moves.current (cut.machine p.side) false ∧ w'.moves = w.moves ∧
      w'.moveFlights = World.settles p w.moveFlights ∧
      ∀ x, w.moves.current = some x → .observed p.side x ∈ w'.trace := by
  cases choice <;> simp only [act,reduceCtorEq] at taken
  case fresh =>
    cases taken
    cases current : w.moves.current with
    | none =>
      refine ⟨⟨_,w.claimFlights,w.trace,rfl,settles_fewer,fun _ => id,.inl rfl⟩,?_⟩
      exact fun reply same _ => ⟨by cases same; rfl,rfl,rfl,fun x none => by cases none⟩
    | some write =>
      refine ⟨⟨_,w.claimFlights,_,rfl,settles_fewer,fun _ => id,.inr ⟨_,?_,rfl⟩⟩,?_⟩
      · exact Register.current_mem current
      · exact fun reply same _ => ⟨by cases same; rfl,rfl,rfl,fun x found => by
          cases found; exact List.mem_cons_self⟩
  case cachedMove reply =>
    cases taken
    refine ⟨⟨_,_,w.trace,rfl,fun _ => id,fun _ => id,.inl rfl⟩,fun reply same fresh => ?_⟩
    cases same
    cases fresh
  case unread error =>
    cases taken
    exact ⟨⟨_,_,w.trace,rfl,fun _ => id,fun _ => id,.inl rfl⟩,fun reply same => by cases same⟩

theorem act_readClaim {answer : Except RecordError (RecordReply AgentClaim)}
    (taken : act cut p w .readClaim choice = some (answer,w')) :
    Calm w w' ∧ ∀ reply, answer = .ok reply → reply.stale = false →
      reply = .shows w.claims.current (cut.machine p.side) false ∧ w'.claims = w.claims ∧
      w'.claimFlights = World.settles p w.claimFlights := by
  cases choice <;> simp only [act,reduceCtorEq] at taken
  case fresh =>
    cases taken
    exact ⟨⟨w.moveFlights,_,w.trace,rfl,fun _ => id,settles_fewer,.inl rfl⟩,
      fun reply same _ => ⟨by cases same; rfl,rfl,rfl⟩⟩
  case cachedClaim reply =>
    cases taken
    refine ⟨⟨_,_,w.trace,rfl,fun _ => id,fun _ => id,.inl rfl⟩,fun reply same fresh => ?_⟩
    cases same
    cases fresh
  case unread error =>
    cases taken
    exact ⟨⟨_,_,w.trace,rfl,fun _ => id,fun _ => id,.inl rfl⟩,fun reply same => by cases same⟩

theorem act_checkpoint {row : AgentMove} {clear : Bool} {answer : Except String AgentMove}
    (taken : act cut p w (.checkpoint row clear) choice = some (answer,w')) :
    (w' = w ∧ ∃ code, answer = .error code) ∨
    ∃ current, w.row p.side = some current ∧ answer = .ok (checkpointAgentMove current row clear) ∧
      w' = (w.withRow p.side (checkpointAgentMove current row clear)).record
        (.saved p.side (checkpointAgentMove current row clear).step) := by
  cases choice <;> simp only [act,reduceCtorEq] at taken
  next flag =>
    split at taken
    next => cases taken; exact .inl ⟨rfl,_,rfl⟩
    next current found => cases taken; exact .inr ⟨current,found,rfl,rfl⟩
  next code => cases taken; exact .inl ⟨rfl,_,rfl⟩

/-- A write is served, or it stays under way. -/
theorem act_casMove {request : CasRequest MoveRecord} {answer : Except RecordError Nat}
    (taken : act cut p w (.casMove request) choice = some (answer,w')) :
    (∃ fresh forgotten, answer = answered w.moves (cut.machine p.side) request fresh forgotten ∧
      w' = { w with moves := applied w.moves (cut.machine p.side) request fresh }) ∨
    ((∃ error, answer = .error error) ∧ w' = { w with moveFlights := ⟨p.side,request⟩ :: w.moveFlights }) := by
  cases choice <;> simp only [act,reduceCtorEq] at taken
  next fresh forgotten => cases taken; exact .inl ⟨fresh,forgotten,rfl,rfl⟩
  next error =>
    split at taken
    next => cases taken; exact .inr ⟨⟨error,rfl⟩,rfl⟩
    next => cases taken

theorem act_casClaim {request : CasRequest AgentClaim} {answer : Except RecordError Nat}
    (taken : act cut p w (.casClaim request) choice = some (answer,w')) :
    (∃ fresh forgotten, answer = answered w.claims (cut.machine p.side) request fresh forgotten ∧
      w' = { w with claims := applied w.claims (cut.machine p.side) request fresh }) ∨
    ((∃ error, answer = .error error) ∧ w' = { w with claimFlights := ⟨p.side,request⟩ :: w.claimFlights }) := by
  cases choice <;> simp only [act,reduceCtorEq] at taken
  next fresh forgotten => cases taken; exact .inl ⟨fresh,forgotten,rfl,rfl⟩
  next error =>
    split at taken
    next => cases taken; exact .inr ⟨⟨error,rfl⟩,rfl⟩
    next => cases taken

theorem act_activation {row : AgentMove} {answer : Except String AgentMove}
    (taken : act cut p w (.activation row) choice = some (answer,w')) :
    (w' = w ∧ ∃ code, answer = .error code) ∨
    ∃ current next boundElsewhere, w.row p.side = some current ∧
      activateAgentMove current row boundElsewhere = .ok next ∧ answer = .ok next ∧
      w' = (w.withRow p.side next).record (.saved p.side next.step) := by
  cases choice <;> simp only [act,reduceCtorEq] at taken
  next boundElsewhere =>
    split at taken
    next => cases taken; exact .inl ⟨rfl,_,rfl⟩
    next current found =>
      split at taken
      next => cases taken; exact .inl ⟨rfl,_,rfl⟩
      next next activated => cases taken; exact .inr ⟨current,next,boundElsewhere,found,activated,rfl,rfl⟩
  next => cases taken; exact .inl ⟨rfl,_,rfl⟩

theorem act_admission {row : AgentMove} {answer : Except String AgentMove}
    (taken : act cut p w (.admission row) choice = some (answer,w')) :
    w' = w ∨ ∃ next slotFree, admitReceivedMove w.receiver row slotFree = .ok next ∧
      w' = { w with receiver := some next } := by
  cases choice <;> simp only [act,reduceCtorEq] at taken
  next slotFree =>
    split at taken
    next => cases taken; exact .inl rfl
    next next admitted => cases taken; exact .inr ⟨next,slotFree,admitted,rfl⟩
  next => cases taken; exact .inl rfl

theorem act_consumeRetry {answer : Except String Bool}
    (taken : act cut p w .consumeRetry choice = some (answer,w')) :
    w' = w ∨ ∃ row, w.row p.side = some row ∧ w' = w.withRow p.side (consumeMoveAbortRetry row).1 := by
  cases choice <;> simp only [act,reduceCtorEq] at taken
  next =>
    split at taken
    next => cases taken; exact .inl rfl
    next row found => cases taken; exact .inr ⟨row,found,rfl⟩
  next => cases taken; exact .inl rfl

end Acts
end Entorhinal.Move
