import Entorhinal.MoveActions
import Entorhinal.MoveSource

/-! The receiver's actions, the pickup and what happens outside the drivers; and
the pact of the three parties of a cut. -/
namespace Entorhinal.Move

variable {cut : Cut} {w w' : World}

/-- An action that leaves the source's row alone. -/
theorem Inv.opposite (inv : Inv cut w) (shared : Shared cut w') (relied : SourceRely w w')
    (row : w'.source = w.source)
    (receiver : ∀ row, w'.receiver = some row → ReceiverOk cut w' row ∧ Recorded cut w' row)
    (untouched : w'.receiver = none → Untouched cut w') : Inv cut w' where
  shared := shared
  source := row ▸ inv.source.stable relied
  receiver := receiver
  untouched := untouched

theorem Shared.sameRecords (shared : Shared cut w) {trace : List Event} {receiver : Option AgentMove}
    (seen : ∀ side x, .observed side x ∈ trace → .observed side x ∈ w.trace)
    (released : ∀ moduleId rest, (.sent .source moduleId .release :: rest) <:+ trace →
      (.sent .source moduleId .release :: rest) <:+ w.trace)
    (activated : ∀ moduleId, .sent .receiver moduleId .activate ∈ trace →
      .saved .receiver .activating ∈ trace) :
    Shared cut { w with receiver := receiver, trace := trace } :=
  ⟨shared.documented,shared.flights,fun side x member => shared.seen side x (seen side x member),
    fun moduleId rest suffix => shared.released moduleId rest (released moduleId rest suffix),
    shared.planned,shared.sent,shared.holder,fun ⟨moduleId,member⟩ => activated moduleId member⟩

section Checkpoint

/-- The world after the receiver saved a row. -/
def World.saves (w : World) (next : AgentMove) : World :=
  (w.withRow .receiver next).record (.saved .receiver next.step)

theorem sourceRely_saves (next : AgentMove) : SourceRely w (w.saves next) :=
  ⟨.refl _,List.suffix_rfl,id,List.suffix_cons _ _,fun ⟨moduleId,member⟩ => by
    rcases List.mem_cons.mp member with same | inside
    · cases same
    · exact ⟨moduleId,inside⟩⟩

theorem saved_saves {next : AgentMove} (saved : Saved (w.saves next)) :
    next.step = .activating ∨ Saved w := by
  rcases List.mem_cons.mp saved with same | inside
  · simp only [Event.saved.injEq,true_and] at same
    exact .inl same.symm
  · exact .inr inside

theorem ReceiverOk.saves {next : AgentMove} (ok : ReceiverOk cut w next) :
    ReceiverOk cut (w.saves next) next where
  machines := ok.machines
  published := ok.published
  plan := ok.plan
  staged := ok.staged
  claimed := ok.claimed
  backing := ok.backing
  begun := ok.begun
  saved := by
    intro saved
    rcases saved_saves saved with step | before
    · rw [step]; rfl
    · exact ok.saved before
  pending := fun moduleId waiting => List.mem_cons_of_mem _ (ok.pending moduleId waiting)
  stored := ⟨next,rfl,.refl next⟩
  landed := ok.landed
  take := fun take body => ⟨(ok.take take body).holder,(ok.take take body).version,(ok.take take body).prior⟩
  ended := ok.ended

/-- Saving a receiver row that meets its promises. -/
theorem Inv.saves (inv : Inv cut w) {next : AgentMove} (ok : ReceiverOk cut w next) :
    Inv cut (w.saves next) := by
  obtain ⟨stored,found,extended⟩ := ok.stored
  have ⟨_,recorded⟩ := inv.receiver stored found
  refine inv.opposite ?_ (sourceRely_saves next) rfl ?_ (fun none => by cases none)
  · refine inv.shared.sameRecords ?_ ?_ ?_
    · intro side x member
      rcases List.mem_cons.mp member with same | inside
      · cases same
      · exact inside
    · intro moduleId rest suffix
      rcases List.suffix_cons_iff.mp suffix with same | inside
      · cases same
      · exact inside
    · intro moduleId member
      rcases List.mem_cons.mp member with same | inside
      · cases same
      · exact List.mem_cons_of_mem _ (inv.shared.activated ⟨moduleId,inside⟩)
  · rintro row ⟨⟩
    refine ⟨ok.saves,⟨?_,?_,?_⟩⟩
    · exact fun f member => ⟨(recorded.flights f member).1,(recorded.flights f member).2.extend extended⟩
    · exact fun x rest suffix operation id =>
        ⟨(recorded.history x rest suffix operation id).1,
          (recorded.history x rest suffix operation id).2.extend extended⟩
    · intro step
      rw [Saved]
      exact step ▸ List.mem_cons_self

end Checkpoint

section Activate

theorem sourceRely_sent (moduleId : String) (op : ParticipantOp) :
    SourceRely w (w.record (.sent .receiver moduleId op)) :=
  ⟨.refl _,List.suffix_rfl,id,List.suffix_cons _ _,fun ⟨moduleId',member⟩ => by
    rcases List.mem_cons.mp member with same | inside
    · cases same
    · exact ⟨moduleId',inside⟩⟩

/-- Participants are activated only after the boundary was saved. -/
theorem Inv.activates (inv : Inv cut w) (saved : Saved w) (moduleId : String) :
    Inv cut (w.record (.sent .receiver moduleId .activate)) := by
  have shared : Shared cut (w.record (.sent .receiver moduleId .activate)) := by
    refine inv.shared.sameRecords ?_ ?_ ?_
    · intro side x member
      rcases List.mem_cons.mp member with same | inside
      · cases same
      · exact inside
    · intro moduleId' rest suffix
      rcases List.suffix_cons_iff.mp suffix with same | inside
      · cases same
      · exact inside
    · exact fun _ _ => List.mem_cons_of_mem _ saved
  exact inv.beside shared (inv.source.stable (sourceRely_sent ..)) (receiverRely_sent ..) rfl rfl
    (fun _ => id)

end Activate

section Moves

/-- The receiver may send this write: an abort only while it is aborting, the
activation only past the boundary. -/
structure MayMove (w : World) (row : AgentMove) (request : CasRequest MoveRecord) : Prop where
  permitted : Permitted w.moves.writes .receiver request
  aborted : request.body.state = .aborted →
    (row.abortRequested.isSome = true ∧ row.step.beforeBoundary .receiver = true) ∨ row.step = .aborted
  activated : request.body.state = .activated → crossed row.step = true

theorem MayMove.plan {row : AgentMove} {request : CasRequest MoveRecord} (may : MayMove w row request)
    (shared : Shared cut w) : request.body.plan = w.source.plan := by
  rcases may.permitted with ⟨_,side,_⟩ | ⟨x,member,_,_,plan⟩
  · cases side
  · exact plan.trans (shared.planned x member)

/-- A receiver row keeps its promises when the record grows by a write of its own. -/
theorem ReceiverOk.grown {row : AgentMove} {request : CasRequest MoveRecord} (ok : ReceiverOk cut w row)
    (may : MayMove w row request) (shared : Shared cut w') (receiver : w'.receiver = w.receiver)
    (claims : w'.claims = w.claims) (flights : w'.claimFlights = w.claimFlights)
    (trace : w'.trace = w.trace) (moves : w.moves.writes <:+ w'.moves.writes)
    (attempted : ∀ state, Attempted cut w' state → Attempted cut w state ∨ request.body.state = state) :
    ReceiverOk cut w' row where
  machines := ok.machines
  published := writes_grow ok.published moves
  plan := by
    intro x member
    obtain ⟨y,present⟩ := List.exists_mem_of_ne_nil _ ok.published
    exact (shared.documented.same_plan member (moves.mem present)).trans (ok.plan y present)
  staged := fun past => (ok.staged past).grow moves
  claimed := fun past => ⟨(ok.claimed past).1.grow moves,(ok.claimed past).2⟩
  backing := by
    intro tried
    rcases attempted _ tried with before | now
    · exact ok.backing before
    · exact may.aborted now
  begun := by
    intro tried
    rcases attempted _ tried with before | now
    · exact ok.begun before
    · exact may.activated now
  saved := fun saved => ok.saved (by rw [Saved] at saved ⊢; rwa [trace] at saved)
  pending := fun moduleId waiting => by
    have saved := ok.pending moduleId waiting
    rw [Saved] at saved ⊢
    rwa [trace]
  stored := receiver ▸ ok.stored
  landed := by rw [claims]; exact ok.landed
  take := by
    intro take body
    refine ⟨(ok.take take body).holder,(ok.take take body).version,?_⟩
    exact (ok.take take body).prior.grow (claims ▸ List.suffix_rfl)
  ended := by
    intro step
    have settled := ok.ended step
    rw [Settled,claimHolder] at settled ⊢
    rwa [claims,flights]

theorem sourceRely_applied {request : CasRequest MoveRecord} {fresh : Nat}
    (some : w.moves.writes ≠ []) :
    SourceRely w { w with moves := applied w.moves (cut.machine .receiver) request fresh } :=
  ⟨.refl _,applied_grows ..,fun unpublished => absurd unpublished.1 some,List.suffix_rfl,id⟩

theorem sourceRely_fly {request : CasRequest MoveRecord} (some : w.moves.writes ≠ []) :
    SourceRely w { w with moveFlights := ⟨.receiver,request⟩ :: w.moveFlights } :=
  ⟨.refl _,List.suffix_rfl,fun unpublished => absurd unpublished.1 some,List.suffix_rfl,id⟩

theorem attempted_fly {request : CasRequest MoveRecord} {state : MoveRecordState}
    (attempted : Attempted cut { w with moveFlights := ⟨.receiver,request⟩ :: w.moveFlights } state) :
    Attempted cut w state ∨ request.body.state = state := by
  rcases attempted with ⟨f,member,side,same⟩ | written
  · rcases List.mem_cons.mp member with rfl | inside
    · exact .inr same
    · exact .inl (.inl ⟨f,inside,side,same⟩)
  · exact .inl (.inr written)

theorem Recorded.sameClaims {row : AgentMove} (recorded : Recorded cut w row)
    (claims : w'.claims = w.claims) (flights : w'.claimFlights = w.claimFlights)
    (trace : w'.trace = w.trace) : Recorded cut w' row :=
  recorded.fewer claims (by rw [flights]; exact fun _ => id) (trace ▸ List.suffix_rfl)

/-- The stored row allows the write when the driver's row does. -/
theorem Inv.receiverServe (inv : Inv cut w) {row : AgentMove} {request : CasRequest MoveRecord}
    {fresh : Nat} (stored : w.receiver = some row) (may : MayMove w row request) :
    Inv cut { w with moves := applied w.moves (cut.machine .receiver) request fresh } := by
  have ⟨ok,recorded⟩ := inv.receiver row stored
  have shared : Shared cut { w with moves := applied w.moves (cut.machine .receiver) request fresh } :=
    inv.shared.serveMove may.permitted (may.plan inv.shared)
  refine inv.opposite shared (sourceRely_applied ok.published) rfl ?_ (fun none => by simp [stored] at none)
  intro row' found
  have same : row' = row := by simpa [stored] using found.symm
  subst same
  refine ⟨ok.grown may shared rfl rfl rfl rfl (applied_grows ..) ?_,recorded.sameClaims rfl rfl rfl⟩
  exact fun state attempted => (attempted_applied attempted).imp id (·.2)

theorem Inv.receiverFly (inv : Inv cut w) {row : AgentMove} {request : CasRequest MoveRecord}
    (stored : w.receiver = some row) (may : MayMove w row request) :
    Inv cut { w with moveFlights := ⟨.receiver,request⟩ :: w.moveFlights } := by
  have ⟨ok,recorded⟩ := inv.receiver row stored
  have shared := inv.shared.flyMove may.permitted (may.plan inv.shared)
  refine inv.opposite shared (sourceRely_fly ok.published) rfl ?_ (fun none => by simp [stored] at none)
  intro row' found
  have same : row' = row := by simpa [stored] using found.symm
  subst same
  refine ⟨ok.grown may shared rfl rfl rfl rfl List.suffix_rfl ?_,recorded.sameClaims rfl rfl rfl⟩
  exact fun state => attempted_fly

end Moves

section Claims

/-- A write of the claim by this cut names another holder unless it is the take. -/
theorem Fits.holder {row : AgentMove} {request : CasRequest AgentClaim} (fits : Fits cut row request)
    (machines : row.plan.fromMachine = cut.fromMachine)
    (holder : request.body.holder = some cut.toMachine) : request.writeId = .claim cut.cutId .take := by
  rcases fits with ⟨id,_,_⟩ | ⟨_,_,take,_,same⟩
  · exact id
  · rw [same] at holder
    simp only [Receiver.returned,Option.some.injEq] at holder
    exact absurd (machines.symm.trans holder) cut.distinct

theorem Shared.applyClaim (shared : Shared cut w) {author : String} {request : CasRequest AgentClaim}
    {fresh : Nat}
    (holder : request.body.holder = some cut.toMachine → request.writeId = .claim cut.cutId .take) :
    Shared cut { w with claims := applied w.claims author request fresh } := by
  refine ⟨shared.documented,shared.flights,shared.seen,shared.released,shared.planned,shared.sent,?_,
    shared.activated⟩
  intro x current held
  rcases applied_cases w.claims author request fresh with same | ⟨_,_,pushed⟩
  · exact shared.holder x (by simpa [same] using current) held
  · simp only [Register.current,pushed,List.head?_cons,Option.some.injEq] at current
    subst current
    exact holder held

theorem Recorded.applyClaim {row : AgentMove} (recorded : Recorded cut w row) {author : String}
    {request : CasRequest AgentClaim} {fresh : Nat}
    (fits : ∀ operation, request.writeId = .claim cut.cutId operation →
      author = cut.toMachine ∧ Fits cut row request) :
    Recorded cut { w with claims := applied w.claims author request fresh } row where
  flights := recorded.flights
  history := by
    intro x rest suffix operation id
    rcases applied_cases w.claims author request fresh with same | ⟨expected,_,pushed⟩
    · rw [same] at suffix
      exact recorded.history x rest suffix operation id
    · rw [pushed] at suffix
      rcases List.suffix_cons_iff.mp suffix with same | inside
      · cases same
        refine ⟨(fits operation id).1,?_⟩
        have version : versionOf w.claims.writes = request.expected := expected.symm
        rw [version]
        exact (fits operation id).2
      · exact recorded.history x rest inside operation id
  activating := recorded.activating

/-- A receiver row keeps its promises when the claim record grows. -/
theorem ReceiverOk.claims {row : AgentMove} (ok : ReceiverOk cut w row) (running : row.step ≠ .aborted)
    {author : String} {request : CasRequest AgentClaim} {fresh : Nat} :
    ReceiverOk cut { w with claims := applied w.claims author request fresh } row where
  machines := ok.machines
  published := ok.published
  plan := ok.plan
  staged := ok.staged
  claimed := ok.claimed
  backing := ok.backing
  begun := ok.begun
  saved := ok.saved
  pending := ok.pending
  stored := ok.stored
  landed := by
    intro version landed
    obtain ⟨body,x,member,rest⟩ := ok.landed version landed
    exact ⟨body,x,(applied_grows ..).mem member,rest⟩
  take := fun take body => ⟨(ok.take take body).holder,(ok.take take body).version,
    (ok.take take body).prior.grow (applied_grows ..)⟩
  ended := fun step => absurd step running

theorem ReceiverOk.claimFlight {row : AgentMove} (ok : ReceiverOk cut w row) (running : row.step ≠ .aborted)
    {f : Flight AgentClaim} :
    ReceiverOk cut { w with claimFlights := f :: w.claimFlights } row :=
  ⟨ok.machines,ok.published,ok.plan,ok.staged,ok.claimed,ok.backing,ok.begun,ok.saved,ok.pending,
    ok.stored,ok.landed,fun take body => ⟨(ok.take take body).holder,(ok.take take body).version,
      (ok.take take body).prior⟩,fun step => absurd step running⟩

theorem sourceRely_claims (claims : Register WriteId String AgentClaim) (flights : List (Flight AgentClaim)) :
    SourceRely w { w with claims := claims, claimFlights := flights } :=
  ⟨.refl _,List.suffix_rfl,id,List.suffix_rfl,id⟩

theorem Inv.serveClaim (inv : Inv cut w) {row : AgentMove} {request : CasRequest AgentClaim}
    {fresh : Nat} (stored : w.receiver = some row) (running : row.step ≠ .aborted)
    (fits : Fits cut row request) :
    Inv cut { w with claims := applied w.claims (cut.machine .receiver) request fresh } := by
  have ⟨ok,recorded⟩ := inv.receiver row stored
  refine inv.opposite (inv.shared.applyClaim (fits.holder ok.machines.1)) (sourceRely_claims _ _) rfl ?_
    (fun none => by simp [stored] at none)
  intro row' found
  have same : row' = row := by simpa [stored] using found.symm
  subst same
  exact ⟨ok.claims running,recorded.applyClaim fun _ _ => ⟨rfl,fits⟩⟩

theorem Inv.flyClaim (inv : Inv cut w) {row : AgentMove} {request : CasRequest AgentClaim}
    (stored : w.receiver = some row) (running : row.step ≠ .aborted) (fits : Fits cut row request) :
    Inv cut { w with claimFlights := ⟨.receiver,request⟩ :: w.claimFlights } := by
  have ⟨ok,recorded⟩ := inv.receiver row stored
  have shared : Shared cut { w with claimFlights := ⟨.receiver,request⟩ :: w.claimFlights } :=
    ⟨inv.shared.documented,inv.shared.flights,inv.shared.seen,inv.shared.released,inv.shared.planned,
      inv.shared.sent,inv.shared.holder,inv.shared.activated⟩
  refine inv.opposite shared (sourceRely_claims _ _) rfl ?_ (fun none => by simp [stored] at none)
  intro row' found
  have same : row' = row := by simpa [stored] using found.symm
  subst same
  refine ⟨ok.claimFlight running,⟨?_,recorded.history,recorded.activating⟩⟩
  intro f member
  rcases List.mem_cons.mp member with rfl | inside
  · exact ⟨rfl,fits⟩
  · exact recorded.flights f inside

end Claims

section Pickup

/-- A row from the inbox starts with nothing of the receiver in the world. -/
theorem Inv.admits (inv : Inv cut w) {next : AgentMove} {x : MoveWrite} (absent : w.receiver = none)
    (member : x ∈ w.moves.writes) (plan : next.plan = x.body.plan)
    (step : next.step = .pickedUp ∨ next.step = .aborted) (take : next.claimTakeBody = none)
    (landed : next.claimLandedVersion = none) (pending : next.receiver.pending = none) :
    Inv cut { w with receiver := some next } := by
  have untouched := inv.untouched absent
  have shared : Shared cut { w with receiver := some next } :=
    inv.shared.sameRecords (fun _ _ => id) (fun _ _ => id) fun moduleId sent =>
      inv.shared.activated ⟨moduleId,sent⟩
  have early : pastStaged next.step = false ∧ pastClaimed next.step = false ∧ next.step ≠ .activating := by
    rcases step with same | same <;> rw [same] <;> decide
  have same : next.plan = w.source.plan := plan.trans (inv.shared.planned x member)
  refine inv.opposite shared ⟨.refl _,List.suffix_rfl,id,List.suffix_rfl,id⟩ rfl ?_ (fun none => by cases none)
  rintro row ⟨⟩
  refine ⟨?_,?_⟩
  · exact {
      machines := same ▸ inv.source.machines
      published := fun empty => by rw [empty] at member; cases member
      plan := fun y present => (inv.shared.planned y present).trans same.symm
      staged := fun past => by rw [early.1] at past; cases past
      claimed := fun past => by rw [early.2.1] at past; cases past
      backing := fun attempted => absurd attempted (untouched.attempted _)
      begun := fun attempted => absurd attempted (untouched.attempted _)
      saved := fun saved => absurd saved untouched.saved
      pending := fun moduleId waiting => by rw [pending] at waiting; cases waiting
      stored := ⟨next,rfl,.refl next⟩
      landed := fun version found => by rw [landed] at found; cases found
      take := fun body found => by rw [take] at found; cases found
      ended := by
        intro _
        refine ⟨untouched.claimFlights,fun held => ?_⟩
        obtain ⟨y,current,holder⟩ := Option.bind_eq_some_iff.mp held
        exact untouched.claims y (Register.current_mem current) .take (inv.shared.holder y current holder) }
  · refine ⟨?_,?_,fun active => absurd active early.2.2⟩
    · intro f inside
      have := untouched.claimFlights
      simp only at inside
      rw [this] at inside
      cases inside
    · intro y rest suffix operation id
      exact absurd id (untouched.claims y (suffix.mem List.mem_cons_self) operation)

end Pickup

def rely (cut : Cut) : Party → World → World → Prop
  | .source => SourceRely
  | .receiver => ReceiverRely cut
  | .inbox => InboxRely

theorem rely_refl (p : Party) (w : World) : rely cut p w w := by
  cases p with
  | source => exact .refl w
  | receiver => exact .refl cut w
  | inbox => exact List.suffix_rfl

theorem rely_trans (p : Party) {a b c : World} (first : rely cut p a b) (second : rely cut p b c) :
    rely cut p a c := by
  cases p with
  | source => exact SourceRely.trans first second
  | receiver => exact ReceiverRely.trans first second
  | inbox => exact List.IsSuffix.trans first second

theorem Calm.rely (calm : Calm w w') (p : Party) : rely cut p w w' := by
  cases p with
  | source => exact calm.sourceRely
  | receiver => exact calm.receiverRely
  | inbox => exact calm.inboxRely

section Outside

theorem calm_flights {moveFlights : List (Flight MoveRecord)} {claimFlights : List (Flight AgentClaim)}
    (moves : ∀ f ∈ moveFlights, f ∈ w.moveFlights) (claims : ∀ f ∈ claimFlights, f ∈ w.claimFlights) :
    Calm w { w with moveFlights := moveFlights, claimFlights := claimFlights } :=
  ⟨moveFlights,claimFlights,w.trace,rfl,moves,claims,.inl rfl⟩

/-- Where a write of the source is under way, the stored row may write. -/
theorem Inv.mayWrite (inv : Inv cut w) {f : Flight MoveRecord} (member : f ∈ w.moveFlights)
    (side : f.side = .source) : MayWrite w w.source := by
  have published : ¬ Unpublished w := fun unpublished => unpublished.2 f member side
  refine ⟨rfl,fun early => published (inv.source.early early),fun step => ?_,fun unfroze => ?_⟩
  · exact (inv.source.aborted step).resolve_right published
  · exact (inv.source.undone unfroze).resolve_right fun rest => published rest.1

theorem Inv.stored (inv : Inv cut w) {f : Flight MoveRecord} (member : f ∈ w.moveFlights)
    (side : f.side = .receiver) : ∃ row, w.receiver = some row := by
  cases found : w.receiver with
  | some row => exact ⟨row,rfl⟩
  | none => exact absurd (.inl ⟨f,member,side,rfl⟩) ((inv.untouched found).attempted f.request.body.state)

theorem Inv.mayMove (inv : Inv cut w) {f : Flight MoveRecord} {row : AgentMove}
    (member : f ∈ w.moveFlights) (side : f.side = .receiver) (stored : w.receiver = some row) :
    MayMove w row f.request := by
  have ⟨ok,_⟩ := inv.receiver row stored
  refine ⟨side ▸ inv.shared.flights f member,fun state => ok.backing (.inl ⟨f,member,side,state⟩),
    fun state => ok.begun (.inl ⟨f,member,side,state⟩)⟩

theorem Inv.moveLands (inv : Inv cut w) {f : Flight MoveRecord} (fresh : Nat)
    (member : f ∈ w.moveFlights) :
    Inv cut { w with moves := applied w.moves (cut.machine f.side) f.request fresh } ∧
    ∀ p, rely cut p w { w with moves := applied w.moves (cut.machine f.side) f.request fresh } := by
  cases side : f.side with
  | source =>
    have permitted := inv.shared.flights f member
    rw [side] at permitted
    have may := inv.mayWrite member side
    refine ⟨inv.sourceServe permitted (inv.shared.sent f member side) may,fun p => ?_⟩
    cases p with
    | source => exact ⟨.refl _,applied_grows ..,fun unpublished => absurd side (unpublished.2 f member),
        List.suffix_rfl,id⟩
    | receiver => exact receiverRely_applied
    | inbox => exact applied_grows ..
  | receiver =>
    obtain ⟨row,stored⟩ := inv.stored member side
    have ⟨ok,_⟩ := inv.receiver row stored
    refine ⟨inv.receiverServe stored (inv.mayMove member side stored),fun p => ?_⟩
    cases p with
    | source => exact sourceRely_applied ok.published
    | receiver =>
      refine ⟨fun row found => ⟨row,found,.refl _⟩,applied_grows ..,List.suffix_rfl,?_,id,List.suffix_rfl,id⟩
      intro state attempted
      rcases attempted_applied attempted with before | ⟨_,now⟩
      · exact before
      · exact .inl ⟨f,member,side,now⟩
    | inbox => exact applied_grows ..

theorem Inv.claimLands (inv : Inv cut w) {f : Flight AgentClaim} (fresh : Nat)
    (member : f ∈ w.claimFlights) :
    Inv cut { w with claims := applied w.claims (cut.machine f.side) f.request fresh } ∧
    ∀ p, rely cut p w { w with claims := applied w.claims (cut.machine f.side) f.request fresh } := by
  obtain absent | ⟨row,found⟩ := Option.eq_none_or_eq_some w.receiver
  · rw [(inv.untouched absent).claimFlights] at member; cases member
  · have ⟨ok,recorded⟩ := inv.receiver row found
    have ⟨side,fits⟩ := recorded.flights f member
    have busy : ¬ Settled cut w := fun settled => by rw [settled.1] at member; cases member
    have running : row.step ≠ .aborted := fun step => busy (ok.ended step)
    rw [side]
    refine ⟨inv.serveClaim found running fits,fun p => ?_⟩
    cases p with
    | source => exact sourceRely_claims _ _
    | receiver => exact ⟨fun row found => ⟨row,found,.refl _⟩,List.suffix_rfl,applied_grows ..,fun _ => id,
        fun settled => absurd settled busy,List.suffix_rfl,id⟩
    | inbox => exact List.suffix_rfl

theorem Inv.claimWritten (inv : Inv cut w) {author : String} {body : AgentClaim} {other fresh : Nat}
    (holder : body.holder ≠ some cut.toMachine) :
    let w' : World :=
      { w with claims := applied w.claims author ⟨w.claims.version,body,.other other⟩ fresh }
    Inv cut w' ∧ ∀ p, rely cut p w w' := by
  intro w'
  have relied : ReceiverRely cut w w' := by
    refine ⟨fun row found => ⟨row,found,.refl _⟩,List.suffix_rfl,applied_grows ..,fun _ => id,?_,
      List.suffix_rfl,fun saved => saved⟩
    rintro ⟨none,free⟩
    refine ⟨none,fun held => ?_⟩
    obtain ⟨x,current,same⟩ := Option.bind_eq_some_iff.mp held
    rcases applied_cases w.claims author ⟨w.claims.version,body,.other other⟩ fresh with still | ⟨_,_,pushed⟩
    · exact free (Option.bind_eq_some_iff.mpr ⟨x,by rw [← still]; exact current,same⟩)
    · have head : w'.claims.writes.head? = some x := current
      rw [pushed] at head
      cases head
      exact holder same
  have shared : Shared cut w' := inv.shared.applyClaim fun held => absurd held holder
  refine ⟨inv.opposite shared (sourceRely_claims _ _) rfl ?_ ?_,fun p => ?_⟩
  · intro row found
    have ⟨ok,recorded⟩ := inv.receiver row found
    exact ⟨ok.stable relied shared,recorded.applyClaim fun operation same => by cases same⟩
  · intro none
    have untouched := inv.untouched none
    refine ⟨untouched.attempted,untouched.claimFlights,?_,untouched.saved⟩
    intro x member operation
    rcases applied_mem member with inside | ⟨rfl,_⟩
    · exact untouched.claims x inside operation
    · exact fun same => by cases same
  · cases p with
    | source => exact sourceRely_claims _ _
    | receiver => exact relied
    | inbox => exact List.suffix_rfl

theorem Inv.markSource (inv : Inv cut w) {row : AgentMove} (marked : Marked w.source row) :
    Inv cut { w with source := row } ∧ ∀ p, rely cut p w { w with source := row } := by
  refine ⟨inv.setSource (inv.source.marked marked),fun p => ?_⟩
  cases p with
  | source => exact ⟨marked,List.suffix_rfl,id,List.suffix_rfl,id⟩
  | receiver => exact receiverRely_source row
  | inbox => exact List.suffix_rfl

theorem Inv.markReceiver (inv : Inv cut w) {stored row : AgentMove} (found : w.receiver = some stored)
    (marked : Marked stored row) :
    Inv cut { w with receiver := some row } ∧ ∀ p, rely cut p w { w with receiver := some row } := by
  have ⟨ok,recorded⟩ := inv.receiver stored found
  have relied : ReceiverRely cut w { w with receiver := some row } := by
    refine ⟨?_,List.suffix_rfl,List.suffix_rfl,fun _ => id,id,List.suffix_rfl,fun saved => saved⟩
    intro r same
    have equal : stored = r := by simpa [found] using same
    exact ⟨row,rfl,equal ▸ marked⟩
  have source : SourceRely w { w with receiver := some row } :=
    ⟨.refl _,List.suffix_rfl,id,List.suffix_rfl,id⟩
  have shared : Shared cut { w with receiver := some row } :=
    inv.shared.sameRecords (fun _ _ => id) (fun _ _ => id) fun moduleId sent =>
      inv.shared.activated ⟨moduleId,sent⟩
  refine ⟨inv.opposite shared source rfl ?_ (fun none => by cases none),fun p => ?_⟩
  · rintro r ⟨⟩
    refine ⟨(ok.stable relied shared).marked marked,?_⟩
    have extended : Extends stored row := by
      rcases marked with rfl | ⟨_,rfl⟩ <;> exact ⟨rfl,.inr ⟨rfl,rfl⟩,.inr rfl⟩
    have step : row.step = stored.step := by rcases marked with rfl | ⟨_,rfl⟩ <;> rfl
    have kept : Recorded cut { w with receiver := some row } stored :=
      recorded.sameClaims rfl rfl rfl
    exact kept.extend extended fun active => recorded.activating (step ▸ active)
  · cases p with
    | source => exact source
    | receiver => exact relied
    | inbox => exact List.suffix_rfl

theorem Inv.outside (inv : Inv cut w) {event : Outside} (happened : outside cut w event = some w') :
    Inv cut w' ∧ ∀ p, rely cut p w w' := by
  cases event with
  | moveLands index fresh =>
    obtain ⟨f,found,rfl⟩ := Option.map_eq_some_iff.mp happened
    have member := List.mem_of_getElem? found
    have ⟨landed,relied⟩ := inv.moveLands fresh member
    have calm : Calm { w with moves := applied w.moves (cut.machine f.side) f.request fresh }
        { w with
          moves := applied w.moves (cut.machine f.side) f.request fresh
          moveFlights := w.moveFlights.eraseIdx index } :=
      calm_flights (fun f member => List.mem_of_mem_eraseIdx member) (fun _ => id)
    exact ⟨landed.calm calm,fun p => rely_trans p (relied p) (calm.rely p)⟩
  | claimLands index fresh =>
    obtain ⟨f,found,rfl⟩ := Option.map_eq_some_iff.mp happened
    have member := List.mem_of_getElem? found
    have ⟨landed,relied⟩ := inv.claimLands fresh member
    have calm : Calm { w with claims := applied w.claims (cut.machine f.side) f.request fresh }
        { w with
          claims := applied w.claims (cut.machine f.side) f.request fresh
          claimFlights := w.claimFlights.eraseIdx index } :=
      calm_flights (fun _ => id) (fun f member => List.mem_of_mem_eraseIdx member)
    exact ⟨landed.calm calm,fun p => rely_trans p (relied p) (calm.rely p)⟩
  | claimWritten author body other fresh =>
    simp only [Move.outside] at happened
    split at happened
    next others =>
      cases happened
      exact inv.claimWritten others.2
    next => cases happened
  | abortRequested side =>
    obtain ⟨row,found,rfl⟩ := Option.map_eq_some_iff.mp happened
    cases requested : requestAgentMoveAbort row with
    | error code => exact ⟨inv,fun p => rely_refl p w⟩
    | ok row' =>
      have marked : Marked row row' := (requestAgentMoveAbort_ok requested).imp id (·.2)
      cases side with
      | source => cases found; exact inv.markSource marked
      | receiver => exact inv.markReceiver found marked

end Outside

section Parties

/-- One iteration of a driver's loop: a pending operator retry is consumed, then
a pass runs on the stored row. -/
def drive {φ : Type} (tick : Driver φ Unit) (kept : Memory) : Program Effect Effect.Answer Memory :=
  .perform .consumeRetry fun retry =>
    let memory : Memory := match retry with
      | .ok true => { kept with abortHeld := false }
      | _ => kept
    .perform .row fun
      | .ok (some row) => (tick ⟨row,memory⟩).bind fun r => .done r.2.memory
      | _ => .done memory

/-- One poll of the receiver's inbox that meets this cut, or does not. -/
def poll (cut : Cut) (kept : Memory) : Program Effect Effect.Answer Memory :=
  .perform (.ask .inboxEntry) fun (entry : Option PendingMove) => match entry with
    | none => .done kept
    | some entry => (Receiver.pollEntry cut entry ⟨default,kept⟩).bind fun _ => .done kept

def pass (cut : Cut) : Party → Memory → Program Effect Effect.Answer Memory
  | .source => drive (Source.tick cut)
  | .receiver => drive (Receiver.tick cut)
  | .inbox => poll cut

def parties (cut : Cut) : Parties Party World Effect Effect.Answer Choice Memory Outside where
  act := act cut
  start := ⟨false,false⟩
  tick := pass cut
  outside := outside cut

def pact (cut : Cut) : (parties cut).Pact where
  inv := Inv cut
  rely := rely cut
  refl := rely_refl
  trans := rely_trans

end Parties

section Drivers

variable {φ α : Type} {D : Discipline World Effect Effect.Answer Choice}
variable {later : Local → World → Local → World → Prop} {P : Local → World → Prop}
variable {Q : α → Local → World → Prop} {E : φ → Local → World → Prop}

theorem framed_row {f : AgentMove → Driver φ α}
    (rest : ∀ current, Framed D later (fun l w => P l w ∧ l.row = current) (f current) Q E) :
    Framed D later P (row >>= f) Q E := by
  refine Framed.bind (Q := fun current l w => P l w ∧ l.row = current) (Framed.look fun l₀ => ?_) rest
  exact Framed.pure fun l w holds => ⟨holds.1,congrArg Local.row holds.2⟩

theorem framed_memory {f : Memory → Driver φ α} (rest : ∀ kept, Framed D later P (f kept) Q E) :
    Framed D later P (memory >>= f) Q E := by
  refine Framed.bind (Q := fun _ => P) (Framed.look fun l₀ => ?_) rest
  exact Framed.pure fun l w holds => holds.1

/-- An assertion that what the other parties do leaves. -/
def Stable (cut : Cut) (p : Party) (P : Local → World → Prop) : Prop :=
  ∀ l w w', P l w → rely cut p w w' → Inv cut w' → P l w'

/-- An action of a party, after what the others did meanwhile. -/
theorem framed_act {p : Party} {e : Effect} {P : Local → World → Prop} {Q : e.Answer → Local → World → Prop}
    (waits : ∀ l w w', rely cut p w w' → later l w l w') (stable : Stable cut p P)
    (acts : ∀ l w choice answer w', P l w → Inv cut w → act cut p w e choice = some (answer,w') →
      Inv cut w' ∧ (∀ q, q ≠ p → rely cut q w w') ∧ Q answer l w' ∧ later l w l w') :
    Framed ((pact cut).discipline p) later P (Task.effect e : Driver φ e.Answer) Q E :=
  Framed.effect (fun l w w' holds relied inv => ⟨stable l w w' holds relied inv,waits l w w' relied⟩)
    fun l w holds inv choice answer w' taken => acts l w choice answer w' holds inv taken

/-- An action that changes nothing anyone relies on. -/
theorem framed_calm {p : Party} {e : Effect} {P : Local → World → Prop} {S : e.Answer → World → Prop}
    (waits : ∀ l w w', rely cut p w w' → later l w l w') (stable : Stable cut p P)
    (calm : ∀ w choice answer w', Inv cut w → act cut p w e choice = some (answer,w') →
      Calm w w' ∧ S answer w') :
    Framed ((pact cut).discipline p) later P (Task.effect e : Driver φ e.Answer)
      (fun answer l w => P l w ∧ S answer w) E := by
  refine framed_act waits stable ?_
  intro l w choice answer w' holds inv taken
  have ⟨quiet,shown⟩ := calm w choice answer w' inv taken
  have inv' := inv.calm quiet
  exact ⟨inv',fun q _ => quiet.rely q,⟨stable l w w' holds (quiet.rely p) inv',shown⟩,
    waits l w w' (quiet.rely p)⟩

theorem framed_ask {p : Party} {P : Local → World → Prop}
    (waits : ∀ l w w', rely cut p w w' → later l w l w') (stable : Stable cut p P) (question : Question) :
    Framed ((pact cut).discipline p) later P (ask question : Driver φ question.Reply) (fun _ => P) E := by
  refine (framed_calm (e := .ask question) (S := fun _ _ => True) waits stable ?_).consequence
    (fun _ _ => id) (fun _ _ _ => And.left) fun _ _ _ => id
  intro w choice answer w' _ taken
  cases act_ask taken
  exact ⟨⟨_,_,_,rfl,fun _ => id,fun _ => id,.inl rfl⟩,trivial⟩

/-- A write and its resend leave what one send leaves. -/
theorem framed_cas {β : Type} {send : CasRequest β → Driver φ (Except RecordClient.RecordError Nat)}
    {request : CasRequest β} {S : Except RecordClient.RecordError Nat → Local → World → Prop}
    (sent : Framed D later P (send request) (fun answer l w => P l w ∧ S answer l w) E) :
    Framed D later P (cas send request) (fun answer l w => P l w ∧ S answer l w) E := by
  refine Framed.bind sent fun answer => ?_
  split
  next => exact sent.consequence (fun _ _ => And.left) (fun _ _ _ => id) fun _ _ _ => id
  next => exact Framed.pure fun _ _ => id

/-- The settlement of a write rests on its answer, or on the read behind it. -/
theorem framed_casSettled {β γ : Type} [DecidableEq γ]
    {send : CasRequest β → Driver φ (Except RecordClient.RecordError Nat)}
    {read : Driver φ (Except RecordClient.RecordError (RecordClient.RecordReply β))}
    {author : String} {decode : β → Except String γ} {request : CasRequest β}
    {S : Except RecordClient.RecordError Nat → Local → World → Prop}
    {T : Except RecordClient.RecordError (RecordClient.RecordReply β) → Local → World → Prop}
    {R : Except RecordClient.RecordError (RecordClient.CasSettlement β) → Local → World → Prop}
    (sent : Framed D later P (send request) (fun answer l w => P l w ∧ S answer l w) E)
    (shown : Framed D later P read (fun reply l w => P l w ∧ T reply l w) E)
    (byAnswer : ∀ answer l w, P l w → S answer l w → RecordClient.unsettled answer = false →
      R (RecordClient.casSettled answer (.error .noReply) author request.body decode) l w)
    (byRead : ∀ answer reply l w, P l w → T reply l w → RecordClient.unsettled answer = true →
      R (RecordClient.casSettled answer reply author request.body decode) l w) :
    Framed D later P (casSettled send read author decode request) R E := by
  refine Framed.bind (framed_cas sent) fun answer => ?_
  split
  next unsettled =>
    refine Framed.bind (shown.consequence (fun _ _ => And.left) (fun _ _ _ => id) fun _ _ _ => id) fun reply => ?_
    exact Framed.pure fun l w holds => byRead answer reply l w holds.1 holds.2 unsettled
  next settled =>
    exact Framed.pure fun l w holds => byAnswer answer l w holds.1 holds.2 (by simpa using settled)

end Drivers
end Entorhinal.Move
