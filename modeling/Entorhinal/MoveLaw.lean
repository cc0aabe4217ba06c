import Entorhinal.MoveInbox
import Entorhinal.MoveReceiverSafe
import Entorhinal.MoveSourceSafe

/-! What a cut promises in every run of its two drivers and its inbox: the agent
is live on one machine, and its claim moves at most once and comes back. -/
namespace Entorhinal.Move

section Laws

variable {cut : Cut} {w w' : World}

/-- The row that the source's admission inserts. -/
def admitAgentMove (cut : Cut) (participants : List MoveParticipant) (claimVersion : Nat)
    (pinDigest : Option String) : AgentMove where
  cutId := cut.cutId
  agentId := cut.agentId
  side := .source
  step := .preparing
  plan := ⟨cut.agentId,cut.fromMachine,cut.toMachine,claimVersion,participants,pinDigest⟩
  source := .default
  receiver := .default
  cutRelease := none
  recordVersion := 0
  claimTakeBody := none
  claimTakeVersion := none
  claimLandedVersion := none
  sealSent := false
  abortRequested := none
  hold := none
  cutAccept := none
  reason := none
  detail := none
  attempts := 0
  activatedAtMs := none

/-- A new cut: its id is on no record yet, and the claim that admission read does
not name the receiver. -/
structure Begun (cut : Cut) (w : World) : Prop where
  source : ∃ participants claimVersion pinDigest,
    w.source = admitAgentMove cut participants claimVersion pinDigest
  receiver : w.receiver = none
  moves : w.moves.writes = []
  moveFlights : w.moveFlights = []
  claims : ∀ x ∈ w.claims.writes, ∀ operation, x.writeId ≠ .claim cut.cutId operation
  claimFlights : w.claimFlights = []
  holder : claimHolder w ≠ some cut.toMachine
  trace : w.trace = []

theorem Begun.inv (begun : Begun cut w) : Inv cut w := by
  obtain ⟨participants,claimVersion,pinDigest,row⟩ := begun.source
  have silent : ∀ e, e ∉ w.trace := fun e member => by rw [begun.trace] at member; cases member
  have unpublished : Unpublished w :=
    ⟨begun.moves,fun f member => by rw [begun.moveFlights] at member; cases member⟩
  have step : w.source.step = .preparing := by rw [row]; rfl
  refine ⟨⟨?_,?_,?_,?_,?_,?_,?_,?_⟩,⟨?_,?_,?_,?_,?_,?_,?_,?_⟩,?_,?_⟩
  · rw [begun.moves]; trivial
  · exact fun f member => by rw [begun.moveFlights] at member; cases member
  · exact fun side x member => absurd member (silent _)
  · exact fun moduleId rest suffix => absurd (suffix.mem List.mem_cons_self) (silent _)
  · exact fun x member => by rw [begun.moves] at member; cases member
  · exact fun f member => by rw [begun.moveFlights] at member; cases member
  · exact fun x current held => absurd (Option.bind_eq_some_iff.mpr ⟨x,current,held⟩) begun.holder
  · exact fun ⟨moduleId,member⟩ => absurd member (silent _)
  · rw [step]; rfl
  · rw [row]; exact ⟨rfl,rfl⟩
  · rw [step]; simp
  · exact fun _ => unpublished
  · rw [step]; simp
  · exact .inl unpublished
  · rw [step]; simp
  · exact fun ⟨moduleId,member⟩ => absurd member (silent _)
  · exact fun r found => by rw [begun.receiver] at found; cases found
  · refine fun _ => ⟨?_,begun.claimFlights,begun.claims,silent _⟩
    rintro state (⟨f,member,_⟩ | ⟨x,member,_⟩)
    · rw [begun.moveFlights] at member; cases member
    · rw [begun.moves] at member; cases member

/-- The passes of a cut's parties keep the invariant in every interleaving. -/
theorem inv_run {c : Parties.Config Party World Effect Effect.Answer Memory} (begun : Begun cut w)
    (reached : Transition.Reach (parties cut).next Transition.Free ((parties cut).initial w) c) :
    Inv cut c.world := by
  refine Parties.Pact.run (A := pact cut) ?_ (fun s event s' inv happened => inv.outside happened) begun.inv
    reached
  intro p kept s _
  cases p with
  | source => exact Source.pass_safe kept
  | receiver => exact Receiver.pass_safe kept
  | inbox => exact Receiver.poll_safe kept

section OneMachine

theorem Saved.row (inv : Inv cut w) (saved : Saved w) :
    ∃ row, w.receiver = some row ∧ ReceiverOk cut w row ∧ crossed row.step = true := by
  obtain absent | ⟨row,found⟩ := Option.eq_none_or_eq_some w.receiver
  · exact absurd saved (inv.untouched absent).saved
  · have ok := (inv.receiver row found).1
    exact ⟨row,found,ok,ok.saved saved⟩

/-- Past the boundary the record is not aborted. -/
theorem Saved.not_aborted (inv : Inv cut w) (saved : Saved w) : ¬ Has w .aborted := by
  rintro ⟨x,member,state⟩
  obtain ⟨row,_,ok,past⟩ := saved.row inv
  have pastRow : pastStaged row.step = true ∧ row.step.beforeBoundary .receiver = false ∧ row.step ≠ .aborted := by
    cases step : row.step <;> simp_all [crossed,pastStaged,MoveStep.beforeBoundary]
  have author := inv.shared.documented.aborted_author (ok.staged pastRow.1) member state
  rcases ok.backing (.inr ⟨x,member,author,state⟩) with ⟨_,before⟩ | ended
  · rw [pastRow.2.1] at before; cases before
  · exact pastRow.2.2 ended

theorem Saved.published (inv : Inv cut w) (saved : Saved w) : ¬ Unpublished w := by
  obtain ⟨row,_,ok,_⟩ := saved.row inv
  exact fun unpublished => ok.published unpublished.1

/-- The agent is not live on both machines. -/
theorem one_machine (inv : Inv cut w) : ¬ (Unfroze w ∧ Activated w) := by
  rintro ⟨unfroze,activated⟩
  have saved := inv.shared.activated activated
  rcases inv.source.undone unfroze with aborted | ⟨unpublished,_⟩
  · exact saved.not_aborted inv aborted
  · exact saved.published inv unpublished

/-- Neither side ends aborted past the boundary. -/
theorem Saved.not_ended (inv : Inv cut w) (saved : Saved w) :
    w.source.step ≠ .aborted ∧ ∀ row, w.receiver = some row → row.step ≠ .aborted := by
  refine ⟨fun step => ?_,fun row found step => ?_⟩
  · rcases inv.source.aborted step with aborted | unpublished
    · exact saved.not_aborted inv aborted
    · exact saved.published inv unpublished
  · have past := (inv.receiver row found).1.saved saved
    rw [step] at past
    cases past

theorem published_write {writes : List MoveWrite} (holds : Documented cut writes) (some : writes ≠ []) :
    ∃ y ∈ writes, y.body.state = .published := by
  induction writes with
  | nil => exact absurd rfl some
  | cons x rest ih =>
    obtain ⟨⟨side,permitted,_⟩,_,older⟩ := holds
    cases rest with
    | nil =>
      refine ⟨x,List.mem_cons_self,?_⟩
      simp only [stateOf,List.head?_nil,Option.map_none] at permitted
      cases state : x.body.state <;> cases side <;> simp [state,allowed] at permitted ⊢
    | cons z tail =>
      obtain ⟨y,member,state⟩ := ih older (by simp)
      exact ⟨y,List.mem_cons_of_mem _ member,state⟩

/-- A record that the source released for: read before, the receiver's, and of
the published plan. -/
structure Earned (cut : Cut) (w : World) (before : List Event) (x : MoveWrite) : Prop where
  read : .observed .source x ∈ before
  written : x ∈ w.moves.writes
  activated : x.body.state = .activated
  author : x.author = cut.toMachine
  plan : ∃ y ∈ w.moves.writes, y.body.state = .published ∧ y.body.plan = x.body.plan

theorem released_earned (inv : Inv cut w) {moduleId : String} {before : List Event}
    (released : (.sent .source moduleId .release :: before) <:+ w.trace) :
    ∃ x, Earned cut w before x := by
  obtain ⟨x,event,state⟩ := inv.shared.released moduleId before released
  have member : x ∈ w.moves.writes :=
    inv.shared.seen .source x (released.mem (List.mem_cons_of_mem _ event))
  refine ⟨x,event,member,state,?_,?_⟩
  · obtain ⟨_,side,permitted,author⟩ := inv.shared.documented.author member
    rw [state] at permitted
    rcases allowed_writer permitted with writer | ⟨writer,_⟩ | ⟨_,rfl⟩
    · cases writer
    · cases writer
    · exact author
  · obtain ⟨y,present,published⟩ := published_write inv.shared.documented (List.ne_nil_of_mem member)
    exact ⟨y,present,published,inv.shared.documented.same_plan present member⟩

theorem act_trace {p : Party} {e : Effect} {choice : Choice} {answer : e.Answer}
    (taken : act cut p w e choice = some (answer,w')) : w.trace <:+ w'.trace := by
  have saved : ∀ (row : AgentMove), (w.withRow p.side row).trace = w.trace := fun row => by
    cases p <;> rfl
  cases e with
  | row => obtain ⟨rfl,_⟩ := act_row taken; exact List.suffix_rfl
  | consumeRetry =>
    rcases act_consumeRetry taken with rfl | ⟨row,_,rfl⟩
    · exact List.suffix_rfl
    · exact (saved _).symm ▸ List.suffix_rfl
  | checkpoint row clear =>
    rcases act_checkpoint taken with ⟨rfl,_⟩ | ⟨_,_,_,rfl⟩
    · exact List.suffix_rfl
    · rw [← saved]; exact List.suffix_cons _ _
  | activation row =>
    rcases act_activation taken with ⟨rfl,_⟩ | ⟨_,_,_,_,_,_,rfl⟩
    · exact List.suffix_rfl
    · rw [← saved]; exact List.suffix_cons _ _
  | admission row =>
    rcases act_admission taken with rfl | ⟨_,_,_,rfl⟩
    · exact List.suffix_rfl
    · exact List.suffix_rfl
  | readMove => exact (act_readMove taken).1.sourceRely.trace
  | readClaim => exact (act_readClaim taken).1.sourceRely.trace
  | casMove request => rcases act_casMove taken with ⟨_,_,_,rfl⟩ | ⟨_,rfl⟩ <;> exact List.suffix_rfl
  | casClaim request => rcases act_casClaim taken with ⟨_,_,_,rfl⟩ | ⟨_,rfl⟩ <;> exact List.suffix_rfl
  | call moduleId op => rw [act_call taken]; exact List.suffix_cons _ _
  | ask question => cases act_ask taken; exact List.suffix_rfl

theorem outside_trace {event : Outside} (happened : outside cut w event = some w') : w'.trace = w.trace := by
  cases event with
  | moveLands index fresh => obtain ⟨f,_,rfl⟩ := Option.map_eq_some_iff.mp happened; rfl
  | claimLands index fresh => obtain ⟨f,_,rfl⟩ := Option.map_eq_some_iff.mp happened; rfl
  | claimWritten author body other fresh =>
    simp only [outside] at happened
    split at happened
    next => cases happened; rfl
    next => cases happened
  | abortRequested side =>
    obtain ⟨row,_,rfl⟩ := Option.map_eq_some_iff.mp happened
    split
    next => rfl
    next => cases side <;> rfl

theorem next_trace {c c' : Parties.Config Party World Effect Effect.Answer Memory}
    {label : Parties.Label Party Choice Outside} (taken : (parties cut).next c label = some c') :
    c.world.trace <:+ c'.world.trace := by
  cases label with
  | begin p =>
    simp only [Parties.next] at taken
    split at taken
    next => cases taken; exact List.suffix_rfl
    next => cases taken
  | act p choice =>
    simp only [Parties.next] at taken
    split at taken
    next effect rest _ =>
      obtain ⟨⟨answer,world⟩,acted,rfl⟩ := Option.map_eq_some_iff.mp taken
      exact act_trace acted
    next => cases taken
  | finish p =>
    simp only [Parties.next] at taken
    split at taken
    next => cases taken; exact List.suffix_rfl
    next => cases taken
  | crash p => cases taken; exact List.suffix_rfl
  | outside event =>
    obtain ⟨world,happened,rfl⟩ := Option.map_eq_some_iff.mp taken
    exact (outside_trace happened).symm ▸ List.suffix_rfl

theorem run_trace {c c' : Parties.Config Party World Effect Effect.Answer Memory}
    (run : Transition.Reach (parties cut).next Transition.Free c c') : c.world.trace <:+ c'.world.trace := by
  induction run with
  | refl => exact List.suffix_rfl
  | step label _ _ taken ih => exact ih.trans (next_trace taken)

/-- A move never makes an agent live on both machines. -/
theorem move_law {c : Parties.Config Party World Effect Effect.Answer Memory} (begun : Begun cut w)
    (reached : Transition.Reach (parties cut).next Transition.Free ((parties cut).initial w) c) :
    ¬ (Unfroze c.world ∧ Activated c.world) ∧
    (∀ moduleId before, (.sent .source moduleId .release :: before) <:+ c.world.trace →
      ∃ x, Earned cut c.world before x) ∧
    Documented cut c.world.moves.writes ∧
    (Saved c.world → ∀ c', Transition.Reach (parties cut).next Transition.Free c c' →
      c'.world.source.step ≠ .aborted ∧ ∀ row, c'.world.receiver = some row → row.step ≠ .aborted) := by
  have inv := inv_run begun reached
  refine ⟨one_machine inv,fun moduleId before => released_earned inv,inv.shared.documented,?_⟩
  intro saved c' further
  have saved' : Saved c'.world := (run_trace further).mem saved
  exact saved'.not_ended (inv_run begun (reached.trans further))

end OneMachine

section OneClaim

/-- The epoch after these writes; zero while there is none. -/
def epochOf (writes : List ClaimWritten) : Int := (writes.head?.map (·.body.epoch)).getD 0

def holderOf (writes : List ClaimWritten) : Option String := writes.head?.bind (·.body.holder)

theorem versionOf_ge {x : ClaimWritten} {writes : List ClaimWritten}
    (newest : writes.Pairwise fun a b => b.version < a.version) (member : x ∈ writes) :
    x.version ≤ versionOf writes := by
  cases writes with
  | nil => cases member
  | cons head rest =>
    rcases List.mem_cons.mp member with rfl | inside
    · exact Nat.le_refl _
    · exact Nat.le_of_lt ((List.pairwise_cons.mp newest).1 x inside)

theorem versionOf_lt {x : ClaimWritten} {rest : List ClaimWritten}
    (newest : (x :: rest).Pairwise fun a b => b.version < a.version) (positive : 0 < x.version) :
    versionOf rest < x.version := by
  cases rest with
  | nil => exact positive
  | cons y older => exact (List.pairwise_cons.mp newest).1 y List.mem_cons_self

/-- Only one write stands on a version. -/
theorem write_unique {r : Register WriteId String AgentClaim} {x y : ClaimWritten} {rest older : List ClaimWritten}
    (left : (x :: rest) <:+ r.writes) (right : (y :: older) <:+ r.writes)
    (same : versionOf rest = versionOf older) : x :: rest = y :: older := by
  have apart : ∀ {x y : ClaimWritten} {rest older : List ClaimWritten}, (x :: rest) <:+ r.writes →
      (y :: older) <:+ r.writes → (x :: rest) <:+ older → versionOf rest < versionOf older := by
    intro x y rest older left right inside
    have above := versionOf_ge ((r.newest.sublist right.sublist).sublist (List.sublist_cons_self _ _))
      (inside.mem List.mem_cons_self)
    have below := versionOf_lt (r.newest.sublist left.sublist) (r.positive x (left.mem List.mem_cons_self))
    omega
  rcases List.suffix_or_suffix_of_suffix left right with inside | inside
  · rcases List.suffix_cons_iff.mp inside with equal | deeper
    · exact equal
    · exact absurd (apart left right deeper) (by omega)
  · rcases List.suffix_cons_iff.mp inside with equal | deeper
    · exact equal.symm
    · exact absurd (apart right left deeper) (by omega)

/-- The write that a version belongs to is the newest below it. -/
theorem newest_below {r : Register WriteId String AgentClaim} {x y : ClaimWritten} {rest : List ClaimWritten}
    (suffix : (x :: rest) <:+ r.writes) (member : y ∈ r.writes) (version : y.version = versionOf rest) :
    ∃ older, rest = y :: older := by
  cases rest with
  | nil =>
    have := r.positive y member
    simp [versionOf] at version
    omega
  | cons z older =>
    have present : z ∈ r.writes := suffix.mem (List.mem_cons_of_mem _ List.mem_cons_self)
    have same : y = z := Register.version_inj member present version
    exact ⟨older,by rw [same]⟩

theorem versionOf_zero {r : Register WriteId String AgentClaim} {x : ClaimWritten} {rest : List ClaimWritten}
    (suffix : (x :: rest) <:+ r.writes) (version : versionOf rest = 0) : rest = [] := by
  cases rest with
  | nil => rfl
  | cons z older =>
    have := r.positive z (suffix.mem (List.mem_cons_of_mem _ List.mem_cons_self))
    simp [versionOf] at version
    omega

variable {x y : ClaimWritten} {rest older : List ClaimWritten}

/-- A write of the cut stands for a row in the receiver's store. -/
theorem claimed_row (inv : Inv cut w) (suffix : (x :: rest) <:+ w.claims.writes) {operation : ClaimWrite}
    (id : x.writeId = .claim cut.cutId operation) :
    ∃ row, w.receiver = some row ∧ ReceiverOk cut w row ∧ x.author = cut.toMachine ∧
      Fits cut row ⟨versionOf rest,x.body,x.writeId⟩ := by
  obtain absent | ⟨row,found⟩ := Option.eq_none_or_eq_some w.receiver
  · exact absurd id ((inv.untouched absent).claims x (suffix.mem List.mem_cons_self) operation)
  · obtain ⟨ok,recorded⟩ := inv.receiver row found
    obtain ⟨author,fits⟩ := recorded.history x rest suffix operation id
    exact ⟨row,found,ok,author,fits⟩

theorem Fits.take {row : AgentMove} {request : CasRequest AgentClaim} (fits : Fits cut row request)
    (id : request.writeId = .claim cut.cutId .take) :
    row.claimTakeVersion = some request.expected ∧ row.claimTakeBody = some request.body := by
  rcases fits with ⟨_,version,body⟩ | ⟨other,_⟩
  · exact ⟨version,body⟩
  · rw [id] at other; cases other

theorem Fits.return {row : AgentMove} {request : CasRequest AgentClaim} (fits : Fits cut row request)
    (id : request.writeId = .claim cut.cutId .return) :
    row.claimLandedVersion = some request.expected ∧ ∃ take, row.claimTakeBody = some take ∧
      request.body = Receiver.returned row.plan take := by
  rcases fits with ⟨other,_⟩ | ⟨_,landed,rest⟩
  · rw [id] at other; cases other
  · exact ⟨landed,rest⟩

theorem take_once (inv : Inv cut w) (left : (x :: rest) <:+ w.claims.writes)
    (right : (y :: older) <:+ w.claims.writes) (takeLeft : x.writeId = .claim cut.cutId .take)
    (takeRight : y.writeId = .claim cut.cutId .take) : x :: rest = y :: older := by
  obtain ⟨row,found,_,_,fits⟩ := claimed_row inv left takeLeft
  obtain ⟨row',found',_,_,fits'⟩ := claimed_row inv right takeRight
  have same : row' = row := by simpa [found] using found'.symm
  subst same
  have version := (fits.take takeLeft).1.symm.trans (fits'.take takeRight).1
  exact write_unique left right (Option.some.inj version)

/-- A write that takes the claim from its pinned version to the receiver. -/
structure Takes (cut : Cut) (plan : MovePlan) (x : ClaimWritten) (rest : List ClaimWritten) : Prop where
  author : x.author = cut.toMachine
  pinned : versionOf rest = plan.claimVersion
  source : 1 ≤ epochOf rest → holderOf rest = some cut.fromMachine
  holder : x.body.holder = some cut.toMachine
  epoch : x.body.epoch = epochOf rest + 1

theorem take_takes (inv : Inv cut w) (suffix : (x :: rest) <:+ w.claims.writes)
    (id : x.writeId = .claim cut.cutId .take) :
    ∃ row, w.receiver = some row ∧ row.plan = w.source.plan ∧ Takes cut row.plan x rest := by
  obtain ⟨row,found,ok,author,fits⟩ := claimed_row inv suffix id
  obtain ⟨version,body⟩ := fits.take id
  have took := ok.take x.body body
  have pinned : versionOf rest = row.plan.claimVersion := Option.some.inj (version.symm.trans took.version)
  have planned : row.plan = w.source.plan := by
    obtain ⟨z,member⟩ := List.exists_mem_of_ne_nil _ ok.published
    exact (ok.plan z member).symm.trans (inv.shared.planned z member)
  refine ⟨row,found,planned,author,pinned,?_,took.holder,?_⟩
  · intro positive
    rcases took.prior with ⟨zero,_⟩ | ⟨y,member,at',_,_,held⟩
    · rw [versionOf_zero suffix (pinned.trans zero)] at positive
      cases positive
    · obtain ⟨older,rfl⟩ := newest_below suffix member (at'.trans pinned.symm)
      exact held positive
  · rcases took.prior with ⟨zero,one⟩ | ⟨y,member,at',next,_⟩
    · rw [versionOf_zero suffix (pinned.trans zero)]
      exact one
    · obtain ⟨older,rfl⟩ := newest_below suffix member (at'.trans pinned.symm)
      exact next

/-- A return directly follows the take. -/
theorem return_follows (inv : Inv cut w) (suffix : (x :: rest) <:+ w.claims.writes)
    (id : x.writeId = .claim cut.cutId .return) :
    ∃ y older, rest = y :: older ∧ y.writeId = .claim cut.cutId .take ∧
      x.body.holder = some cut.fromMachine ∧ x.body.epoch = y.body.epoch + 1 := by
  obtain ⟨row,found,ok,_,fits⟩ := claimed_row inv suffix id
  obtain ⟨version,take,body,same⟩ := fits.return id
  obtain ⟨_,y,member,at',take'⟩ := ok.landed _ version
  obtain ⟨older,rfl⟩ := newest_below suffix member at'
  have inside : (y :: older) <:+ w.claims.writes := (List.suffix_cons _ _).trans suffix
  obtain ⟨row',found',_,_,fits'⟩ := claimed_row inv inside take'
  have equal : row' = row := by simpa [found] using found'.symm
  subst equal
  have taken : take = y.body := Option.some.inj (body.symm.trans (fits'.take take').2)
  refine ⟨y,older,rfl,take',?_,?_⟩
  · rw [show x.body = _ from same]
    simp [Receiver.returned,ok.machines.1]
  · rw [show x.body = _ from same,taken]
    rfl

/-- Every claim write of the cut raises the epoch. -/
theorem epoch_grows (inv : Inv cut w) (suffix : (x :: rest) <:+ w.claims.writes) {operation : ClaimWrite}
    (id : x.writeId = .claim cut.cutId operation) : epochOf rest < x.body.epoch := by
  cases operation with
  | take =>
    obtain ⟨_,_,_,takes⟩ := take_takes inv suffix id
    have := takes.epoch
    omega
  | «return» =>
    obtain ⟨y,older,rfl,_,_,epoch⟩ := return_follows inv suffix id
    simp only [epochOf,List.head?_cons,Option.map_some,Option.getD_some]
    omega

/-- A take that landed and was followed by writes of the cut alone came back, if
the row ended aborted. -/
theorem returned_back (inv : Inv cut w) {newer : List ClaimWritten} (free : claimHolder w ≠ some cut.toMachine)
    (writes : w.claims.writes = newer ++ x :: rest) (id : x.writeId = .claim cut.cutId .take)
    (own : ∀ y ∈ newer, ∃ operation, y.writeId = .claim cut.cutId operation) :
    holderOf w.claims.writes = some cut.fromMachine ∧ epochOf w.claims.writes = epochOf rest + 2 := by
  have suffix : (x :: rest) <:+ w.claims.writes := ⟨newer,writes.symm⟩
  obtain ⟨row,_,_,takes⟩ := take_takes inv suffix id
  cases newer with
  | nil =>
    refine absurd ?_ free
    rw [List.nil_append] at writes
    simp only [claimHolder,Register.current,writes,List.head?_cons,Option.bind_some]
    exact takes.holder
  | cons z between =>
    have whole : (z :: (between ++ x :: rest)) <:+ w.claims.writes := by rw [writes]; exact List.suffix_rfl
    obtain ⟨operation,zid⟩ := own z List.mem_cons_self
    cases operation with
    | take =>
      have same := take_once inv whole suffix zid id
      have length := congrArg List.length same
      simp at length
      omega
    | «return» =>
      obtain ⟨y,older,below,yid,holder,epoch⟩ := return_follows inv whole zid
      have inside : (y :: older) <:+ w.claims.writes := below ▸ (List.suffix_cons _ _).trans whole
      have same := take_once inv inside suffix yid id
      cases same
      rw [writes]
      refine ⟨holder,?_⟩
      simp only [List.cons_append,epochOf,List.head?_cons,Option.map_some,Option.getD_some]
      have := takes.epoch
      simp only [epochOf] at this
      omega

/-- The claim moves at most once and is never stranded. -/
theorem claim_law {c : Parties.Config Party World Effect Effect.Answer Memory} (begun : Begun cut w)
    (reached : Transition.Reach (parties cut).next Transition.Free ((parties cut).initial w) c) :
    let writes := c.world.claims.writes
    (∀ x rest y older, (x :: rest) <:+ writes → (y :: older) <:+ writes →
      x.writeId = .claim cut.cutId .take → y.writeId = .claim cut.cutId .take → x :: rest = y :: older) ∧
    (∀ x rest, (x :: rest) <:+ writes → x.writeId = .claim cut.cutId .take →
      ∃ row, c.world.receiver = some row ∧ row.plan = c.world.source.plan ∧ Takes cut row.plan x rest) ∧
    (∀ row, c.world.receiver = some row → row.step = .aborted →
      holderOf writes ≠ some cut.toMachine ∧
      ∀ newer x rest, writes = newer ++ x :: rest → x.writeId = .claim cut.cutId .take →
        (∀ y ∈ newer, ∃ operation, y.writeId = .claim cut.cutId operation) →
        holderOf writes = some cut.fromMachine ∧ epochOf writes = epochOf rest + 2) ∧
    (∀ row, c.world.receiver = some row →
      row.step = .activated ∨ row.step = .done ∨ row.step = .takenOver →
      ∃ x ∈ writes, x.writeId = .claim cut.cutId .take) ∧
    (∀ x rest operation, (x :: rest) <:+ writes → x.writeId = .claim cut.cutId operation →
      epochOf rest < x.body.epoch) := by
  intro writes
  have inv := inv_run begun reached
  refine ⟨fun x rest y older => take_once inv,fun x rest => take_takes inv,?_,?_,
    fun x rest operation suffix id => epoch_grows inv suffix id⟩
  · intro row found step
    have free := ((inv.receiver row found).1.ended step).2
    exact ⟨free,fun newer x rest => returned_back inv free⟩
  · intro row found step
    have ok := (inv.receiver row found).1
    have past : pastClaimed row.step = true := by rcases step with step | step | step <;> rw [step] <;> rfl
    obtain ⟨version,landed⟩ := Option.isSome_iff_exists.mp (ok.claimed past).2
    obtain ⟨_,x,member,_,id⟩ := ok.landed version landed
    exact ⟨x,member,id⟩

end OneClaim
end Laws

namespace Smooth

/-- A cut with one participant. -/
def cut : Cut where
  cutId := "0123456789abcdef0123456789abcdef"
  agentId := "ada"
  fromMachine := "aaaaaaaaaaaaaaaaaaaaaaaaaaaaaaaa"
  toMachine := "bbbbbbbbbbbbbbbbbbbbbbbbbbbbbbbb"
  encoding := ⟨fun _ => 0,fun _ => 0,id⟩
  participantAction := fun _ _ => none
  distinct := by decide

abbrev Run : Type := Parties.Config Party World Effect Effect.Answer Memory

/-- The answers of surroundings where nothing fails. -/
def reply : (question : Question) → question.Reply
  | .gauges => .ok ()
  | .clock => (0 : Int)
  | .pollDue => true
  | .route _ => .ok ()
  | .seal _ => .ok .published
  | .sealStatus => .ok .published
  | .doorAbort => .ok ()
  | .handoff => .ok (.released,none)
  | .handoffStatus => .ok none
  | .takeover => .ok .taken
  | .takeoverStatus => .ok none
  | .doorRead => .ok cut.fromMachine
  | .inboxRead => .ok []
  | .inboxCas => .ok 1
  | .removeInbox => .ok ()
  | .cacheClaims => .ok ()
  | .presentModules => .ok ["notes"]
  | .guard _ => .ok ()
  | .inboxEntry => some ⟨cut.fromMachine,cut.agentId⟩
  | .freeSlot => .ok true

def choice (w : World) : Effect → Choice
  | .row => .commit true
  | .consumeRetry => .commit true
  | .checkpoint _ _ => .commit true
  | .activation _ => .commit false
  | .admission _ => .commit true
  | .readMove => .fresh
  | .readClaim => .fresh
  | .casMove _ => .served (w.moves.version + 1) false
  | .casClaim _ => .served (w.claims.version + 1) false
  | .call _ _ => .called (.ok ⟨[],[],[]⟩)
  | .ask question => .answered question (reply question)

def label (p : Party) (c : Run) : Parties.Label Party Choice Outside :=
  match c.parties p with
  | .idle _ => .begin p
  | .running (.done _) => .finish p
  | .running (.perform effect _) => .act p (choice c.world effect)

/-- One whole pass of a party, within a number of effects. -/
def onePass : Nat → Party → Run → Option Run
  | 0, _, _ => none
  | fuel + 1, p, c => ((parties cut).next c (label p c)).bind fun c' =>
    match c'.parties p with
    | .idle _ => some c'
    | .running _ => onePass fuel p c'

/-- Passes of the parties, and aborts that an operator asks the receiver for. -/
def passes : List (Option Party) → Run → Option Run
  | [], c => some c
  | some p :: rest, c => (onePass 60 p c).bind (passes rest)
  | none :: rest, c => ((parties cut).next c (.outside (.abortRequested .receiver))).bind (passes rest)

theorem onePass_reach {fuel : Nat} {p : Party} {c c' : Run} (done : onePass fuel p c = some c') :
    Transition.Reach (parties cut).next Transition.Free c c' := by
  induction fuel generalizing c with
  | zero => cases done
  | succ fuel ih =>
    obtain ⟨middle,taken,done⟩ := Option.bind_eq_some_iff.mp done
    have first : Transition.Reach (parties cut).next Transition.Free c middle :=
      Transition.Reach.step _ .refl trivial taken
    split at done
    next => cases done; exact first
    next => exact first.trans (ih done)

theorem passes_reach {turns : List (Option Party)} {c c' : Run} (done : passes turns c = some c') :
    Transition.Reach (parties cut).next Transition.Free c c' := by
  induction turns generalizing c with
  | nil => cases done; exact .refl
  | cons turn rest ih =>
    cases turn with
    | some p =>
      obtain ⟨middle,first,done⟩ := Option.bind_eq_some_iff.mp done
      exact (onePass_reach first).trans (ih done)
    | none =>
      obtain ⟨middle,taken,done⟩ := Option.bind_eq_some_iff.mp done
      exact (Transition.Reach.step _ .refl trivial taken).trans (ih done)

def start : World where
  moves := .empty
  claims := .empty
  moveFlights := []
  claimFlights := []
  source := admitAgentMove cut [⟨"notes",[],[]⟩] 0 none
  receiver := none
  trace := []

theorem start_begun : Begun cut start where
  source := ⟨_,_,_,rfl⟩
  receiver := rfl
  moves := rfl
  moveFlights := rfl
  claims := fun x member => by cases member
  claimFlights := rfl
  holder := by simp [claimHolder,start,Register.current,Register.empty]
  trace := rfl

/-- The source publishes, the receiver takes the agent over up to this many steps. -/
def taking (steps : Nat) : List (Option Party) :=
  [some .source,some .source,some .source,some .inbox] ++ List.replicate steps (some .receiver)

/-- A whole move, up to the source's release. -/
def moved : Option Run :=
  passes (taking 5 ++ [some .source,some .source,some .receiver]) ((parties cut).initial start)

/-- A move that the receiver's operator undoes after the take. -/
def undone : Option Run := passes (taking 3 ++ [none,some .receiver]) ((parties cut).initial start)

theorem moved_activated : ∃ c, moved = some c ∧ Activated c.world ∧ ¬ Unfroze c.world := by
  have sent : moved.any (fun c => decide (.sent .receiver "notes" .activate ∈ c.world.trace)) = true := by
    decide +kernel
  obtain ⟨c,done,sent⟩ := (Option.any_eq_true _ _).mp sent
  have activated : Activated c.world := ⟨"notes",of_decide_eq_true sent⟩
  have law := (move_law start_begun (passes_reach done)).1
  exact ⟨c,done,activated,fun unfroze => law ⟨unfroze,activated⟩⟩

theorem undone_returned : ∃ c, undone = some c ∧ holderOf c.world.claims.writes = some cut.fromMachine ∧
    epochOf c.world.claims.writes = 2 := by
  have facts : undone.any (fun c => (c.world.receiver.any fun row => row.step == .aborted) &&
      c.world.claims.writes.map (·.writeId) == [.claim cut.cutId .return,.claim cut.cutId .take]) = true := by
    decide +kernel
  obtain ⟨c,done,facts⟩ := (Option.any_eq_true _ _).mp facts
  obtain ⟨ended,written⟩ := Bool.and_eq_true_iff.mp facts
  obtain ⟨row,found,step⟩ := (Option.any_eq_true _ _).mp ended
  have ids : c.world.claims.writes.map (·.writeId) = [.claim cut.cutId .return,.claim cut.cutId .take] :=
    eq_of_beq written
  obtain ⟨z,rest,writes,returned,ids⟩ := List.map_eq_cons_iff.mp ids
  obtain ⟨x,older,rfl,take,ids⟩ := List.map_eq_cons_iff.mp ids
  have none := List.map_eq_nil_iff.mp ids
  subst none
  have law := ((claim_law start_begun (passes_reach done)).2.2.1 row found (eq_of_beq step)).2 [z] x [] writes take
    fun y member => by
      rw [List.mem_singleton.mp member]
      exact ⟨_,returned⟩
  exact ⟨c,done,law.1,law.2⟩

end Smooth
end Entorhinal.Move
