import Entorhinal.MoveHistory
import Entorhinal.MoveReceiver

/-! What every reachable world of a cut satisfies, and what each party may rely
on while the others act. A driver's copy of its row meets the same conditions as
the stored row, so that it may be saved at any point. -/
namespace Entorhinal.Move

def Has (w : World) (state : MoveRecordState) : Prop := ∃ x ∈ w.moves.writes, x.body.state = state

/-- No record, and none on its way. -/
def Unpublished (w : World) : Prop := w.moves.writes = [] ∧ ∀ f ∈ w.moveFlights, f.side ≠ .source

/-- The receiver wrote this state, or sent a write of it. -/
def Attempted (cut : Cut) (w : World) (state : MoveRecordState) : Prop :=
  (∃ f ∈ w.moveFlights, f.side = .receiver ∧ f.request.body.state = state) ∨
  ∃ x ∈ w.moves.writes, x.author = cut.toMachine ∧ x.body.state = state

def Unfroze (w : World) : Prop := ∃ moduleId, .sent .source moduleId .abort ∈ w.trace

def Activated (w : World) : Prop := ∃ moduleId, .sent .receiver moduleId .activate ∈ w.trace

def Saved (w : World) : Prop := .saved .receiver .activating ∈ w.trace

def claimHolder (w : World) : Option String := w.claims.current.bind (·.body.holder)

/-- The claim names another machine, and no write of the receiver is on its way. -/
def Settled (cut : Cut) (w : World) : Prop :=
  w.claimFlights = [] ∧ claimHolder w ≠ some cut.toMachine

def crossed (step : MoveStep) : Bool := step matches .activating | .activated | .done | .takenOver

def ofSource (step : MoveStep) : Bool :=
  step matches .preparing | .exported | .sealed | .published | .releasing | .released | .aborted

def pastStaged (step : MoveStep) : Bool := step == .staged || step == .claimed || crossed step

def pastClaimed (step : MoveStep) : Bool := step == .claimed || crossed step

/-- The row as it was, or with an abort asked for. -/
def Marked (row row' : AgentMove) : Prop :=
  row' = row ∨ ∃ request, row' = { row with abortRequested := some request }

theorem Marked.refl (row : AgentMove) : Marked row row := .inl rfl

theorem Marked.trans {a b c : AgentMove} (first : Marked a b) (second : Marked b c) : Marked a c := by
  rcases second with rfl | ⟨request,rfl⟩
  · exact first
  · rcases first with rfl | ⟨_,rfl⟩
    · exact .inr ⟨request,rfl⟩
    · exact .inr ⟨request,rfl⟩

/-- What a source row promises. -/
structure SourceOk (cut : Cut) (w : World) (row : AgentMove) : Prop where
  onSource : ofSource row.step = true
  machines : row.plan.fromMachine = cut.fromMachine ∧ row.plan.toMachine = cut.toMachine
  prepared : row.step = .exported ∨ row.step = .sealed → row.source.prepared = true
  early : row.step = .preparing ∨ row.step = .exported → Unpublished w
  late : row.step = .published ∨ row.step = .releasing ∨ row.step = .released → w.moves.writes ≠ []
  plan : Unpublished w ∨ row.plan = w.source.plan
  aborted : row.step = .aborted → Has w .aborted ∨ Unpublished w
  undone : Unfroze w → Has w .aborted ∨
    (Unpublished w ∧ (row.abortRequested.isSome = true ∨ row.step = .aborted))

/-- The claim as it was at the version the take expects. -/
def Prior (cut : Cut) (w : World) (version : Nat) (take : AgentClaim) : Prop :=
  (version = 0 ∧ take.epoch = 1) ∨
  ∃ x ∈ w.claims.writes, x.version = version ∧ take.epoch = x.body.epoch + 1 ∧ 0 ≤ x.body.epoch ∧
    (1 ≤ x.body.epoch → x.body.holder = some cut.fromMachine)

/-- A take moves the claim from its pinned version to the receiver. -/
structure TakeOk (cut : Cut) (w : World) (row : AgentMove) (take : AgentClaim) : Prop where
  holder : take.holder = some cut.toMachine
  version : row.claimTakeVersion = some row.plan.claimVersion
  prior : Prior cut w row.plan.claimVersion take

/-- The stored row keeps what the driver's row knows of the claim. -/
structure Extends (stored row : AgentMove) : Prop where
  plan : stored.plan = row.plan
  take : stored.claimTakeBody = none ∨
    (stored.claimTakeBody = row.claimTakeBody ∧ stored.claimTakeVersion = row.claimTakeVersion)
  landed : stored.claimLandedVersion = none ∨ stored.claimLandedVersion = row.claimLandedVersion

/-- What a receiver row promises. -/
structure ReceiverOk (cut : Cut) (w : World) (row : AgentMove) : Prop where
  machines : row.plan.fromMachine = cut.fromMachine ∧ row.plan.toMachine = cut.toMachine
  published : w.moves.writes ≠ []
  plan : ∀ x ∈ w.moves.writes, x.body.plan = row.plan
  staged : pastStaged row.step = true → Has w .staged
  claimed : pastClaimed row.step = true → Has w .claimed ∧ row.claimLandedVersion.isSome = true
  backing : Attempted cut w .aborted →
    (row.abortRequested.isSome = true ∧ row.step.beforeBoundary .receiver = true) ∨ row.step = .aborted
  begun : Attempted cut w .activated → crossed row.step = true
  saved : Saved w → crossed row.step = true
  pending : ∀ moduleId, row.receiver.pending = some ⟨moduleId,.activate⟩ → Saved w
  stored : ∃ stored, w.receiver = some stored ∧ Extends stored row
  landed : ∀ version, row.claimLandedVersion = some version → row.claimTakeBody.isSome = true ∧
    ∃ x ∈ w.claims.writes, x.version = version ∧ x.writeId = .claim cut.cutId .take
  take : ∀ take, row.claimTakeBody = some take → TakeOk cut w row take
  ended : row.step = .aborted → Settled cut w

/-- The claim writes that a row stands for: its take, and its return once the
take has landed. -/
def Fits (cut : Cut) (row : AgentMove) (request : CasRequest AgentClaim) : Prop :=
  (request.writeId = .claim cut.cutId .take ∧ row.claimTakeVersion = some request.expected ∧
    row.claimTakeBody = some request.body) ∨
  (request.writeId = .claim cut.cutId .return ∧ row.claimLandedVersion = some request.expected ∧
    ∃ take, row.claimTakeBody = some take ∧ request.body = Receiver.returned row.plan take)

def versionOf (writes : List ClaimWritten) : Nat := (writes.head?.map (·.version)).getD 0

/-- The claim writes of the cut are those of the stored row. -/
structure Recorded (cut : Cut) (w : World) (row : AgentMove) : Prop where
  flights : ∀ f ∈ w.claimFlights, f.side = .receiver ∧ Fits cut row f.request
  history : ∀ x rest, (x :: rest) <:+ w.claims.writes → ∀ operation,
    x.writeId = .claim cut.cutId operation →
    x.author = cut.toMachine ∧ Fits cut row ⟨versionOf rest,x.body,x.writeId⟩
  activating : row.step = .activating → Saved w

/-- Nothing of the receiver, before the cut is picked up. -/
structure Untouched (cut : Cut) (w : World) : Prop where
  attempted : ∀ state, ¬ Attempted cut w state
  claimFlights : w.claimFlights = []
  claims : ∀ x ∈ w.claims.writes, ∀ operation, x.writeId ≠ .claim cut.cutId operation
  saved : ¬ Saved w

structure Shared (cut : Cut) (w : World) : Prop where
  documented : Documented cut w.moves.writes
  flights : ∀ f ∈ w.moveFlights, Permitted w.moves.writes f.side f.request
  seen : ∀ side x, .observed side x ∈ w.trace → x ∈ w.moves.writes
  released : ∀ moduleId rest, (.sent .source moduleId .release :: rest) <:+ w.trace →
    ∃ x, .observed .source x ∈ rest ∧ x.body.state = .activated
  planned : ∀ x ∈ w.moves.writes, x.body.plan = w.source.plan
  sent : ∀ f ∈ w.moveFlights, f.side = .source → f.request.body.plan = w.source.plan
  holder : ∀ x, w.claims.current = some x → x.body.holder = some cut.toMachine →
    x.writeId = .claim cut.cutId .take
  activated : Activated w → Saved w

structure Inv (cut : Cut) (w : World) : Prop where
  shared : Shared cut w
  source : SourceOk cut w w.source
  receiver : ∀ row, w.receiver = some row → ReceiverOk cut w row ∧ Recorded cut w row
  untouched : w.receiver = none → Untouched cut w

/-- What the source relies on. -/
structure SourceRely (w w' : World) : Prop where
  row : Marked w.source w'.source
  moves : w.moves.writes <:+ w'.moves.writes
  unpublished : Unpublished w → Unpublished w'
  trace : w.trace <:+ w'.trace
  unfroze : Unfroze w' → Unfroze w

/-- What the receiver relies on. -/
structure ReceiverRely (cut : Cut) (w w' : World) : Prop where
  row : ∀ row, w.receiver = some row → ∃ row', w'.receiver = some row' ∧ Marked row row'
  moves : w.moves.writes <:+ w'.moves.writes
  claims : w.claims.writes <:+ w'.claims.writes
  attempted : ∀ state, Attempted cut w' state → Attempted cut w state
  settled : Settled cut w → Settled cut w'
  trace : w.trace <:+ w'.trace
  saved : Saved w' → Saved w

def InboxRely (w w' : World) : Prop := w.moves.writes <:+ w'.moves.writes

theorem SourceRely.refl (w : World) : SourceRely w w :=
  ⟨.refl _,List.suffix_rfl,id,List.suffix_rfl,id⟩

theorem SourceRely.trans {a b c : World} (first : SourceRely a b) (second : SourceRely b c) :
    SourceRely a c :=
  ⟨first.row.trans second.row,first.moves.trans second.moves,second.unpublished ∘ first.unpublished,
    first.trace.trans second.trace,first.unfroze ∘ second.unfroze⟩

theorem ReceiverRely.refl (cut : Cut) (w : World) : ReceiverRely cut w w :=
  ⟨fun row found => ⟨row,found,.refl _⟩,List.suffix_rfl,List.suffix_rfl,fun _ => id,id,List.suffix_rfl,id⟩

theorem ReceiverRely.trans {cut : Cut} {a b c : World} (first : ReceiverRely cut a b)
    (second : ReceiverRely cut b c) : ReceiverRely cut a c where
  row := by
    intro row found
    obtain ⟨row',found',marked⟩ := first.row row found
    obtain ⟨row'',found'',marked'⟩ := second.row row' found'
    exact ⟨row'',found'',marked.trans marked'⟩
  moves := first.moves.trans second.moves
  claims := first.claims.trans second.claims
  attempted := fun state => first.attempted state ∘ second.attempted state
  settled := second.settled ∘ first.settled
  trace := first.trace.trans second.trace
  saved := first.saved ∘ second.saved

theorem Has.grow {w w' : World} {state : MoveRecordState} (has : Has w state)
    (grown : w.moves.writes <:+ w'.moves.writes) : Has w' state := by
  obtain ⟨x,member,same⟩ := has
  exact ⟨x,grown.mem member,same⟩

theorem writes_grow {w w' : World} (some : w.moves.writes ≠ [])
    (grown : w.moves.writes <:+ w'.moves.writes) : w'.moves.writes ≠ [] := by
  intro empty
  rw [empty] at grown
  exact some (List.suffix_nil.mp grown)

theorem Marked.plan {row row' : AgentMove} (marked : Marked row row') : row'.plan = row.plan := by
  rcases marked with rfl | ⟨_,rfl⟩ <;> rfl

theorem Marked.step {row row' : AgentMove} (marked : Marked row row') : row'.step = row.step := by
  rcases marked with rfl | ⟨_,rfl⟩ <;> rfl

theorem Unfroze.grow {w w' : World} (unfroze : Unfroze w) (grown : w.trace <:+ w'.trace) :
    Unfroze w' := by
  obtain ⟨moduleId,member⟩ := unfroze
  exact ⟨moduleId,grown.mem member⟩

theorem SourceOk.stable {cut : Cut} {w w' : World} {row : AgentMove} (ok : SourceOk cut w row)
    (relied : SourceRely w w') : SourceOk cut w' row where
  onSource := ok.onSource
  machines := ok.machines
  prepared := ok.prepared
  early := fun step => relied.unpublished (ok.early step)
  late := fun step => writes_grow (ok.late step) relied.moves
  plan := ok.plan.imp relied.unpublished fun same => same.trans relied.row.plan.symm
  aborted := fun step => (ok.aborted step).imp (·.grow relied.moves) relied.unpublished
  undone := fun unfroze => (ok.undone (relied.unfroze unfroze)).imp (·.grow relied.moves)
    fun rest => ⟨relied.unpublished rest.1,rest.2⟩

theorem SourceOk.marked {cut : Cut} {w : World} {row row' : AgentMove} (ok : SourceOk cut w row)
    (marked : Marked row row') : SourceOk cut w row' := by
  rcases marked with rfl | ⟨request,rfl⟩
  · exact ok
  · exact ⟨ok.onSource,ok.machines,ok.prepared,ok.early,ok.late,ok.plan,ok.aborted,fun unfroze =>
      (ok.undone unfroze).imp id fun rest => ⟨rest.1,.inl rfl⟩⟩

theorem Prior.grow {cut : Cut} {w w' : World} {version : Nat} {take : AgentClaim}
    (prior : Prior cut w version take) (grown : w.claims.writes <:+ w'.claims.writes) :
    Prior cut w' version take := by
  rcases prior with first | ⟨x,member,rest⟩
  · exact .inl first
  · exact .inr ⟨x,grown.mem member,rest⟩

theorem Extends.marked {stored stored' row : AgentMove} (extends' : Extends stored row)
    (marked : Marked stored stored') : Extends stored' row := by
  rcases marked with rfl | ⟨_,rfl⟩
  · exact extends'
  · exact ⟨extends'.plan,extends'.take,extends'.landed⟩

theorem Extends.refl (row : AgentMove) : Extends row row := ⟨rfl,.inr ⟨rfl,rfl⟩,.inr rfl⟩

theorem ReceiverOk.stable {cut : Cut} {w w' : World} {row : AgentMove} (ok : ReceiverOk cut w row)
    (relied : ReceiverRely cut w w') (shared : Shared cut w') : ReceiverOk cut w' row where
  machines := ok.machines
  published := writes_grow ok.published relied.moves
  plan := by
    intro x member
    obtain ⟨y,present⟩ := List.exists_mem_of_ne_nil _ ok.published
    exact (shared.documented.same_plan member (relied.moves.mem present)).trans (ok.plan y present)
  staged := fun past => (ok.staged past).grow relied.moves
  claimed := fun past => ⟨(ok.claimed past).1.grow relied.moves,(ok.claimed past).2⟩
  backing := fun attempted => ok.backing (relied.attempted _ attempted)
  begun := fun attempted => ok.begun (relied.attempted _ attempted)
  saved := fun saved => ok.saved (relied.saved saved)
  pending := fun moduleId waiting => relied.trace.mem (ok.pending moduleId waiting)
  stored := by
    obtain ⟨stored,found,extended⟩ := ok.stored
    obtain ⟨stored',found',marked⟩ := relied.row stored found
    exact ⟨stored',found',extended.marked marked⟩
  landed := by
    intro version landed
    obtain ⟨body,x,member,rest⟩ := ok.landed version landed
    exact ⟨body,x,relied.claims.mem member,rest⟩
  take := fun take body => ⟨(ok.take take body).holder,(ok.take take body).version,
    (ok.take take body).prior.grow relied.claims⟩
  ended := fun step => relied.settled (ok.ended step)

theorem ReceiverOk.marked {cut : Cut} {w : World} {row row' : AgentMove} (ok : ReceiverOk cut w row)
    (marked : Marked row row') : ReceiverOk cut w row' := by
  rcases marked with rfl | ⟨request,rfl⟩
  · exact ok
  · exact {
      machines := ok.machines
      published := ok.published
      plan := ok.plan
      staged := ok.staged
      claimed := ok.claimed
      backing := fun attempted => (ok.backing attempted).imp (fun before => ⟨rfl,before.2⟩) id
      begun := ok.begun
      saved := ok.saved
      pending := ok.pending
      stored := by
        obtain ⟨stored,found,extended⟩ := ok.stored
        exact ⟨stored,found,extended.plan,extended.take,extended.landed⟩
      landed := ok.landed
      take := fun take body => ⟨(ok.take take body).holder,(ok.take take body).version,
        (ok.take take body).prior⟩
      ended := ok.ended }

theorem Fits.extend {cut : Cut} {stored row : AgentMove} {request : CasRequest AgentClaim}
    (fits : Fits cut stored request) (extended : Extends stored row) : Fits cut row request := by
  rcases fits with ⟨id,version,body⟩ | ⟨id,version,take,body,same⟩
  · rcases extended.take with none | ⟨sameBody,sameVersion⟩
    · rw [none] at body; cases body
    · exact .inl ⟨id,sameVersion ▸ version,sameBody ▸ body⟩
  · rcases extended.landed with none | sameLanded
    · rw [none] at version; cases version
    · rcases extended.take with none | ⟨sameBody,_⟩
      · rw [none] at body; cases body
      · exact .inr ⟨id,sameLanded ▸ version,take,sameBody ▸ body,extended.plan ▸ same⟩

theorem Recorded.extend {cut : Cut} {w : World} {stored row : AgentMove}
    (recorded : Recorded cut w stored) (extended : Extends stored row)
    (activating : row.step = .activating → Saved w) : Recorded cut w row where
  flights := fun f member => ⟨(recorded.flights f member).1,(recorded.flights f member).2.extend extended⟩
  history := fun x rest suffix operation id =>
    ⟨(recorded.history x rest suffix operation id).1,
      (recorded.history x rest suffix operation id).2.extend extended⟩
  activating := activating

/-- An activated record, or a write of it under way, is the receiver's. -/
theorem Has.attempted {cut : Cut} {w : World} (shared : Shared cut w) (has : Has w .activated) :
    Attempted cut w .activated := by
  obtain ⟨x,member,state⟩ := has
  obtain ⟨before,side,permitted,author⟩ := shared.documented.author member
  rw [state] at permitted
  rcases allowed_writer permitted with writer | ⟨writer,_⟩ | ⟨_,rfl⟩
  · cases writer
  · cases writer
  · exact .inr ⟨x,member,author,state⟩

end Entorhinal.Move
