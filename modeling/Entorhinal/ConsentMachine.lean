import Entorhinal.ConsentBroker
import Entorhinal.ConsentPermissions

/-! The machine that tool calls share: the consent tables, the transactions whose callers no longer wait,
what the other module said, the pages that were saved and acknowledged, and the cards that may stand there.
The other module speaks only of cards it was shown; what it says of them is arbitrary. -/
namespace Entorhinal.Consent

variable {F π : Type}

/-- Who may show the card of an open request: the call that opened it, nobody, or nobody again. -/
inductive Card (π : Type)
  | held (holder : π) (digest : String)
  | dropped
  | shown
deriving DecidableEq

/-- One page of an owner's feed, as it was saved. -/
structure Page where
  owner : Owner
  answers : List Settling
  cursor : Int

structure Machine (F π : Type) where
  world : World F
  late : List (Tx F)
  said : List (Json F)
  saved : List Page
  acked : List (Owner × Int)
  cards : Table Key (Card π)
  shown : List Binding
  commits : List (ConsentCommit F)

def Machine.start (directory : Directory) : Machine F π := ⟨.start directory,[],[],[],[],∅,[],[]⟩

inductive Choice (F : Type)
  /-- The transaction runs now; the result is that of a write's own action. -/
  | run (result : Except AgentMutationError (Directory × Json F))
  | lost (e : HandlerError F)
  /-- The caller stops waiting, and the transaction may still run. -/
  | late (e : HandlerError F) (result : Except AgentMutationError (Directory × Json F))
  | reply (reply : Reply F)
  | clock (now : Int)
  | flag (value : Bool)

inductive Outside (F : Type)
  | late (n : Nat)
  | revokeGrant (id : String) (now : Int)
  | setProjectHireCap (project : String) (cap : Int)
  | elsewhere (directory : Directory)

def fieldJson : Detail → Json F
  | .text value => optional value
  | .number value => jsonInt value

def handlerError (e : AgentMutationError) : HandlerError F :=
  ⟨e.code,e.message,if e.detail = [] then none else some (.objectOf (e.detail.map fun d => (d.1,fieldJson d.2)))⟩

section Act
variable [DecidableEq F]

/-- The card of a request that was opened or deleted just now. -/
def cardsAfter (who : Option π) (cards : Table Key (Card π)) (s' : Store F) :
    Tx F → Answer F → Table Key (Card π)
  | .openRequest row _,.opened _ true =>
    cards.insert row.identity.key (match who with
      | some p => .held p row.argsDigest
      | none => .dropped)
  | .deleteAwaiting identity,_ => if s'.requests.has identity.key then cards else cards.erase identity.key
  | _,_ => cards

def savedAfter (saved : List Page) : Tx F → List Page
  | .savePage scopeRef epoch answers cursor => ⟨⟨scopeRef,epoch⟩,answers,cursor⟩ :: saved
  | _ => saved

omit [DecidableEq F] in
/-- A saved page was saved before, or is the one that is saved now. -/
theorem mem_savedAfter {saved : List Page} {tx : Tx F} {page : Page} (inside : page ∈ savedAfter saved tx) :
    page ∈ saved ∨ tx = .savePage page.owner.scopeRef page.owner.epoch page.answers page.cursor := by
  cases tx with
  | savePage scopeRef epoch answers cursor =>
    rcases List.mem_cons.mp inside with rfl | inside
    · exact .inr rfl
    · exact .inl inside
  | _ => exact .inl inside

def commitsAfter (commits : List (ConsentCommit F)) (s s' : Store F) (tx : Tx F) : List (ConsentCommit F) :=
  match tx.commit? with
  | some commit => if s.audit.length < s'.audit.length then commit :: commits else commits
  | none => commits

def Machine.after (m : Machine F π) (who : Option π) (tx : Tx F) (answer : Answer F) (s' : Store F) : Machine F π :=
  { m with
    world := ⟨s',tells tx answer ++ m.world.told,approves m.world.store s' tx ++ m.world.events⟩
    cards := cardsAfter who m.cards s' tx answer
    saved := savedAfter m.saved tx
    commits := commitsAfter m.commits m.world.store s' tx }

def Machine.apply (site : Site) (m : Machine F π) (who : Option π) (tx : Tx F) :
    Except (HandlerError F) (Answer F) × Machine F π :=
  match run site m.world.store tx with
  | .ok (answer,s') => (.ok answer,m.after who tx answer s')
  | .error e => (.error (handlerError e),m)

/-- A deletion whose caller is gone is the only one of its request. -/
def dropCard (cards : Table Key (Card π)) : Tx F → Table Key (Card π)
  | .deleteAwaiting identity => if cards.has identity.key then cards.insert identity.key .dropped else cards
  | _ => cards

def Machine.later (m : Machine F π) (tx : Tx F) : Machine F π :=
  { m with late := tx :: m.late, cards := dropCard m.cards tx }

def outcomeOf : Except (HandlerError F) (Answer F) → Except (HandlerError F) (Json F)
  | .ok (.outcome value) => .ok value
  | .ok _ => .error ⟨"storage_error","no outcome",none⟩
  | .error e => .error e

/-- The records in a reply: itself, or those of a page. -/
def recordsOf (reply : Json F) : List (Json F) := reply :: ((reply.field "records").asArray.getD [])

def honest (m : Machine F π) (reply : Json F) : Bool :=
  (recordsOf reply).all fun record => (Binding.read (record.field "binding")).all fun binding => m.shown.contains binding

/-- A reply of the other module, if it may say so. -/
def hear (m : Machine F π) : Choice F → Option (Reply F × Machine F π)
  | .reply (.ok reply) =>
    if honest m reply then some (.ok reply,{ m with said := recordsOf reply ++ m.said }) else none
  | .reply (.error e) => some (.error e,m)
  | _ => none

/-- A card may stand from when it was sent on, unless the other module refused it. -/
def showTo (m : Machine F π) (binding : Binding) : Machine F π :=
  { m with cards := m.cards.insert binding.identity.key .shown, shown := binding :: m.shown }

def refusedCard : Choice F → Bool
  | .reply (.error (.refused code)) => code != "cancelled"
  | _ => false

def precheck (site : Site) (s : Store F) (caller tool : String) (arguments : Json F)
    (result : Except AgentMutationError (Directory × Json F)) : Except AgentMutationError (ConsentWrite F) := do
  let plan ← prepareWrite site s.directory s.caps caller tool arguments
  let _ ← result
  return plan

def reads {α : Type} (m : Machine F π) (value : Except AgentMutationError α) :
    Choice F → Option (Except (HandlerError F) α × Machine F π)
  | .run _ => some (value.mapError handlerError,m)
  | .lost e => some (.error e,m)
  | _ => none

def act (site : Site) (p : π) (m : Machine F π) : (e : Effect F) → Choice F → Option (e.Result × Machine F π)
  | .tx tx,.run _ => some (m.apply site (some p) tx)
  | .tx _,.lost e => some (.error e,m)
  | .tx tx,.late e _ => some (.error e,m.later tx)
  | .tx _,_ => none
  | .write plan commit,.run result =>
    let done := m.apply site (some p) (.applyConsentWrite plan commit result)
    some (outcomeOf done.1,done.2)
  | .write _ _,.lost e => some (.error e,m)
  | .write plan commit,.late e result => some (.error e,m.later (.applyConsentWrite plan commit result))
  | .write _ _,_ => none
  | .loadRequest identity,choice =>
    reads m (identity.validate.map fun _ => loadRequest m.world.store identity) choice
  | .writePlan identity,choice => reads m (.ok (m.world.store.plans.get? identity.key)) choice
  | .precheck caller tool arguments _,.run result =>
    some ((precheck site m.world.store caller tool arguments result).mapError handlerError,m)
  | .precheck _ _ _ _,.lost e => some (.error e,m)
  | .precheck _ _ _ _,_ => none
  | .covering holder grantClass scope,choice =>
    reads m (.ok (coveringConsentGrant m.world.store holder grantClass scope)) choice
  | .feedCursor owner,choice => reads m (.ok (consentFeedCursor m.world.store owner.scopeRef owner.epoch)) choice
  | .agentName id,choice => reads m (.ok ((loadRow m.world.store.directory id).map (·.name))) choice
  | .clock,.clock now => some (now,m)
  | .clock,_ => none
  | .lease _,.flag value => some (value,m)
  | .lease _,_ => none
  | .connect,.flag value => some (value,m)
  | .connect,_ => none
  | .request binding _,choice => hear (if refusedCard choice then m else showTo m binding) choice
  | .get _,choice => hear m choice
  | .await _,choice => hear m choice
  | .detach _,choice => hear m choice
  | .answers _ _,choice => hear m choice
  | .ack owner cursor,choice => hear { m with acked := (owner,cursor) :: m.acked } choice

def outside (site : Site) (m : Machine F π) : Outside F → Option (Machine F π)
  | .late n => match m.late[n]? with
    | some tx => some (({ m with late := m.late.eraseIdx n } : Machine F π).apply site none tx).2
    | none => none
  | .revokeGrant id now => some (m.apply site none (.revokeGrant id now)).2
  | .setProjectHireCap project cap => some (m.apply site none (.setProjectHireCap project cap)).2
  | .elsewhere directory => some (m.apply site none (.elsewhere directory)).2

/-- Any number of tool calls at once, each by a party of its own that may call again. -/
def calls (site : Site) (provider : Provider F) (asked : π → Call F) :
    Parties π (Machine F π) (Effect F) Effect.Result (Choice F) Unit (Outside F) where
  act := act site
  start := ()
  tick := fun p _ => (executeAgentTool provider (asked p) ()).bind fun _ => .done ()
  outside := outside site

end Act

section Statements

/-- What every stored answer was recorded for. -/
def SettledBy (E : RequestIdentity → String → RecordedSettlement → Prop) (s : Store F) : Prop :=
  ∀ identity row answer, s.requests.get? identity.key = some row → row.settlement = some answer →
    E identity row.argsDigest answer

/-- What the answers that a transaction brings are recorded for. -/
def Brings (E : RequestIdentity → String → RecordedSettlement → Prop) : Tx F → Prop
  | .openRequest row _ => ∀ answer, row.settlement = some answer → E row.identity row.argsDigest answer
  | .recordSettlement identity digest _ _ answer => E identity digest answer
  | .savePage _ _ page _ => ∀ settling ∈ page, E settling.identity settling.argsDigest settling.answer
  | .refuseWrite row _ _ _ _ _ => ∀ answer, row.settlement = some answer → E row.identity row.argsDigest answer
  | .applyConsentWrite _ commit _ | .catalogInstall commit _ =>
    ∀ answer, commit.request.settlement = some answer → E commit.request.identity commit.request.argsDigest answer
  | _ => True

/-- How a stored request may change: what it was opened for, its card, its answer and its end stay. -/
structure RequestRow.Forward (old new : RequestRow F) : Prop where
  digest : new.argsDigest = old.argsDigest
  scope : new.scopeRef = old.scopeRef ∧ new.scopeEpoch = old.scopeEpoch
  card : ∀ id, old.elicitationId = some id → new.elicitationId = some id
  settled : ∀ answer, old.settlement = some answer → new.settlement = some answer
  ended : old.state ≠ .awaiting → new.state ≠ .awaiting

theorem RequestRow.Forward.refl (row : RequestRow F) : row.Forward row := ⟨rfl,⟨rfl,rfl⟩,fun _ => id,fun _ => id,id⟩

theorem RequestRow.Forward.trans {a b c : RequestRow F} (first : a.Forward b) (second : b.Forward c) : a.Forward c where
  digest := second.digest.trans first.digest
  scope := ⟨second.scope.1.trans first.scope.1,second.scope.2.trans first.scope.2⟩
  card := fun id here => second.card id (first.card id here)
  settled := fun answer told => second.settled answer (first.settled answer told)
  ended := fun ends => second.ended (first.ended ends)

/-- A request stays, and only goes forward. -/
def Stays (s s' : Store F) (key : Key) : Prop :=
  ∀ row, s.requests.get? key = some row → ∃ row', s'.requests.get? key = some row' ∧ row.Forward row'

theorem Stays.refl (s : Store F) (key : Key) : Stays s s key := fun row here => ⟨row,here,.refl row⟩

theorem Stays.trans {a b c : Store F} {key : Key} (first : Stays a b key) (second : Stays b c key) : Stays a c key := by
  intro row here
  obtain ⟨row',there,moved⟩ := first row here
  obtain ⟨row'',last,moved'⟩ := second row' there
  exact ⟨row'',last,moved.trans moved'⟩

variable {E : RequestIdentity → String → RecordedSettlement → Prop}

/-- A cursor that was saved is never taken back. -/
def Onward (s s' : Store F) : Prop :=
  ∀ key cursor, s.cursors.get? key = some cursor → ∃ cursor', s'.cursors.get? key = some cursor' ∧ cursor ≤ cursor'

theorem Onward.of_same {s s' : Store F} (same : s'.cursors = s.cursors) : Onward s s' := by
  intro key cursor here
  exact ⟨cursor,by rw [same]; exact here,le_rfl⟩

theorem Onward.trans {a b c : Store F} (first : Onward a b) (second : Onward b c) : Onward a c := by
  intro key cursor here
  obtain ⟨cursor',there,le⟩ := first key cursor here
  obtain ⟨cursor'',last,le'⟩ := second key cursor' there
  exact ⟨cursor'',last,le.trans le'⟩

theorem saveFeedCursor_onward (s : Store F) (scopeRef : String) (epoch cursor : Int) :
    Onward s (saveFeedCursor s scopeRef epoch cursor) := by
  intro key old here
  rw [saveFeedCursor,Table.get?_insert]
  split
  next same =>
    subst same
    rw [here]
    exact ⟨max old cursor,rfl,le_max_left _ _⟩
  next => exact ⟨old,here,le_rfl⟩

theorem saveFeedCursor_reaches (s : Store F) (scopeRef : String) (epoch cursor : Int) :
    ∃ held, (saveFeedCursor s scopeRef epoch cursor).cursors.get? (toLex (scopeRef,epoch)) = some held ∧
      cursor ≤ held := by
  rw [saveFeedCursor,Table.get?_insert,if_pos rfl]
  cases s.cursors.get? (toLex (scopeRef,epoch)) with
  | none => exact ⟨cursor,rfl,le_rfl⟩
  | some old => exact ⟨max old cursor,rfl,le_max_right _ _⟩

/-- What one statement does to the answers, to the rows that are there and to the cursors. -/
structure Sound (E : RequestIdentity → String → RecordedSettlement → Prop) (s s' : Store F) : Prop where
  settled : SettledBy E s → SettledBy E s'
  stays : ∀ key, Stays s s' key
  onward : Onward s s'

theorem Sound.refl (s : Store F) : Sound E s s := ⟨id,Stays.refl s,.of_same rfl⟩

theorem Sound.trans {a b c : Store F} (first : Sound E a b) (second : Sound E b c) : Sound E a c :=
  ⟨second.settled ∘ first.settled,fun key => (first.stays key).trans (second.stays key),
    first.onward.trans second.onward⟩

theorem Sound.same {s s' : Store F} (same : s'.requests = s.requests) (onward : Onward s s') : Sound E s s' where
  onward := onward
  settled := by
    intro settled identity row answer here
    rw [same] at here
    exact settled identity row answer here
  stays := by
    intro key row here
    exact ⟨row,by rw [same]; exact here,.refl row⟩

theorem Sound.set {s : Store F} {identity : RequestIdentity} {row : RequestRow F}
    (own : SettledBy E s → ∀ answer, row.settlement = some answer → E identity row.argsDigest answer)
    (forward : ∀ old, s.requests.get? identity.key = some old → old.Forward row) :
    Sound E s (s.setRequest identity.key row) where
  onward := .of_same rfl
  settled := by
    intro settled other held answer here told
    rw [Store.setRequest,Table.get?_insert] at here
    split at here
    next same =>
      cases here
      rw [RequestIdentity.key_injective same]
      exact own settled answer told
    next => exact settled other held answer here told
  stays := by
    intro key old here
    rw [Store.setRequest,Table.get?_insert]
    split
    next same =>
      subst same
      exact ⟨row,rfl,forward old here⟩
    next => exact ⟨old,here,.refl old⟩

theorem beginRequest_sound {s s' : Store F} {request saved : ConsentRequest F}
    (brings : ∀ answer, request.settlement = some answer → E request.identity request.argsDigest answer)
    (ok : beginRequest s request = .ok (saved,s')) : Sound E s s' := by
  obtain ⟨_,_,rfl⟩ | ⟨absent,_,_,_,rfl⟩ := beginRequest_cases ok
  · exact .refl s'
  · refine .set (fun _ => brings) ?_
    intro old here
    cases here.symm.trans (loadRequest_none.mp absent)

theorem setElicitation_sound (s : Store F) (identity : RequestIdentity) (id : String) :
    Sound E s (setElicitation s identity id) := by
  unfold setElicitation
  split
  next row here =>
    split
    next waits =>
      refine .set (fun settled answer told => settled identity row answer here told) ?_
      intro old there
      cases here.symm.trans there
      exact ⟨rfl,⟨rfl,rfl⟩,(by intro card named; cases waits.2.symm.trans named),fun _ told => told,fun ends => ends⟩
    next => exact .refl s
  next => exact .refl s

theorem recordSettlement_sound {s : Store F} {identity : RequestIdentity} {digest scopeRef : String} {epoch : Int}
    {answer : RecordedSettlement} (brings : E identity digest answer) :
    Sound E s (recordSettlement s identity digest scopeRef epoch answer) := by
  unfold recordSettlement
  split
  next row here =>
    split
    next awaits =>
      simp only [RequestRow.awaits,Bool.and_eq_true,beq_iff_eq] at awaits
      refine .set ?_ ?_
      · intro _ told same
        cases same
        show E identity row.argsDigest answer
        rw [awaits.1.1.1.1.1]
        exact brings
      · intro old there
        cases here.symm.trans there
        refine ⟨rfl,⟨rfl,rfl⟩,?_,?_,id⟩
        · intro card named
          have same := awaits.2
          rw [named,Option.all_some,beq_iff_eq] at same
          exact congrArg some same.symm
        · intro old told
          rw [told] at awaits
          cases awaits.1.2
    next => exact .refl s
  next => exact .refl s

theorem savePage_sound {s : Store F} {scopeRef : String} {epoch : Int} {page : List Settling} {cursor : Int}
    (brings : ∀ settling ∈ page, E settling.identity settling.argsDigest settling.answer) :
    Sound E s (savePage s scopeRef epoch page cursor) := by
  suffices saved : Sound E s (page.foldl (fun s settling =>
      recordSettlement s settling.identity settling.argsDigest scopeRef epoch settling.answer) s) from
    saved.trans (.same rfl (saveFeedCursor_onward _ _ _ _))
  induction page generalizing s with
  | nil => exact .refl s
  | cons settling rest ih =>
    have first : Sound E s (recordSettlement s settling.identity settling.argsDigest scopeRef epoch settling.answer) :=
      recordSettlement_sound (brings settling List.mem_cons_self)
    exact first.trans (ih fun later inside => brings later (List.mem_cons_of_mem _ inside))

/-- The request that an answer names is there; opened in the scope of the feed and under no other card, it
holds an answer or has ended. -/
def Recorded (s : Store F) (owner : Owner) (settling : Settling) : Prop :=
  ∃ row, s.requests.get? settling.identity.key = some row ∧ row.argsDigest = settling.argsDigest ∧
    (row.scopeRef = owner.scopeRef → row.scopeEpoch = owner.epoch →
      (∀ id, row.elicitationId = some id → id = settling.answer.elicitationId) →
      row.settlement.isSome = true ∨ row.state ≠ .awaiting)

theorem Recorded.stays {s s' : Store F} {owner : Owner} {settling : Settling} (recorded : Recorded s owner settling)
    (stays : Stays s s' settling.identity.key) : Recorded s' owner settling := by
  obtain ⟨row,here,digest,told⟩ := recorded
  obtain ⟨row',there,forward⟩ := stays row here
  refine ⟨row',there,forward.digest.trans digest,?_⟩
  intro scope epoch card
  rcases told (forward.scope.1.symm.trans scope) (forward.scope.2.symm.trans epoch)
    (fun id named => card id (forward.card id named)) with settled | ended
  · obtain ⟨answer,settled⟩ := Option.isSome_iff_exists.mp settled
    exact .inl (Option.isSome_iff_exists.mpr ⟨answer,forward.settled answer settled⟩)
  · exact .inr (forward.ended ended)

theorem recordSettlement_recorded {s : Store F} {owner : Owner} {settling : Settling} {row : RequestRow F}
    (here : s.requests.get? settling.identity.key = some row) (digest : row.argsDigest = settling.argsDigest) :
    Recorded (recordSettlement s settling.identity settling.argsDigest owner.scopeRef owner.epoch settling.answer) owner
      settling := by
  rw [recordSettlement,here]
  dsimp only
  split
  next =>
    have new : ∀ row' : RequestRow F, (s.setRequest settling.identity.key row').requests.get? settling.identity.key =
        some row' := by
      intro row'
      rw [Store.setRequest,Table.get?_insert,if_pos rfl]
    exact ⟨_,new _,digest,fun _ _ _ => .inl rfl⟩
  next refused =>
    refine ⟨row,here,digest,?_⟩
    intro scope epoch card
    by_contra neither
    rw [not_or,Bool.not_eq_true,Option.isSome_eq_false_iff,not_not] at neither
    refine refused ?_
    have own : row.elicitationId.all (· == settling.answer.elicitationId) = true := by
      cases named : row.elicitationId with
      | none => rfl
      | some id => simp [card id named]
    simp [RequestRow.awaits,digest,scope,epoch,neither.1,neither.2,own]

/-- By induction on the page: what one answer records, the rest of the page keeps. -/
theorem savePage_recorded (owner : Owner) {s : Store F} {page : List Settling} {cursor : Int}
    (there : ∀ settling ∈ page, ∃ row, s.requests.get? settling.identity.key = some row ∧
      row.argsDigest = settling.argsDigest) :
    ∀ settling ∈ page, Recorded (savePage s owner.scopeRef owner.epoch page cursor) owner settling := by
  show ∀ settling ∈ page, Recorded (page.foldl (fun s settling =>
      recordSettlement s settling.identity settling.argsDigest owner.scopeRef owner.epoch settling.answer) s) owner settling
  have sound : ∀ s : Store F, ∀ settling : Settling, Sound (fun _ _ _ => True) s
      (recordSettlement s settling.identity settling.argsDigest owner.scopeRef owner.epoch settling.answer) :=
    fun s settling => recordSettlement_sound trivial
  have rest : ∀ (page : List Settling) (s : Store F), Sound (fun _ _ _ => True) s (page.foldl (fun s settling =>
      recordSettlement s settling.identity settling.argsDigest owner.scopeRef owner.epoch settling.answer) s) := by
    intro page
    induction page with
    | nil => exact Sound.refl
    | cons settling rest ih => exact fun s => (sound s settling).trans (ih _)
  induction page generalizing s with
  | nil =>
    intro settling inside
    cases inside
  | cons first page ih =>
    obtain ⟨row,here,digest⟩ := there first List.mem_cons_self
    intro settling inside
    rcases List.mem_cons.mp inside with rfl | inside
    · exact (recordSettlement_recorded here digest).stays ((rest page _).stays _)
    · refine ih ?_ settling inside
      intro later inside
      obtain ⟨row,here,digest⟩ := there later (List.mem_cons_of_mem _ inside)
      obtain ⟨row',there,forward⟩ := (sound s first).stays _ row here
      exact ⟨row',there,forward.digest.trans digest⟩

theorem finishRequest_sound {s s' : Store F} {identity : RequestIdentity} {digest : String} {ending : Ending}
    {outcome : Json F} (ok : finishRequest s identity digest ending outcome = .ok s') : Sound E s s' := by
  unfold finishRequest at ok
  split at ok
  next row here =>
    cases ok
    have held := (Option.filter_eq_some_iff.mp here).1
    refine .set (fun settled answer told => settled identity row answer held told) ?_
    intro old there
    cases held.symm.trans there
    exact ⟨rfl,⟨rfl,rfl⟩,fun _ => id,fun _ => id,fun _ => by cases ending <;> intro same <;> cases same⟩
  next => cases ok

theorem saveWritePlan_requests {s s' : Store F} {identity : RequestIdentity} {plan : ConsentWrite F}
    (ok : saveWritePlan s identity plan = .ok s') : s'.requests = s.requests ∧ s'.cursors = s.cursors := by
  obtain ⟨_,_,ok⟩ := bind_ok ok
  cases ok
  exact ⟨rfl,rfl⟩

theorem putGranted_requests {s s' : Store F} {granted : Option StandingGrant} (ok : putGranted s granted = .ok s') :
    s'.requests = s.requests ∧ s'.cursors = s.cursors := by
  cases granted with
  | none => cases ok; exact ⟨rfl,rfl⟩
  | some grant =>
    obtain ⟨⟨_,_⟩,accepted,same⟩ := map_ok ok
    obtain ⟨_,_,accepted⟩ := bind_ok accepted
    cases accepted
    cases same
    exact ⟨rfl,rfl⟩

theorem complete_sound {s s' : Store F} {commit : ConsentCommit F} {outcome : Json F}
    (brings : ∀ answer, commit.request.settlement = some answer →
      E commit.request.identity commit.request.argsDigest answer)
    (ok : complete s commit outcome = .ok s') : Sound E s s' := by
  obtain ⟨_,begun,granted,done,opened,put,finished,rfl⟩ := complete_ok ok
  have first := beginRequest_sound brings opened
  have kept := putGranted_requests put
  have second : Sound E begun granted := .same kept.1 (.of_same kept.2)
  exact (first.trans second).trans ((finishRequest_sound finished).trans (.same rfl (.of_same rfl)))

theorem refuseWrite_sound {s s' : Store F} {row : ConsentRequest F} {action : String} {target : Json F}
    {authorization : Authorization} {error : HandlerError F} {nowMs : Int} {outcome : Json F}
    (brings : ∀ answer, row.settlement = some answer → E row.identity row.argsDigest answer)
    (ok : refuseWrite s row action target authorization error nowMs = .ok (outcome,s')) : Sound E s s' := by
  obtain ⟨saved,middle,begun,⟨done,finished,rfl⟩ | ⟨_,_,rfl⟩⟩ := refuseWrite_ok ok
  · exact (beginRequest_sound brings begun).trans ((finishRequest_sound finished).trans (.same rfl (.of_same rfl)))
  · exact beginRequest_sound brings begun

theorem openRequest_sound {s s' : Store F} {row saved : ConsentRequest F} {plan : Option (ConsentWrite F)}
    {inserted : Bool} (ok : openRequest s row plan = .ok (saved,inserted,s')) :
    ∃ middle, beginRequest s row = .ok (saved,middle) ∧ inserted = (loadRequest s row.identity).isNone ∧
      s'.requests = middle.requests ∧ Sound E middle s' := by
  obtain ⟨⟨saved',middle⟩,begun,ok⟩ := bind_ok ok
  cases plan with
  | none =>
    cases ok
    exact ⟨_,begun,rfl,rfl,.refl _⟩
  | some plan =>
    obtain ⟨planned,kept,ok⟩ := bind_ok ok
    cases ok
    have same := saveWritePlan_requests kept
    exact ⟨middle,begun,rfl,same.1,.same same.1 (.of_same same.2)⟩

theorem deleteAwaiting_onward (s : Store F) (identity : RequestIdentity) : Onward s (deleteAwaiting s identity) := by
  unfold deleteAwaiting
  split
  next => split <;> exact .of_same rfl
  next => exact .of_same rfl

theorem deleteAwaiting_settled {s : Store F} (settled : SettledBy E s) (identity : RequestIdentity) :
    SettledBy E (deleteAwaiting s identity) := by
  unfold deleteAwaiting
  split
  next =>
    split
    next =>
      intro other row answer here told
      rw [Table.get?_erase] at here
      split at here
      next => cases here
      next => exact settled other row answer here told
    next => exact settled
  next => exact settled

theorem deleteAwaiting_stays {s : Store F} {identity : RequestIdentity} {key : Key} (other : key ≠ identity.key) :
    Stays s (deleteAwaiting s identity) key := by
  unfold deleteAwaiting
  split
  next =>
    split
    next =>
      intro row here
      refine ⟨row,?_,.refl row⟩
      rw [Table.get?_erase,if_neg other]
      exact here
    next => exact .refl s key
  next => exact .refl s key

variable [DecidableEq F]

/-- A transaction but a deletion keeps every request. -/
theorem run_sound {site : Site} {s s' : Store F} {tx : Tx F} {answer : Answer F} (brings : Brings E tx)
    (ok : run site s tx = .ok (answer,s')) : Sound E s s' ∨ ∃ identity, tx = .deleteAwaiting identity := by
  have written : ∀ {commit : ConsentCommit F} {result : Except AgentMutationError (Directory × Json F)}
      {outcome : Json F} {s' : Store F}, (∀ answer, commit.request.settlement = some answer →
        E commit.request.identity commit.request.argsDigest answer) →
      mutation site s commit result = .ok (outcome,s') → Sound E s s' := by
    intro commit result outcome s' brings ok
    obtain ⟨_,_,_,_,rfl⟩ | ⟨_,directory,_,completed⟩ := mutation_cases ok
    · exact .refl s'
    · have moved : Sound E s { s with directory := directory } := .same rfl (.of_same rfl)
      exact moved.trans (complete_sound brings completed)
  cases tx with
  | openRequest row plan =>
    obtain ⟨⟨saved,inserted,opened⟩,accepted,same⟩ := map_ok ok
    cases same
    obtain ⟨middle,begun,_,_,kept⟩ := openRequest_sound (E := E) accepted
    exact .inl ((beginRequest_sound brings begun).trans kept)
  | setElicitation identity id =>
    cases ok
    exact .inl (setElicitation_sound s identity id)
  | recordSettlement identity digest scopeRef epoch settlement =>
    cases ok
    exact .inl (recordSettlement_sound brings)
  | savePage scopeRef epoch page cursor =>
    cases ok
    exact .inl (savePage_sound brings)
  | deleteAwaiting identity => exact .inr ⟨identity,rfl⟩
  | refuseWrite row action target authorization error nowMs =>
    obtain ⟨⟨outcome,done⟩,accepted,same⟩ := map_ok ok
    cases same
    exact .inl (refuseWrite_sound brings accepted)
  | applyConsentWrite plan commit result =>
    obtain ⟨⟨outcome,done⟩,accepted,same⟩ := map_ok ok
    cases same
    obtain ⟨_,_,accepted⟩ := bind_ok accepted
    exact .inl (written brings (mapError_ok accepted))
  | catalogInstall commit result =>
    obtain ⟨⟨outcome,done⟩,accepted,same⟩ := map_ok ok
    cases same
    exact .inl (written brings accepted)
  | revokeGrant id now =>
    cases ok
    exact .inl (.same rfl (.of_same rfl))
  | setProjectHireCap project cap =>
    obtain ⟨done,accepted,same⟩ := map_ok ok
    cases same
    obtain rfl := setProjectHireCap_ok accepted
    exact .inl (.same rfl (.of_same rfl))
  | elsewhere directory =>
    cases ok
    exact .inl (.same rfl (.of_same rfl))

end Statements

end Entorhinal.Consent
