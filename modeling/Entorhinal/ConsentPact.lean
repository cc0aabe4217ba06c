import Entorhinal.ConsentMachine

/-! What tool calls keep together: every stored answer was said of its request, a card that may stand is
the only one of its request, nothing is acknowledged before it is saved, and every write under a card was
approved on it. -/
namespace Entorhinal.Consent

variable {F π : Type} [DecidableEq F]

/-- The other module said this answer, and said it of this request. -/
def Evidence (said : List (Json F)) (identity : RequestIdentity) (digest : String) (answer : RecordedSettlement) : Prop :=
  ∃ record ∈ said, settlement record = some answer ∧ Binding.read (record.field "binding") = some ⟨identity,digest⟩

theorem Evidence.mono {said said' : List (Json F)} {identity : RequestIdentity} {digest : String}
    {answer : RecordedSettlement} (grown : said ⊆ said') (told : Evidence said identity digest answer) :
    Evidence said' identity digest answer := by
  obtain ⟨record,inside,rest⟩ := told
  exact ⟨record,grown inside,rest⟩

/-- The choices that approve a write of an agent. -/
def writeApprovals : List String := ["approve_once","approve_always_workspace","approve_always_project"]

/-- A request as a call opens it: not answered yet, and its plan is of its tool and of the arguments digested in it. -/
structure Opened (provider : Provider F) (row : ConsentRequest F) (plan : ConsentWrite F) : Prop where
  fresh : row.settlement = none
  tool : plan.tool = row.identity.tool
  arguments : provider.digest plan.arguments = row.argsDigest

/-- What a commit goes under. A permission it grants is the one its choice names, in the scope of its plan. -/
structure Backed (provider : Provider F) (said : List (Json F)) (commit : ConsentCommit F) : Prop where
  opened : Opened provider commit.request commit.target
  card : ∀ id choice, commit.authorization = .card id choice → ∃ digest answer,
    Evidence said commit.request.identity digest answer ∧ answer.state = "answered" ∧ answer.choice = some choice ∧
    answer.elicitationId = id ∧ id ≠ "" ∧ choice ∈ writeApprovals
  ownHire : commit.authorization = .ownHire → commit.request.identity.tool = "agents_retire_hire"
  granted : ∀ grant, commit.granted = some grant → ∃ id choice, commit.authorization = .card id choice ∧
    approvalGrant commit.target choice = .ok (some (grant.grantClass,grant.scopeId)) ∧
    grant.holderAgentId = commit.request.identity.agentId ∧ grant.cardRef = id

theorem Backed.mono {provider : Provider F} {said said' : List (Json F)} {commit : ConsentCommit F} (grown : said ⊆ said')
    (backed : Backed provider said commit) : Backed provider said' commit where
  opened := backed.opened
  card := by
    intro id choice under
    obtain ⟨digest,answer,told,rest⟩ := backed.card id choice under
    exact ⟨digest,answer,told.mono grown,rest⟩
  ownHire := backed.ownHire
  granted := backed.granted

/-- What a transaction may bring, whoever runs it and whenever. -/
structure Brought (provider : Provider F) (said : List (Json F)) (tx : Tx F) : Prop where
  answers : Brings (Evidence said) tx
  commit : ∀ commit, tx.commit? = some commit → Backed provider said commit
  named : ∀ w, Named w tx

omit [DecidableEq F] in
theorem Brings.mono {E E' : RequestIdentity → String → RecordedSettlement → Prop} {tx : Tx F}
    (weaker : ∀ identity digest answer, E identity digest answer → E' identity digest answer)
    (brings : Brings E tx) : Brings E' tx := by
  cases tx with
  | openRequest row plan => exact fun answer told => weaker _ _ _ (brings answer told)
  | recordSettlement identity digest scopeRef epoch answer => exact weaker _ _ _ brings
  | savePage scopeRef epoch page cursor => exact fun settling inside => weaker _ _ _ (brings settling inside)
  | refuseWrite row action target authorization error nowMs => exact fun answer told => weaker _ _ _ (brings answer told)
  | applyConsentWrite plan commit result => exact fun answer told => weaker _ _ _ (brings answer told)
  | catalogInstall commit result => exact fun answer told => weaker _ _ _ (brings answer told)
  | _ => trivial

theorem Brought.mono {provider : Provider F} {said said' : List (Json F)} {tx : Tx F} (grown : said ⊆ said') (brought : Brought provider said tx) :
    Brought provider said' tx :=
  ⟨brought.answers.mono fun _ _ _ => Evidence.mono grown,fun commit writes => (brought.commit commit writes).mono grown,
    brought.named⟩

def Tx.deletes : Tx F → Option RequestIdentity
  | .deleteAwaiting identity => some identity
  | _ => none

structure Inv (site : Site) (provider : Provider F) (directory : Directory) (m : Machine F π) : Prop where
  world : Reached site directory m.world
  settled : SettledBy (Evidence m.said) m.world.store
  heard : ∀ record ∈ m.said, ∀ binding, Binding.read (record.field "binding") = some binding → binding ∈ m.shown
  late : ∀ tx ∈ m.late, Brought provider m.said tx
  dying : ∀ identity ∈ m.late.filterMap Tx.deletes, m.cards.get? identity.key = some .dropped
  alone : (m.late.filterMap Tx.deletes).Nodup
  there : ∀ key card, m.cards.get? key = some card → ∃ row, m.world.store.requests.get? key = some row ∧
    ∀ p digest, card = .held p digest → row.argsDigest = digest
  shown : ∀ binding ∈ m.shown, m.cards.get? binding.identity.key = some .shown ∧
    ∃ row, m.world.store.requests.get? binding.identity.key = some row ∧ row.argsDigest = binding.argsDigest
  once : (m.shown.map Binding.identity).Nodup
  saved : ∀ page ∈ m.saved, ∃ held,
    m.world.store.cursors.get? (toLex (page.owner.scopeRef,page.owner.epoch)) = some held ∧ page.cursor ≤ held
  recorded : ∀ page ∈ m.saved, ∀ settling ∈ page.answers, (⟨settling.identity,settling.argsDigest⟩ : Binding) ∈ m.shown ∧
    Recorded m.world.store page.owner settling
  acked : ∀ x ∈ m.acked, ∃ page ∈ m.saved, page.owner = x.1 ∧ page.cursor = x.2
  commits : ∀ commit ∈ m.commits, Backed provider m.said commit ∧
    ∃ row, m.world.store.finished.get? commit.request.identity.key = some row ∧ row.argsDigest = commit.request.argsDigest

theorem Inv.start (site : Site) (provider : Provider F) (directory : Directory) :
    Inv site provider directory (Machine.start (F := F) (π := π) directory) where
  world := .refl
  settled := by intro identity row answer here; cases here
  heard := by intro record inside; cases inside
  late := by intro tx inside; cases inside
  dying := by intro identity inside; cases inside
  alone := .nil
  there := by intro key card here; cases here
  shown := by intro binding inside; cases inside
  once := .nil
  saved := by intro page inside; cases inside
  recorded := by intro page inside; cases inside
  acked := by intro x inside; cases inside
  commits := by intro commit inside; cases inside

structure Grow (m m' : Machine F π) : Prop where
  said : m.said ⊆ m'.said
  saved : m.saved ⊆ m'.saved

/-- What a call relies on: what it heard and saved stays, and so does its right to show a card. -/
structure Rely (p : π) (m m' : Machine F π) : Prop where
  grow : Grow m m'
  held : ∀ key digest, m.cards.get? key = some (.held p digest) → m'.cards.get? key = some (.held p digest)

omit [DecidableEq F] in
theorem Grow.refl (m : Machine F π) : Grow m m := ⟨fun _ => id,fun _ => id⟩

omit [DecidableEq F] in
theorem Grow.trans {a b c : Machine F π} (first : Grow a b) (second : Grow b c) : Grow a c :=
  ⟨fun _ inside => second.said (first.said inside),fun _ inside => second.saved (first.saved inside)⟩

omit [DecidableEq F] in
theorem Rely.refl (p : π) (m : Machine F π) : Rely p m m := ⟨.refl m,fun _ _ => id⟩

omit [DecidableEq F] in
theorem Rely.trans {p : π} {a b c : Machine F π} (first : Rely p a b) (second : Rely p b c) : Rely p a c :=
  ⟨first.grow.trans second.grow,fun key digest here => second.held key digest (first.held key digest here)⟩

section Transactions

/-- A transaction keeps the answers, the cursors, and every request it does not delete. -/
theorem run_frame {E : RequestIdentity → String → RecordedSettlement → Prop} {site : Site} {s s' : Store F} {tx : Tx F}
    {answer : Answer F} (brings : Brings E tx) (ok : run site s tx = .ok (answer,s')) :
    (SettledBy E s → SettledBy E s') ∧ Onward s s' ∧
    ∀ key, (∀ identity, tx.deletes = some identity → key ≠ identity.key) → Stays s s' key := by
  obtain sound | ⟨identity,rfl⟩ := run_sound brings ok
  · exact ⟨sound.settled,sound.onward,fun key _ => sound.stays key⟩
  · cases ok
    exact ⟨fun settled => deleteAwaiting_settled settled identity,deleteAwaiting_onward s identity,
      fun key other => deleteAwaiting_stays (other identity rfl)⟩

/-- Who may delete a request: no other call holds its card, no card of it stands, and no other deletion waits. -/
structure MayDelete (m : Machine F π) (who : Option π) (identity : RequestIdentity) : Prop where
  alone : ∀ other ∈ m.late.filterMap Tx.deletes, other ≠ identity
  hidden : ∀ binding ∈ m.shown, binding.identity ≠ identity
  unheld : ∀ q digest, some q ≠ who → m.cards.get? identity.key ≠ some (.held q digest)

omit [DecidableEq F] in
theorem commit_asks {tx : Tx F} {commit : ConsentCommit F} (writes : tx.commit? = some commit) :
    tx.asks = some (commit.request.identity,commit.request.argsDigest) := by
  cases tx with
  | applyConsentWrite plan held result => cases writes; rfl
  | catalogInstall held result => cases writes; rfl
  | _ => cases writes

theorem opened_ok {site : Site} {s s' : Store F} {row saved : ConsentRequest F} {plan : Option (ConsentWrite F)}
    {inserted : Bool} (ok : run site s (.openRequest row plan) = .ok (.opened saved inserted,s')) :
    saved.identity = row.identity ∧ saved.argsDigest = row.argsDigest ∧
    ((∃ held, s.requests.get? row.identity.key = some held ∧ saved.settlement = held.settlement ∧
      held.argsDigest = row.argsDigest ∧ inserted = false) ∨
     (s.requests.get? row.identity.key = none ∧ saved = row ∧ inserted = true ∧
      ∃ held, s'.requests.get? row.identity.key = some held ∧ held.argsDigest = row.argsDigest)) := by
  obtain ⟨⟨saved',inserted',opened⟩,accepted,same⟩ := map_ok ok
  cases same
  obtain ⟨middle,begun,fresh,kept,_⟩ := openRequest_sound (E := fun _ _ _ => True) accepted
  obtain ⟨held,digest,rfl⟩ | ⟨absent,_,_,rfl,rfl⟩ := beginRequest_cases begun
  · obtain ⟨old,here,rfl⟩ := loadRequest_some.mp held
    rw [held] at fresh
    exact ⟨rfl,digest,.inl ⟨old,here,rfl,digest,fresh⟩⟩
  · rw [absent] at fresh
    refine ⟨rfl,rfl,.inr ⟨loadRequest_none.mp absent,rfl,fresh,?_⟩⟩
    rw [kept,Store.setRequest,Table.get?_insert,if_pos rfl]
    exact ⟨_,rfl,rfl⟩

/-- What a transaction leaves of the cards: those of other requests, and its own. -/
theorem cardsAfter_cases {site : Site} {provider : Provider F} {directory : Directory} {m : Machine F π} (who : Option π)
    {tx : Tx F} {answer : Answer F} {s' : Store F}
    (inv : Inv site provider directory m) (ok : run site m.world.store tx = .ok (answer,s')) :
    (∃ row plan card, tx = .openRequest row plan ∧ m.cards.get? row.identity.key = none ∧
      (∀ q digest, card = Card.held q digest → who = some q ∧ digest = row.argsDigest) ∧ card ≠ .shown ∧
      (∀ p, who = some p → card = .held p row.argsDigest) ∧
      (∃ held, s'.requests.get? row.identity.key = some held ∧ held.argsDigest = row.argsDigest) ∧
      cardsAfter who m.cards s' tx answer = m.cards.insert row.identity.key card) ∨
    (∃ identity, tx.deletes = some identity ∧ s'.requests.get? identity.key = none ∧
      cardsAfter who m.cards s' tx answer = m.cards.erase identity.key) ∨
    ((∀ identity, tx.deletes = some identity → ∃ row, s'.requests.get? identity.key = some row ∧
        m.world.store.requests.get? identity.key = some row) ∧
      cardsAfter who m.cards s' tx answer = m.cards) := by
  cases tx with
  | openRequest row plan =>
    obtain ⟨⟨saved,inserted,opened⟩,accepted,same⟩ := map_ok ok
    cases same
    obtain ⟨_,_,⟨_,_,_,_,rfl⟩ | ⟨absent,_,rfl,held⟩⟩ := opened_ok ok
    · exact .inr (.inr ⟨(by intro identity other; cases other),rfl⟩)
    · refine .inl ⟨row,plan,_,rfl,?_,?_,?_,?_,held,rfl⟩
      · by_contra there
        obtain ⟨card,here⟩ := Option.ne_none_iff_exists'.mp there
        obtain ⟨old,present,_⟩ := inv.there _ _ here
        cases present.symm.trans absent
      · intro q digest same
        cases who with
        | none => cases same
        | some p => cases same; exact ⟨rfl,rfl⟩
      · cases who <;> intro same <;> cases same
      · rintro p rfl
        rfl
  | deleteAwaiting identity =>
    cases ok
    cases here : (deleteAwaiting m.world.store identity).requests.get? identity.key with
    | none =>
      refine .inr (.inl ⟨identity,rfl,here,?_⟩)
      simp [cardsAfter,Table.has,here]
    | some row =>
      refine .inr (.inr ⟨?_,?_⟩)
      · intro other same
        cases same
        refine ⟨row,here,?_⟩
        unfold deleteAwaiting at here
        split at here
        next =>
          split at here
          next =>
            rw [Table.get?_erase,if_pos rfl] at here
            cases here
          next => exact here
        next => exact here
      · simp [cardsAfter,Table.has,here]
  | _ => exact .inr (.inr ⟨(by intro identity other; cases other),rfl⟩)

theorem apply_inv (site : Site) {provider : Provider F} {directory : Directory} {m : Machine F π} (who : Option π)
    {tx : Tx F} (inv : Inv site provider directory m) (brought : Brought provider m.said tx)
    (may : ∀ identity, tx.deletes = some identity → MayDelete m who identity) :
    Inv site provider directory (m.apply site who tx).2 ∧ Grow m (m.apply site who tx).2 ∧
      ∀ q, some q ≠ who → Rely q m (m.apply site who tx).2 := by
  unfold Machine.apply
  split
  next answer s' ok =>
    obtain ⟨settled,onward,stays⟩ := run_frame brought.answers ok
    have grows := (run_moves ok).grows
    have cards := cardsAfter_cases who inv ok
    have grow : Grow m (m.after who tx answer s') := by
      refine ⟨fun _ => id,?_⟩
      intro page inside
      show page ∈ savedAfter m.saved tx
      cases tx <;> first | exact inside | exact List.mem_cons_of_mem _ inside
    -- the cards and the rows of requests that are not deleted
    have others : ∀ key card, m.cards.get? key = some card →
        (∀ identity, tx.deletes = some identity → key ≠ identity.key) →
        (m.after who tx answer s').cards.get? key = some card := by
      intro key card here apart
      show (cardsAfter who m.cards s' tx answer).get? key = some card
      obtain ⟨row,_,_,_,absent,_,_,_,_,same⟩ | ⟨identity,deletes,_,same⟩ | ⟨_,same⟩ := cards
      · have other : key ≠ row.identity.key := by
          rintro rfl
          cases here.symm.trans absent
        rw [same,Table.get?_insert,if_neg other]
        exact here
      · rw [same,Table.get?_erase,if_neg (apart identity deletes)]
        exact here
      · rw [same]
        exact here
    refine ⟨?_,grow,fun q other => ⟨grow,?_⟩⟩
    · have world : Reached site directory (m.after who tx answer s').world := by
        refine .step tx inv.world (brought.named _) ?_
        rw [next,ok]
        rfl
      refine ⟨world,settled inv.settled,inv.heard,inv.late,?_,inv.alone,?_,?_,inv.once,?_,?_,?_,?_⟩
      · intro identity inside
        refine others _ _ (inv.dying identity inside) ?_
        intro deleted deletes same
        exact (may deleted deletes).alone identity inside (RequestIdentity.key_injective same)
      · intro key card here
        have kept : m.cards.get? key = some card → (∀ identity, tx.deletes = some identity → key ≠ identity.key) →
            ∃ row, s'.requests.get? key = some row ∧ ∀ p digest, card = .held p digest → row.argsDigest = digest := by
          intro here apart
          obtain ⟨row,present,digest⟩ := inv.there key card here
          obtain ⟨row',there,forward⟩ := stays key apart row present
          exact ⟨row',there,fun p d held => forward.digest.trans (digest p d held)⟩
        replace here : (cardsAfter who m.cards s' tx answer).get? key = some card := here
        obtain ⟨row,plan,opened,rfl,_,own,_,_,⟨held,present,digest⟩,same⟩ | ⟨identity,deletes,gone,same⟩ | ⟨stayed,same⟩ := cards
        · rw [same,Table.get?_insert] at here
          split at here
          next at' =>
            subst at'
            cases here
            exact ⟨held,present,fun p d is => digest.trans (own p d is).2.symm⟩
          next => exact kept here (by intro identity other; cases other)
        · rw [same,Table.get?_erase] at here
          split at here
          next => cases here
          next apart =>
            refine kept here ?_
            intro other deletes' at'
            cases deletes.symm.trans deletes'
            exact apart at'
        · rw [same] at here
          by_cases deleted : ∃ identity, tx.deletes = some identity ∧ key = identity.key
          · obtain ⟨identity,deletes,rfl⟩ := deleted
            obtain ⟨row,after,before⟩ := stayed identity deletes
            obtain ⟨row',present,digest⟩ := inv.there _ card here
            cases before.symm.trans present
            exact ⟨row,after,digest⟩
          · exact kept here fun identity deletes same => deleted ⟨identity,deletes,same⟩
      · intro binding inside
        obtain ⟨card,row,present,digest⟩ := inv.shown binding inside
        have apart : ∀ identity, tx.deletes = some identity → binding.identity.key ≠ identity.key := by
          intro identity deletes same
          exact (may identity deletes).hidden binding inside (RequestIdentity.key_injective same)
        obtain ⟨row',there,forward⟩ := stays _ apart row present
        exact ⟨others _ _ card apart,row',there,forward.digest.trans digest⟩
      · intro page inside
        rcases mem_savedAfter inside with older | rfl
        · obtain ⟨held,here,le⟩ := inv.saved page older
          obtain ⟨held',there,le'⟩ := onward _ held here
          exact ⟨held',there,le.trans le'⟩
        · cases ok
          exact saveFeedCursor_reaches _ page.owner.scopeRef page.owner.epoch page.cursor
      · intro page inside settling told
        rcases mem_savedAfter inside with older | rfl
        · obtain ⟨shown,recorded⟩ := inv.recorded page older settling told
          refine ⟨shown,recorded.stays (stays _ ?_)⟩
          intro identity deletes same
          exact (may identity deletes).hidden _ shown (RequestIdentity.key_injective same)
        · cases ok
          have shown : ∀ settling ∈ page.answers, (⟨settling.identity,settling.argsDigest⟩ : Binding) ∈ m.shown := by
            intro settling told
            obtain ⟨record,said,_,read⟩ := brought.answers settling told
            exact inv.heard record said _ read
          refine ⟨shown settling told,savePage_recorded page.owner ?_ settling told⟩
          exact fun settling told => (inv.shown _ (shown settling told)).2
      · intro x inside
        obtain ⟨page,inside,same⟩ := inv.acked x inside
        exact ⟨page,grow.saved inside,same⟩
      · intro commit inside
        have older : commit ∈ m.commits → Backed provider m.said commit ∧ ∃ row, s'.finished.get? commit.request.identity.key = some row ∧
            row.argsDigest = commit.request.argsDigest := by
          intro inside
          obtain ⟨backed,row,here,digest⟩ := inv.commits commit inside
          exact ⟨backed,row,grows.finished _ _ here,digest⟩
        have inside : commit ∈ commitsAfter m.commits m.world.store s' tx := inside
        unfold commitsAfter at inside
        split at inside
        next written writes =>
          split at inside
          next grown =>
            rcases List.mem_cons.mp inside with rfl | inside
            · refine ⟨brought.commit commit writes,?_⟩
              cases run_moves ok with
              | quiet kept _ =>
                rw [kept.audit] at grown
                exact absurd grown (lt_irrefl _)
              | ends identity digest tool outcome asked _ ended _ =>
                cases asked.symm.trans (commit_asks writes)
                obtain ⟨row,here,digest,_⟩ := ended.told
                exact ⟨row,here,digest⟩
            · exact older inside
          next => exact older inside
        next => exact older inside
    · intro key digest here
      by_cases deleted : ∃ identity, tx.deletes = some identity ∧ key = identity.key
      · obtain ⟨identity,deletes,rfl⟩ := deleted
        exact absurd here ((may identity deletes).unheld q digest other)
      · exact others key _ here fun identity deletes same => deleted ⟨identity,deletes,same⟩
  next => exact ⟨inv,.refl _,fun q _ => .refl q _⟩

end Transactions

end Entorhinal.Consent
