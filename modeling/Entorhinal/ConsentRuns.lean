import Entorhinal.ApprovalLedger
import Entorhinal.ConsentStore
import Entorhinal.Transition

/-! Runs of the transactions on the consent tables, by any callers in any order, with what they
answered and the standing permissions they approved and revoked. -/
namespace Entorhinal.Consent

variable {F : Type}

structure HandlerError (F : Type) where
  code : String
  message : String
  detail : Option (Json F)
deriving DecidableEq

def HandlerError.outcome (error : HandlerError F) : Json F :=
  .objectOf [("error",.objectOf [("code",.string error.code),("message",.string error.message),
    ("detail",error.detail.getD .null)])]

section Transactions
variable [DecidableEq F]

/-- Ends a request without its write, unless it has ended. -/
def refuseWrite (s : Store F) (row : ConsentRequest F) (action : String) (target : Json F)
    (authorization : Authorization) (error : HandlerError F) (nowMs : Int) :
    Except AgentMutationError (Json F × Store F) := do
  let (saved,s) ← (beginRequest s row).mapError fun e =>
    if e.code = "request_key_conflict" then e
    else ⟨"consent_lost",s!"stored consent request could not be read or retained: {e.code}: {e.message}",[]⟩
  if saved.state ≠ .awaiting then
    let outcome ← found "consent_lost" "stored terminal consent request has no outcome" saved.outcome
    return (outcome,s)
  else
    let s ← finishRequest s row.identity row.argsDigest .refused error.outcome
    return (error.outcome,appendAudit s nowMs row.identity.agentId action target authorization error.outcome)

/-- The transaction around a write: admission, the write itself, its completion. Of the write only the
result is known here. A decided request answers with its outcome. -/
def mutation (site : Site) (s : Store F) (commit : ConsentCommit F)
    (result : Except AgentMutationError (Directory × Json F)) : Except AgentMutationError (Json F × Store F) := do
  match ← admitCommit site s commit with
  | some outcome => return (outcome,s)
  | none =>
    let (directory,value) ← result
    let s ← complete { s with directory := directory } commit value
    return (value,s)

def mismatched (commit : ConsentCommit F) (plan : ConsentWrite F) : Bool :=
  commit.action != plan.tool || commit.request.identity.tool != plan.tool || commit.target != plan

def applyConsentWrite (site : Site) (s : Store F) (plan : ConsentWrite F) (commit : ConsentCommit F)
    (result : Except AgentMutationError (Directory × Json F)) : Except AgentMutationError (Json F × Store F) := do
  reject "invalid_request" "write does not match its consent commit" (mismatched commit plan)
  (mutation site s commit result).mapError <| staleUnless
    ["gone","hire_cap_reached","not_your_hire","consent_stale","request_key_conflict","storage_error"]

/-- A request and the plan it was made for. The flag tells whether this call opened it. -/
def openRequest (s : Store F) (row : ConsentRequest F) (plan : Option (ConsentWrite F)) :
    Except AgentMutationError (ConsentRequest F × Bool × Store F) := do
  let inserted := (loadRequest s row.identity).isNone
  let (saved,s) ← beginRequest s row
  match plan with
  | some plan => return (saved,inserted,← saveWritePlan s row.identity plan)
  | none => return (saved,inserted,s)

/-- An answer of the feed with the request it names. -/
structure Settling where
  identity : RequestIdentity
  argsDigest : String
  answer : RecordedSettlement
deriving DecidableEq, Repr

/-- One page of the feed: its answers and its cursor. -/
def savePage (s : Store F) (scopeRef : String) (epoch : Int) (page : List Settling) (cursor : Int) : Store F :=
  let saved := page.foldl (fun s settling =>
    recordSettlement s settling.identity settling.argsDigest scopeRef epoch settling.answer) s
  saveFeedCursor saved scopeRef epoch cursor

end Transactions

inductive Tx (F : Type)
  | openRequest (row : ConsentRequest F) (plan : Option (ConsentWrite F))
  | setElicitation (identity : RequestIdentity) (id : String)
  | recordSettlement (identity : RequestIdentity) (digest scopeRef : String) (epoch : Int) (answer : RecordedSettlement)
  | savePage (scopeRef : String) (epoch : Int) (page : List Settling) (cursor : Int)
  | deleteAwaiting (identity : RequestIdentity)
  | refuseWrite (row : ConsentRequest F) (action : String) (target : Json F) (authorization : Authorization)
      (error : HandlerError F) (nowMs : Int)
  | applyConsentWrite (plan : ConsentWrite F) (commit : ConsentCommit F)
      (result : Except AgentMutationError (Directory × Json F))
  | catalogInstall (commit : ConsentCommit F) (result : Except AgentMutationError (Directory × Json F))
  | revokeGrant (id : String) (now : Int)
  | setProjectHireCap (project : String) (cap : Int)
  /-- Any other write of the registry or the agents. -/
  | elsewhere (directory : Directory)

inductive Answer (F : Type)
  | opened (saved : ConsentRequest F) (inserted : Bool)
  | outcome (value : Json F)
  | done
deriving DecidableEq

def quiet (s : Store F) : Except AgentMutationError (Answer F × Store F) := .ok (.done,s)

section Runs
variable [DecidableEq F]

def run (site : Site) (s : Store F) : Tx F → Except AgentMutationError (Answer F × Store F)
  | .openRequest row plan => (openRequest s row plan).map fun done => (.opened done.1 done.2.1,done.2.2)
  | .setElicitation identity id => quiet (setElicitation s identity id)
  | .recordSettlement identity digest scopeRef epoch answer =>
    quiet (recordSettlement s identity digest scopeRef epoch answer)
  | .savePage scopeRef epoch page cursor => quiet (savePage s scopeRef epoch page cursor)
  | .deleteAwaiting identity => quiet (deleteAwaiting s identity)
  | .refuseWrite row action target authorization error nowMs =>
    (refuseWrite s row action target authorization error nowMs).map fun done => (.outcome done.1,done.2)
  | .applyConsentWrite plan commit result =>
    (applyConsentWrite site s plan commit result).map fun done => (.outcome done.1,done.2)
  | .catalogInstall commit result => (mutation site s commit result).map fun done => (.outcome done.1,done.2)
  | .revokeGrant id now => quiet (revokeGrant s id now).2
  | .setProjectHireCap project cap => (setProjectHireCap s project cap).map fun s => (.done,s)
  | .elsewhere directory => quiet { s with directory := directory }

/-- The request a transaction answers for, with the digest of its arguments. -/
def Tx.asks : Tx F → Option (RequestIdentity × String)
  | .openRequest row _ => some (row.identity,row.argsDigest)
  | .refuseWrite row _ _ _ _ _ => some (row.identity,row.argsDigest)
  | .applyConsentWrite _ commit _ => some (commit.request.identity,commit.request.argsDigest)
  | .catalogInstall commit _ => some (commit.request.identity,commit.request.argsDigest)
  | _ => none

/-- The outcome that an answer tells of its request. -/
def Answer.told : Answer F → Option (Json F)
  | .opened saved _ => saved.outcome
  | .outcome value => some value
  | .done => none

structure Told (F : Type) where
  identity : RequestIdentity
  argsDigest : String
  outcome : Json F

def tells (tx : Tx F) (answer : Answer F) : List (Told F) :=
  match tx.asks,answer.told with
  | some (identity,digest),some outcome => [⟨identity,digest,outcome⟩]
  | _,_ => []

/-- The standing permissions a transaction approved or revoked. -/
def approves (s : Store F) (s' : Store F) : Tx F → List (Approval GrantKey Unit)
  | .applyConsentWrite _ commit _ | .catalogInstall commit _ =>
    if s.audit.length < s'.audit.length then (commit.granted.map fun grant => .approved grant.key ∅).toList else []
  | .revokeGrant id now =>
    if (revokeGrant s id now).1 then ((s.grants.rows.get? id).map fun grant => .revoked grant.key).toList else []
  | _ => []

structure World (F : Type) where
  store : Store F
  /-- Every outcome that was told to a caller. -/
  told : List (Told F)
  /-- Newest first. -/
  events : List (Approval GrantKey Unit)

def World.start (directory : Directory) : World F := ⟨⟨directory,∅,∅,.empty,∅,[],∅⟩,[],[]⟩

/-- A refused transaction is rolled back. -/
def next (site : Site) (w : World F) (tx : Tx F) : Option (World F) :=
  match run site w.store tx with
  | .ok (answer,s) => some ⟨s,tells tx answer ++ w.told,approves w.store s tx ++ w.events⟩
  | .error _ => some w

/-- The callers name the tool of the request they write for. -/
def Named (_ : World F) : Tx F → Prop
  | .refuseWrite row action _ _ _ _ => action = row.identity.tool
  | .catalogInstall commit _ => commit.action = commit.request.identity.tool
  | _ => True

abbrev Reached (site : Site) (directory : Directory) (w : World F) : Prop :=
  Transition.Reach (next site) Named (World.start directory) w

end Runs

section Finished

/-- The requests that have ended. -/
def Store.finished (s : Store F) : Table Key (RequestRow F) := s.requests.filter fun _ row => row.state != .awaiting

/-- A statement that ends no request and audits nothing. -/
structure Quiet (s s' : Store F) : Prop where
  finished : s'.finished = s.finished
  audit : s'.audit = s.audit

theorem Quiet.trans {a b c : Store F} (first : Quiet a b) (second : Quiet b c) : Quiet a c :=
  ⟨second.finished.trans first.finished,second.audit.trans first.audit⟩

theorem get?_finished (s : Store F) (key : Key) :
    s.finished.get? key = (s.requests.get? key).filter (·.state != .awaiting) :=
  Table.get?_filter s.requests _ key

theorem finished_some {s : Store F} {key : Key} {row : RequestRow F} :
    s.finished.get? key = some row ↔ s.requests.get? key = some row ∧ row.state ≠ .awaiting := by
  rw [get?_finished,Option.filter_eq_some_iff,bne_iff_ne]

theorem finished_none {s : Store F} {key : Key} :
    s.finished.get? key = none ↔ ∀ row, s.requests.get? key = some row → row.state = .awaiting := by
  simp only [get?_finished,Option.filter_eq_none_iff,Bool.not_eq_true,bne_eq_false_iff_eq]

/-- A waiting request put in the place of a waiting one, or of none. -/
theorem setRequest_quiet {s : Store F} {key : Key} {row : RequestRow F}
    (waits : s.finished.get? key = none) (open' : row.state = .awaiting) : Quiet s (s.setRequest key row) where
  audit := rfl
  finished := by
    apply Table.ext
    intro other
    rw [get?_finished,Store.setRequest,Table.get?_insert]
    split
    next same =>
      subst same
      rw [waits]
      simp [Option.filter,open']
    next => rw [get?_finished]

theorem waits_of {s : Store F} {key : Key} {row : RequestRow F} (here : s.requests.get? key = some row)
    (waiting : row.state = .awaiting) : s.finished.get? key = none := by
  rw [finished_none]
  intro other there
  cases here.symm.trans there
  exact waiting

theorem waits_none {s : Store F} {key : Key} (absent : s.requests.get? key = none) :
    s.finished.get? key = none := by
  rw [finished_none]
  intro other there
  cases absent.symm.trans there

theorem reject_ok {code message : String} {when' : Bool} {result : Unit}
    (ok : reject code message when' = .ok result) : when' = false := by
  cases when' with
  | false => rfl
  | true => cases ok

theorem found_ok {α : Type} {code message : String} {option : Option α} {value : α}
    (ok : found code message option = .ok value) : option = some value := by
  cases option with
  | none => cases ok
  | some held => exact congrArg some (Except.ok.inj ok)

/-- What an accepted start of a request answers and leaves. -/
theorem beginRequest_cases {s s' : Store F} {request saved : ConsentRequest F}
    (ok : beginRequest s request = .ok (saved,s')) :
    (loadRequest s request.identity = some saved ∧ saved.argsDigest = request.argsDigest ∧ s' = s) ∨
    (loadRequest s request.identity = none ∧ request.state = .awaiting ∧ request.outcome = none ∧ saved = request ∧
      s' = s.setRequest request.identity.key request.row) := by
  obtain ⟨_,_,ok⟩ := bind_ok ok
  cases held : loadRequest s request.identity with
  | some existing =>
    rw [held] at ok
    obtain ⟨_,same,ok⟩ := bind_ok ok
    cases ok
    have digest := reject_ok same
    rw [bne_eq_false_iff_eq] at digest
    exact .inl ⟨rfl,digest,rfl⟩
  | none =>
    rw [held] at ok
    obtain ⟨_,fresh,ok⟩ := bind_ok ok
    cases ok
    have waiting := reject_ok fresh
    simp only [Bool.or_eq_false_iff,bne_eq_false_iff_eq,Option.isSome_eq_false_iff,Option.isNone_iff_eq_none] at waiting
    exact .inr ⟨rfl,waiting.1,waiting.2,rfl,rfl⟩

theorem loadRequest_none {s : Store F} {identity : RequestIdentity} :
    loadRequest s identity = none ↔ s.requests.get? identity.key = none := Option.map_eq_none_iff

theorem loadRequest_some {s : Store F} {identity : RequestIdentity} {request : ConsentRequest F} :
    loadRequest s identity = some request ↔
      ∃ row, s.requests.get? identity.key = some row ∧ row.request identity = request := Option.map_eq_some_iff

theorem beginRequest_quiet {s s' : Store F} {request saved : ConsentRequest F}
    (ok : beginRequest s request = .ok (saved,s')) : Quiet s s' := by
  obtain ⟨_,_,rfl⟩ | ⟨absent,_,_,_,rfl⟩ := beginRequest_cases ok
  · exact ⟨rfl,rfl⟩
  · exact setRequest_quiet (waits_none (loadRequest_none.mp absent)) rfl

theorem setElicitation_quiet (s : Store F) (identity : RequestIdentity) (id : String) :
    Quiet s (setElicitation s identity id) := by
  unfold setElicitation
  split
  next row here =>
    split
    next waiting => exact setRequest_quiet (waits_of here waiting.1) waiting.1
    next => exact ⟨rfl,rfl⟩
  next => exact ⟨rfl,rfl⟩

theorem awaits_waiting {row : RequestRow F} {digest scopeRef elicitation : String} {epoch : Int}
    (awaits : row.awaits digest scopeRef epoch elicitation = true) : row.state = .awaiting := by
  simp only [RequestRow.awaits,Bool.and_eq_true,beq_iff_eq] at awaits
  exact awaits.1.1.2

theorem recordSettlement_quiet (s : Store F) (identity : RequestIdentity) (digest scopeRef : String) (epoch : Int)
    (answer : RecordedSettlement) : Quiet s (recordSettlement s identity digest scopeRef epoch answer) := by
  unfold recordSettlement
  split
  next row here =>
    split
    next awaits =>
      have waiting := awaits_waiting awaits
      exact setRequest_quiet (waits_of here waiting) waiting
    next => exact ⟨rfl,rfl⟩
  next => exact ⟨rfl,rfl⟩

theorem savePage_quiet (s : Store F) (scopeRef : String) (epoch : Int) (page : List Settling) (cursor : Int) :
    Quiet s (savePage s scopeRef epoch page cursor) := by
  suffices saved : Quiet s (page.foldl (fun s settling =>
      recordSettlement s settling.identity settling.argsDigest scopeRef epoch settling.answer) s) from
    saved.trans ⟨rfl,rfl⟩
  induction page generalizing s with
  | nil => exact ⟨rfl,rfl⟩
  | cons settling rest ih => exact (recordSettlement_quiet s _ _ _ _ _).trans (ih _)

theorem deleteAwaiting_quiet (s : Store F) (identity : RequestIdentity) : Quiet s (deleteAwaiting s identity) := by
  unfold deleteAwaiting
  split
  next row here =>
    split
    next waiting =>
      refine ⟨?_,rfl⟩
      apply Table.ext
      intro other
      rw [get?_finished]
      by_cases same : other = identity.key
      · subst same
        rw [waits_of here waiting]
        simp [Option.filter]
      · simp [same,get?_finished]
    next => exact ⟨rfl,rfl⟩
  next => exact ⟨rfl,rfl⟩

theorem putGrant_quiet {s s' : Store F} {grant : StandingGrant} {id : String}
    (ok : putGrant s grant = .ok (id,s')) : Quiet s s' := by
  obtain ⟨put,_,ok⟩ := bind_ok ok
  cases ok
  exact ⟨rfl,rfl⟩

theorem putGranted_quiet {s s' : Store F} {granted : Option StandingGrant}
    (ok : putGranted s granted = .ok s') : Quiet s s' := by
  cases granted with
  | none =>
    cases ok
    exact ⟨rfl,rfl⟩
  | some grant =>
    obtain ⟨⟨_,_⟩,put,rfl⟩ := map_ok ok
    exact putGrant_quiet put

theorem saveWritePlan_quiet {s s' : Store F} {identity : RequestIdentity} {plan : ConsentWrite F}
    (ok : saveWritePlan s identity plan = .ok s') : Quiet s s' := by
  obtain ⟨_,_,ok⟩ := bind_ok ok
  cases ok
  exact ⟨rfl,rfl⟩

theorem openRequest_cases {s s' : Store F} {row saved : ConsentRequest F} {plan : Option (ConsentWrite F)}
    {inserted : Bool} (ok : openRequest s row plan = .ok (saved,inserted,s')) :
    ∃ middle, beginRequest s row = .ok (saved,middle) ∧ inserted = (loadRequest s row.identity).isNone ∧
      Quiet middle s' ∧ s'.requests = middle.requests := by
  obtain ⟨⟨saved',middle⟩,begun,ok⟩ := bind_ok ok
  cases plan with
  | none =>
    cases ok
    exact ⟨_,begun,rfl,⟨rfl,rfl⟩,rfl⟩
  | some plan =>
    obtain ⟨planned,kept,ok⟩ := bind_ok ok
    have quiet := saveWritePlan_quiet kept
    obtain ⟨_,_,kept⟩ := bind_ok kept
    cases kept
    cases ok
    exact ⟨middle,begun,rfl,quiet,rfl⟩

/-- A request that ended now, and the audit row of its end. -/
structure Ends (s s' : Store F) (identity : RequestIdentity) (digest tool : String) (outcome : Json F) : Prop where
  waited : s.finished.get? identity.key = none
  row : ∃ row : RequestRow F, row.argsDigest = digest ∧ row.outcome = some outcome ∧
    s'.finished = s.finished.insert identity.key row
  audit : ∃ timeMs target authorization, s'.audit =
    s.audit ++ [⟨s.audit.length + 1,timeMs,identity.agentId,tool,target,authorization,outcome⟩]

theorem finish_ends {s s' : Store F} {identity : RequestIdentity} {digest : String} {ending : Ending}
    {outcome : Json F} (ok : finishRequest s identity digest ending outcome = .ok s') (timeMs : Int)
    (action : String) (target : Json F) (authorization : Authorization) :
    Ends s (appendAudit s' timeMs identity.agentId action target authorization outcome) identity digest action outcome := by
  unfold finishRequest at ok
  split at ok
  next row here =>
    cases ok
    obtain ⟨here,holds⟩ := Option.filter_eq_some_iff.mp here
    rw [Bool.and_eq_true,beq_iff_eq,beq_iff_eq] at holds
    have ended : (row.finish ending outcome).state ≠ .awaiting := by
      intro same
      cases ending <;> cases same
    refine ⟨waits_of here holds.2,⟨row.finish ending outcome,holds.1,rfl,?_⟩,timeMs,target,authorization,rfl⟩
    apply Table.ext
    intro other
    rw [get?_finished,Table.get?_insert]
    simp only [appendAudit,Store.setRequest,Table.get?_insert]
    split
    next => simp [Option.filter,ended]
    next => rw [get?_finished]
  next => cases ok

theorem Quiet.ends {a b c : Store F} {identity : RequestIdentity} {digest tool : String} {outcome : Json F}
    (first : Quiet a b) (second : Ends b c identity digest tool outcome) : Ends a c identity digest tool outcome where
  waited := first.finished ▸ second.waited
  row := first.finished ▸ second.row
  audit := first.audit ▸ second.audit

/-- A refusal finishes the request, or answers with the outcome the request ended with before. -/
theorem refuseWrite_ok {s s' : Store F} {row : ConsentRequest F} {action : String} {target : Json F}
    {authorization : Authorization} {error : HandlerError F} {nowMs : Int} {outcome : Json F}
    (ok : refuseWrite s row action target authorization error nowMs = .ok (outcome,s')) :
    ∃ saved middle, beginRequest s row = .ok (saved,middle) ∧
      ((∃ done, finishRequest middle row.identity row.argsDigest .refused outcome = .ok done ∧
          s' = appendAudit done nowMs row.identity.agentId action target authorization outcome) ∨
        (saved.state ≠ .awaiting ∧ saved.outcome = some outcome ∧ s' = middle)) := by
  obtain ⟨⟨saved,middle⟩,begun,ok⟩ := bind_ok ok
  refine ⟨saved,middle,mapError_ok begun,?_⟩
  by_cases waiting : saved.state = .awaiting
  · simp only [waiting,ne_eq,not_true_eq_false,if_false] at ok
    obtain ⟨done,finished,ok⟩ := bind_ok ok
    cases ok
    exact .inl ⟨done,finished,rfl⟩
  · simp only [ne_eq,waiting,not_false_eq_true,if_true] at ok
    obtain ⟨held,there,ok⟩ := bind_ok ok
    cases ok
    exact .inr ⟨waiting,found_ok there,rfl⟩

theorem refuseWrite_cases {s s' : Store F} {row : ConsentRequest F} {action : String} {target : Json F}
    {authorization : Authorization} {error : HandlerError F} {nowMs : Int} {outcome : Json F}
    (ok : refuseWrite s row action target authorization error nowMs = .ok (outcome,s')) :
    (∃ saved, loadRequest s row.identity = some saved ∧ saved.argsDigest = row.argsDigest ∧
      saved.outcome = some outcome ∧ s' = s) ∨ Ends s s' row.identity row.argsDigest action outcome := by
  obtain ⟨saved,middle,begun,⟨done,finished,rfl⟩ | ⟨ended,told,rfl⟩⟩ := refuseWrite_ok ok
  · exact .inr ((beginRequest_quiet begun).ends (finish_ends finished nowMs action target authorization))
  · obtain ⟨here,digest,rfl⟩ | ⟨_,fresh,_,rfl,_⟩ := beginRequest_cases begun
    · exact .inl ⟨saved,here,digest,told,rfl⟩
    · exact absurd fresh ended

/-- A completion opens the request, stores the grant and finishes. -/
theorem complete_ok {s s' : Store F} {commit : ConsentCommit F} {outcome : Json F}
    (ok : complete s commit outcome = .ok s') :
    ∃ saved begun granted done, beginRequest s commit.request = .ok (saved,begun) ∧
      putGranted begun commit.granted = .ok granted ∧
      finishRequest granted commit.request.identity commit.request.argsDigest .applied outcome = .ok done ∧
      s' = appendAudit done commit.nowMs commit.request.identity.agentId commit.action commit.target.target
        commit.authorization outcome := by
  obtain ⟨⟨saved,begun⟩,opened,ok⟩ := bind_ok ok
  obtain ⟨granted,put,ok⟩ := bind_ok ok
  obtain ⟨done,finished,ok⟩ := bind_ok ok
  cases ok
  exact ⟨saved,begun,granted,done,opened,put,finished,rfl⟩

theorem complete_ends {s s' : Store F} {commit : ConsentCommit F} {outcome : Json F}
    (ok : complete s commit outcome = .ok s') :
    Ends s s' commit.request.identity commit.request.argsDigest commit.action outcome := by
  obtain ⟨_,_,_,_,opened,put,finished,rfl⟩ := complete_ok ok
  exact ((beginRequest_quiet opened).trans (putGranted_quiet put)).ends
    (finish_ends finished commit.nowMs commit.action commit.target.target commit.authorization)

theorem setProjectHireCap_ok {s s' : Store F} {project : String} {cap : Int}
    (ok : setProjectHireCap s project cap = .ok s') : s' = { s with caps := s.caps.insert project cap } := by
  obtain ⟨_,_,ok⟩ := bind_ok ok
  obtain ⟨_,_,ok⟩ := bind_ok ok
  exact (Except.ok.inj ok).symm

end Finished

section Admission
variable [DecidableEq F]

/-- What an admitted commit was checked for. -/
structure Admitted (site : Site) (s : Store F) (commit : ConsentCommit F) : Prop where
  valid : commit.request.identity.validate = .ok ()
  caller : ∃ row, loadRow s.directory commit.request.identity.agentId = some row ∧ row.status = "live"
  waits : ∀ request, loadRequest s commit.request.identity = some request →
    request.argsDigest = commit.request.argsDigest ∧ request.state = .awaiting
  plan : freshPlan site s commit.request.identity.agentId commit.target = .ok commit.target
  covers : ∀ id, commit.authorization = .grant id →
    (s.grants.rows.get? id).map (fun grant => (grant.grantClass,grant.scopeId)) =
      (commit.target.grantClass.bind fun grantClass => commit.target.scopeId.map (grantClass,·)) ∧
    grantLive s id commit.request.identity.agentId = true

theorem liveCaller_ok {d : Directory} {id : String} {row : Agents.AgentRow} (ok : liveCaller d id = .ok row) :
    loadRow d id = some row ∧ row.status = "live" := by
  obtain ⟨caller,known,ok⟩ := bind_ok ok
  obtain ⟨_,live,ok⟩ := bind_ok ok
  cases ok
  exact ⟨found_ok known,bne_eq_false_iff_eq.mp (reject_ok live)⟩

theorem checkPlan_ok {site : Site} {s : Store F} {caller : String} {plan : ConsentWrite F}
    (ok : checkPlan site s caller plan = .ok ()) : freshPlan site s caller plan = .ok plan := by
  obtain ⟨fresh,made,ok⟩ := bind_ok ok
  have same := bne_eq_false_iff_eq.mp (reject_ok ok)
  rw [made,same]

theorem admitCommit_cases {site : Site} {s : Store F} {commit : ConsentCommit F} {decided : Option (Json F)}
    (ok : admitCommit site s commit = .ok decided) :
    (∃ saved, loadRequest s commit.request.identity = some saved ∧ saved.argsDigest = commit.request.argsDigest ∧
      saved.state ≠ .awaiting ∧ decided = saved.outcome) ∨ (decided = none ∧ Admitted site s commit) := by
  obtain ⟨_,valid,ok⟩ := bind_ok ok
  obtain ⟨caller,live,ok⟩ := bind_ok ok
  have checks : (∀ request, loadRequest s commit.request.identity = some request →
      request.argsDigest = commit.request.argsDigest ∧ request.state = .awaiting) →
      (do
        checkPlan site s commit.request.identity.agentId commit.target
        checkCovers s commit.authorization commit.target
        checkLive s commit.authorization commit.request.identity.agentId
        return none : Except AgentMutationError (Option (Json F))) = .ok decided →
      decided = none ∧ Admitted site s commit := by
    intro waits ok
    obtain ⟨_,planned,ok⟩ := bind_ok ok
    obtain ⟨_,covered,ok⟩ := bind_ok ok
    obtain ⟨_,alive,ok⟩ := bind_ok ok
    cases ok
    refine ⟨rfl,valid,⟨caller,liveCaller_ok live⟩,waits,checkPlan_ok planned,?_⟩
    intro id given
    rw [given] at covered alive
    refine ⟨bne_eq_false_iff_eq.mp (reject_ok covered),?_⟩
    simpa using reject_ok alive
  cases held : loadRequest s commit.request.identity with
  | none =>
    simp only [held] at ok
    exact .inr (checks (by intro request there; cases held.symm.trans there) ok)
  | some saved =>
    simp only [held] at ok
    obtain ⟨_,same,ok⟩ := bind_ok ok
    have digest := bne_eq_false_iff_eq.mp (reject_ok same)
    by_cases waiting : saved.state = .awaiting
    · simp only [waiting,ne_eq,not_true_eq_false,if_false] at ok
      refine .inr (checks ?_ ok)
      intro request there
      cases held.symm.trans there
      exact ⟨digest,waiting⟩
    · simp only [ne_eq,waiting,not_false_eq_true,if_true] at ok
      cases ok
      exact .inl ⟨saved,rfl,digest,waiting,rfl⟩

/-- A write's transaction replays what was decided, or carries out an admitted write and completes it. -/
theorem mutation_cases {site : Site} {s s' : Store F} {commit : ConsentCommit F}
    {result : Except AgentMutationError (Directory × Json F)} {outcome : Json F}
    (ok : mutation site s commit result = .ok (outcome,s')) :
    (∃ saved, loadRequest s commit.request.identity = some saved ∧ saved.argsDigest = commit.request.argsDigest ∧
      saved.outcome = some outcome ∧ s' = s) ∨
    (Admitted site s commit ∧ ∃ directory, result = .ok (directory,outcome) ∧
      complete { s with directory := directory } commit outcome = .ok s') := by
  obtain ⟨decided,admitted,ok⟩ := bind_ok ok
  obtain ⟨saved,held,digest,ended,rfl⟩ | ⟨rfl,checked⟩ := admitCommit_cases admitted
  · cases told : saved.outcome with
    | none =>
      obtain ⟨row,_,rfl⟩ := loadRequest_some.mp held
      exact absurd (row.ended.mpr told) ended
    | some value =>
      simp only [told] at ok
      cases ok
      exact .inl ⟨saved,held,digest,told,rfl⟩
  · obtain ⟨⟨directory,value⟩,written,ok⟩ := bind_ok ok
    obtain ⟨done,completed,ok⟩ := bind_ok ok
    cases ok
    exact .inr ⟨checked,directory,written,completed⟩

end Admission

end Entorhinal.Consent
