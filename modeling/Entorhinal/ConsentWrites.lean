import Entorhinal.ConsentAnswers

/-! Every write of a call is backed by what the call learned: an own hire, a standing permission, or an
answer that approves it. -/
namespace Entorhinal.Consent

variable {F π : Type} [DecidableEq F]

theorem rowOk_fresh (said : List (Json F)) {row : ConsentRequest F} (fresh : row.settlement = none) : RowOk said row := by
  intro answer told
  cases fresh.symm.trans told

omit [DecidableEq F] in
theorem validatePlan_ok {provider : Provider F} {plan : ConsentWrite F} {tool digest : String} {target : String × String}
    (ok : validatePlan provider plan tool digest = .ok target) :
    plan.tool = tool ∧ provider.digest plan.arguments = digest := by
  by_contra other
  rw [not_and_or] at other
  rw [validatePlan,if_pos other] at ok
  cases ok

/-- A commit of this row and plan is backed, whenever it is made. -/
def Allowed (provider : Provider F) (row : ConsentRequest F) (plan : ConsentWrite F) (authorization : Authorization)
    (granted : Option StandingGrant) (m : Machine F π) : Prop :=
  ∀ now, Backed provider m.said ⟨row,authorization,row.identity.tool,plan,granted,now⟩

theorem lasts_allowed (provider : Provider F) (row : ConsentRequest F) (plan : ConsentWrite F) (authorization : Authorization)
    (granted : Option StandingGrant) : Lasts (Allowed (π := π) provider row plan authorization granted) :=
  fun _ _ allowed grow now => (allowed now).mono grow.said

theorem allowed_ownHire {provider : Provider F} {row : ConsentRequest F} {plan : ConsentWrite F} (m : Machine F π)
    (opened : Opened provider row plan) (tool : row.identity.tool = "agents_retire_hire") :
    Allowed provider row plan .ownHire none m := fun _ =>
  ⟨opened,(by intro id choice other; cases other),fun _ => tool,by intro grant other; cases other⟩

theorem allowed_grant {provider : Provider F} {row : ConsentRequest F} {plan : ConsentWrite F} (id : String) (m : Machine F π)
    (opened : Opened provider row plan) : Allowed provider row plan (.grant id) none m := fun _ =>
  ⟨opened,(by intro id choice other; cases other),(by intro other; cases other),by intro grant other; cases other⟩

omit [DecidableEq F] in
theorem approvalChoice_ok {answer : RecordedSettlement} {choice : String}
    (ok : approvalChoice (F := F) answer = .ok choice) :
    answer.choice = some choice ∧ choice ∈ writeApprovals ∧ answer.elicitationId ≠ "" := by
  unfold approvalChoice at ok
  split at ok
  next chosen told =>
    split at ok
    next approves =>
      split at ok
      next => cases ok
      next named =>
        cases ok
        refine ⟨told,?_,named⟩
        rcases approves with rfl | rfl | rfl <;> simp [writeApprovals]
    next => cases ok
  next => cases ok

theorem allowed_card {provider : Provider F} {row : ConsentRequest F} {plan : ConsentWrite F} {answer : RecordedSettlement} {choice : String}
    {granted : Option StandingGrant} {m : Machine F π} (opened : Opened provider row plan)
    (approved : DecisionOk m.said row.identity (.approved answer)) (ok : approvalChoice (F := F) answer = .ok choice)
    (permission : ∀ grant, granted = some grant → approvalGrant plan choice = .ok (some (grant.grantClass,grant.scopeId)) ∧
      grant.holderAgentId = row.identity.agentId ∧ grant.cardRef = answer.elicitationId) :
    Allowed provider row plan (.card answer.elicitationId choice) granted m := by
  intro now
  obtain ⟨⟨digest,told⟩,answered⟩ := approved
  obtain ⟨chosen,approves,named⟩ := approvalChoice_ok ok
  refine ⟨opened,?_,(by intro other; cases other),?_⟩
  · intro id other same
    cases same
    exact ⟨digest,answer,told,answered,chosen,rfl,named,approves⟩
  · intro grant same
    exact ⟨answer.elicitationId,choice,rfl,permission grant same⟩

section Functions
variable {site : Site} {directory : Directory} {provider : Provider F} {asked : π → Call F} {p : π}

theorem does_refuseAgentWrite {row : ConsentRequest F} {action : String} {target : Json F} {authorization : Authorization}
    {error : HandlerError F} (named : action = row.identity.tool) : Does site directory provider asked p
      (fun m => RowOk m.said row) (refuseAgentWrite row action target authorization error) fun _ _ => True := by
  refine Framed.bind (does_clock (lasts_row row).stable) fun now => ?_
  refine Framed.bind (does_sql (lasts_row row) (fun m ok => ⟨ok,(by intro commit writes; cases writes),fun _ => named⟩) rfl) fun answer => ?_
  cases answer with
  | outcome outcome => exact does_lift fun _ _ _ _ => trivial
  | _ => exact Framed.fail fun _ _ _ => trivial

/-- The write runs now, later or never. -/
theorem does_write {plan : ConsentWrite F} {commit : ConsentCommit F} :
    Does site directory provider asked p (fun m => Backed provider m.said commit) (perform (.write plan commit))
      fun _ m => Backed provider m.said commit := by
  have lasts : Lasts fun m : Machine F π => Backed provider m.said commit := fun _ _ backed grow => backed.mono grow.said
  refine does_effect (e := .write plan commit) lasts.stable ?_
  intro m choice answer m' inv backed taken
  have brought : ∀ result, Brought provider m.said (.applyConsentWrite plan commit result) := fun result =>
    ⟨(by intro answer told; cases backed.opened.fresh.symm.trans told),(by intro other same; cases same; exact backed),
      fun _ => trivial⟩
  cases choice with
  | run result =>
    cases taken
    obtain ⟨inv',grow,relied⟩ := apply_inv site (some p) inv (brought result) (by intro identity other; cases other)
    exact ⟨inv',grow,fun q other => relied q (by simpa using other),backed.mono grow.said⟩
  | lost e =>
    cases taken
    exact ⟨inv,.refl m,fun q _ => .refl q m,backed⟩
  | late e result =>
    cases taken
    obtain ⟨inv',grow,relied⟩ := later_inv (p := p) inv (brought result) (by intro identity other; cases other)
    exact ⟨inv',grow,relied,backed.mono grow.said⟩
  | _ => cases taken

theorem does_commitWrite {row : ConsentRequest F} {plan : ConsentWrite F} {authorization : Authorization}
    {granted : Option StandingGrant} : Does site directory provider asked p (Allowed provider row plan authorization granted)
      (commitWrite row plan authorization granted) fun _ _ => True := by
  refine Framed.bind (does_clock (lasts_allowed provider row plan authorization granted).stable) fun now => ?_
  refine Framed.bind (does_before does_write fun m allowed => allowed now) fun result => ?_
  cases result with
  | ok result =>
    show Does site directory provider asked p _ (if !result.isObject then _ else _) _
    split
    next => exact Framed.fail fun _ _ _ => trivial
    next => exact does_lift fun _ _ _ _ => trivial
  | error e =>
    show Does site directory provider asked p _ (if refusable.contains e.code then _ else _) _
    split
    next => exact does_before (does_refuseAgentWrite rfl) fun m backed => rowOk_fresh m.said backed.opened.fresh
    next => exact Framed.fail fun _ _ _ => trivial

theorem does_commitApproved {row : ConsentRequest F} {plan : ConsentWrite F} {answer : RecordedSettlement}
    (opened : Opened provider row plan) : Does site directory provider asked p (fun m => DecisionOk m.said row.identity (.approved answer))
      (commitApproved provider row plan answer) fun _ _ => True := by
  unfold commitApproved
  dsimp only
  split
  next => exact does_before (does_refuseAgentWrite rfl) fun m _ => rowOk_fresh m.said opened.fresh
  next choice approval =>
    obtain ⟨chosen,ok,approval⟩ := bind_ok approval
    obtain ⟨permission,_,approval⟩ := bind_ok approval
    cases approval
    exact does_before does_commitWrite fun m approved =>
      allowed_card opened approved ok (by intro grant other; cases other)
  next choice permission approval =>
    obtain ⟨chosen,ok,approval⟩ := bind_ok approval
    obtain ⟨shown,named,approval⟩ := bind_ok approval
    cases approval
    refine Framed.bind (does_clock (lasts_decision row.identity (.approved answer)).stable) fun now => ?_
    refine does_before does_commitWrite fun m approved => allowed_card opened approved ok ?_
    intro grant same
    cases same
    exact ⟨named,rfl,rfl⟩

theorem does_refuseDecided {row : ConsentRequest F} {plan : ConsentWrite F} {code : String} (opened : Opened provider row plan) :
    Does site directory provider asked p (fun _ => True) (refuseDecided row plan code) fun _ _ => True := by
  refine Framed.bind (does_saved (lasts_pure True).stable row.identity) fun saved => ?_
  cases saved with
  | none => exact Framed.fail fun _ _ _ => trivial
  | some saved => exact does_before (does_refuseAgentWrite rfl) fun m _ => rowOk_fresh m.said opened.fresh

theorem does_decide {row : ConsentRequest F} {plan : ConsentWrite F} {decision : Decision F} (opened : Opened provider row plan) :
    Does site directory provider asked p (fun m => DecisionOk m.said row.identity decision) (decide' provider row plan decision)
      fun _ _ => True := by
  cases decision with
  | pending id => exact Framed.fail fun _ _ _ => trivial
  | replay outcome => exact does_lift fun _ _ _ _ => trivial
  | approved answer => exact does_commitApproved opened
  | refused code =>
    show Does site directory provider asked p _ (if code = "consent_unavailable" then _ else _) _
    split
    next => exact Framed.fail fun _ _ _ => trivial
    next => exact does_before (does_refuseDecided opened) fun _ _ => trivial

theorem does_withCard {call : Call F} {saved : Option (ConsentRequest F)} {row : ConsentRequest F} {plan : ConsentWrite F}
    {kind label : String} (opened : Opened provider row plan) :
    Does site directory provider asked p (fun _ => True) (withCard provider call saved row plan kind label) fun _ _ => True := by
  refine Framed.bind (does_look (e := .agentName call.identity.agentId) (lasts_pure True).stable
    (fun _ _ _ _ taken => (reads_same taken).1) fun _ _ _ _ holds _ => holds) fun read => ?_
  refine Framed.bind (does_lift fun _ _ _ holds => holds) fun name => ?_
  cases name with
  | none => exact Framed.fail fun _ _ _ => trivial
  | some name =>
    dsimp only
    split
    next => exact Framed.fail fun _ _ _ => trivial
    next card _ =>
      have obtained : Does site directory provider asked p (fun _ => True)
          (obtainLeased call.owner call.turns row card (some plan)).attempt
          fun result m => ∀ decision, result = .ok decision → DecisionOk m.said row.identity decision := by
        refine Framed.attempt (does_obtainLeased opened.fresh) ?_ ?_
        · intro decision _ m ok other same
          cases same
          exact ok
        · intro e _ m _ decision other
          cases other
      refine Framed.bind obtained fun result => ?_
      cases result with
      | ok decision => exact does_before (does_decide opened) fun m ok => ok decision rfl
      | error e =>
        show Does site directory provider asked p _ (if lostCodes.contains e.code then _ else _) _
        split
        next => exact does_before (does_refuseAgentWrite rfl) fun m _ => rowOk_fresh m.said opened.fresh
        next => exact Framed.fail fun _ _ _ => trivial

theorem does_authorize {call : Call F} {saved : Option (ConsentRequest F)} {row : ConsentRequest F} {plan : ConsentWrite F}
    {kind label : String} (opened : Opened provider row plan) (identity : row.identity = call.identity) :
    Does site directory provider asked p (fun _ => True) (authorize provider call saved row plan kind label) fun _ _ => True := by
  have goes : ∀ grant : Option StandingGrant, Does site directory provider asked p (fun _ => True)
      (if call.identity.tool = "agents_retire_hire" then commitWrite row plan .ownHire none
        else grant.elim (withCard provider call saved row plan kind label) fun grant =>
          commitWrite row plan (.grant grant.id) none) fun _ _ => True := by
    intro grant
    split
    next tool =>
      exact does_before does_commitWrite fun m _ => allowed_ownHire m opened (by rw [identity]; exact tool)
    next =>
      cases grant with
      | some grant => exact does_before does_commitWrite fun m _ => allowed_grant grant.id m opened
      | none => exact does_withCard opened
  unfold authorize
  dsimp only
  split
  next grantClass scope _ _ =>
    refine Framed.bind (does_look (e := .covering call.identity.agentId grantClass scope) (lasts_pure True).stable
      (fun _ _ _ _ taken => (reads_same taken).1) fun _ _ _ _ holds _ => holds) fun read => ?_
    refine Framed.bind (does_lift fun _ _ _ holds => holds) fun grant => ?_
    cases grant with
    | some grant => exact goes (some grant)
    | none => exact goes none
  next =>
    refine Framed.bind (Q := fun _ _ _ => True) (Framed.pure fun _ _ _ => trivial) fun grant => ?_
    cases grant with
    | some grant => exact goes (some grant)
    | none => exact goes none

/-- What a call knows of a request that was read before. -/
def SavedOk (saved : Option (ConsentRequest F)) (m : Machine F π) : Prop := ∀ row, saved = some row → RowOk m.said row

theorem lasts_saved (saved : Option (ConsentRequest F)) : Lasts (SavedOk (π := π) saved) :=
  fun _ _ ok grow row same => (ok row same).mono grow.said

theorem does_withPlan {call : Call F} {saved : Option (ConsentRequest F)} {plan : ConsentWrite F}
    (named : ∀ row, saved = some row → call.identity.tool = row.identity.tool) :
    Does site directory provider asked p (SavedOk saved) (withPlan provider call saved plan) fun _ _ => True := by
  unfold withPlan
  dsimp only
  split
  next kind label valid =>
    have opened : ∀ now, Opened provider (freshRow call (provider.digest call.arguments) now) plan := fun now =>
      ⟨rfl,(validatePlan_ok valid).1,(validatePlan_ok valid).2⟩
    exact Framed.bind (does_clock (lasts_saved saved).stable) fun now =>
      does_before (does_authorize (opened now) rfl) fun _ _ => trivial
  next e _ =>
    split
    next row => exact does_before (does_refuseAgentWrite (named row rfl)) fun m ok => ok row rfl
    next => exact Framed.fail fun _ _ _ => trivial

theorem does_goOn {call : Call F} {saved : Option (ConsentRequest F)}
    (named : ∀ row, saved = some row → call.identity.tool = row.identity.tool) :
    Does site directory provider asked p (SavedOk saved) (goOn provider call saved) fun _ _ => True := by
  refine Framed.bind (does_lift fun _ _ _ ok => ok) fun _ => ?_
  refine Framed.bind (does_look (e := .lease call.identity) (lasts_saved saved).stable ?_ fun _ _ _ _ ok _ => ok) fun leased => ?_
  · intro m choice answer m' taken
    cases choice with
    | flag value => exact (congrArg Prod.snd (Option.some.inj taken)).symm
    | _ => cases taken
  split
  next => exact Framed.fail fun _ _ _ => trivial
  next =>
    cases saved with
    | some request =>
      refine Framed.bind (does_look (e := .writePlan call.identity) (lasts_saved (some request)).stable
        (fun _ _ _ _ taken => (reads_same taken).1) fun _ _ _ _ ok _ => ok) fun read => ?_
      split
      next plan => exact does_withPlan named
      next => exact does_before (does_refuseAgentWrite (named request rfl)) fun m ok => ok request rfl
    | none =>
      refine Framed.bind (does_clock (lasts_saved none).stable) fun now => ?_
      refine Framed.bind (does_look (e := .precheck call.identity.agentId call.identity.tool call.arguments now)
        (lasts_saved none).stable ?_ fun _ _ _ _ ok _ => ok) fun read => ?_
      · intro m choice answer m' taken
        cases choice with
        | run result => exact (congrArg Prod.snd (Option.some.inj taken)).symm
        | lost e => exact (congrArg Prod.snd (Option.some.inj taken)).symm
        | _ => cases taken
      · exact Framed.bind (does_lift fun _ _ _ ok => ok) fun plan => does_withPlan named

theorem does_execute {call : Call F} :
    Does site directory provider asked p (fun _ => True) (executeAgentTool provider call) fun _ _ => True := by
  refine Framed.bind (does_saved (lasts_pure True).stable call.identity) fun saved => ?_
  cases saved with
  | none => exact does_before (does_goOn (by intro row other; cases other)) fun m _ row other => by cases other
  | some saved =>
    show Does site directory provider asked p _ (if saved.argsDigest ≠ provider.digest call.arguments then _ else _) _
    split
    next => exact Framed.fail fun _ _ _ => trivial
    next =>
      split
      next =>
        split
        next => exact does_lift fun _ _ _ _ => trivial
        next => exact Framed.fail fun _ _ _ => trivial
      next =>
        refine Framed.known (p := saved.identity = call.identity) (fun _ m holds => (holds.2 saved rfl).2) fun same => ?_
        refine does_before (does_goOn ?_) fun m holds row is => ?_
        · intro row is
          cases is
          rw [same]
        · cases is
          exact (holds.2 saved rfl).1

/-- Every state that tool calls, late transactions and the console reach together. -/
theorem reached_inv [DecidableEq π] {directory : Directory} {c : Parties.Config π (Machine F π) (Effect F) Effect.Result Unit}
    (reached : Transition.Reach (calls site provider asked).next Transition.Free
      ((calls site provider asked).initial (.start directory)) c) : Inv site provider directory c.world := by
  refine Parties.Pact.run (A := pact site directory provider asked) ?_ (fun _ _ _ => outside_inv) (.start site provider directory) reached
  intro p _ m _
  refine Discipline.Safe.bind (does_execute.safe (l := ()) trivial) ?_
  exact fun _ _ _ => trivial

end Functions

end Entorhinal.Consent
