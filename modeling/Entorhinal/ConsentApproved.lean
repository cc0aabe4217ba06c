import Entorhinal.ConsentWrites

/-! Tool calls together, in every interleaving, with crashes, late transactions and lost replies: what was
written under a card was approved on it, a request has one card, and no answer is lost. -/
namespace Entorhinal.Consent

open Transition (exec exec_reach)

variable {F π : Type} [DecidableEq F] [DecidableEq π]

/-- The states that tool calls, late transactions and the console reach together. -/
abbrev Called (site : Site) (provider : Provider F) (asked : π → Call F) (directory : Directory)
    (c : Parties.Config π (Machine F π) (Effect F) Effect.Result Unit) : Prop :=
  Transition.Reach (calls site provider asked).next Transition.Free
    ((calls site provider asked).initial (.start directory)) c

/-- What a write was made under. A card that approves it was shown for this very request and its arguments. -/
structure Approved (provider : Provider F) (m : Machine F π) (commit : ConsentCommit F) : Prop where
  tool : commit.target.tool = commit.request.identity.tool
  arguments : provider.digest commit.target.arguments = commit.request.argsDigest
  card : ∀ id choice, commit.authorization = .card id choice →
    (⟨commit.request.identity,commit.request.argsDigest⟩ : Binding) ∈ m.shown ∧ choice ∈ writeApprovals ∧ id ≠ "" ∧
    ∃ record ∈ m.said, ∃ settledAtMs, settlement record = some ⟨"answered",some choice,id,settledAtMs⟩ ∧
      Binding.read (record.field "binding") = some ⟨commit.request.identity,commit.request.argsDigest⟩
  ownHire : commit.authorization = .ownHire → commit.request.identity.tool = "agents_retire_hire"
  granted : ∀ grant, commit.granted = some grant → ∃ choice, commit.authorization = .card grant.cardRef choice ∧
    approvalGrant commit.target choice = .ok (some (grant.grantClass,grant.scopeId)) ∧
    grant.holderAgentId = commit.request.identity.agentId

omit [DecidableEq π] in
theorem Inv.approved {site : Site} {provider : Provider F} {directory : Directory} {m : Machine F π}
    {commit : ConsentCommit F} (inv : Inv site provider directory m) (inside : commit ∈ m.commits) :
    Approved provider m commit := by
  obtain ⟨backed,row,ended,digest⟩ := inv.commits commit inside
  refine ⟨backed.opened.tool,backed.opened.arguments,?_,backed.ownHire,?_⟩
  · intro id choice under
    obtain ⟨shownDigest,answer,⟨record,said,told,read⟩,answered,chosen,named,real,approves⟩ := backed.card id choice under
    -- the digest on the card is that of the stored request, and so is that of the write
    have shown := inv.heard record said _ read
    obtain ⟨_,stored,here,same⟩ := inv.shown _ shown
    obtain ⟨there,_⟩ := finished_some.mp ended
    cases here.symm.trans there
    cases same.symm.trans digest
    obtain ⟨state,given,card,settledAtMs⟩ := answer
    cases answered
    cases chosen
    cases named
    exact ⟨shown,approves,real,record,said,settledAtMs,told,read⟩
  · intro grant gives
    obtain ⟨id,choice,under,permission,holder,card⟩ := backed.granted grant gives
    cases card
    exact ⟨choice,under,permission,holder⟩

/-- Every write was made for the arguments its request was opened with; one under a card was approved on a
card of this request and these arguments, and grants no more than its answer says. -/
theorem writes_approved {site : Site} {provider : Provider F} {asked : π → Call F} {directory : Directory}
    {c : Parties.Config π (Machine F π) (Effect F) Effect.Result Unit} (called : Called site provider asked directory c) :
    ∀ commit ∈ c.world.commits, Approved provider c.world commit :=
  fun _ inside => (reached_inv called).approved inside

/-- A request is sent for one card at most, and while it may stand the request is kept as it was shown. -/
theorem one_card_each {site : Site} {provider : Provider F} {asked : π → Call F} {directory : Directory}
    {c : Parties.Config π (Machine F π) (Effect F) Effect.Result Unit} (called : Called site provider asked directory c) :
    (c.world.shown.map Binding.identity).Nodup ∧
    ∀ binding ∈ c.world.shown, ∃ row, c.world.world.store.requests.get? binding.identity.key = some row ∧
      row.argsDigest = binding.argsDigest := by
  have inv := reached_inv called
  exact ⟨inv.once,fun binding shown => (inv.shown binding shown).2⟩

/-- No answer is made up, and none is lost: a stored one was said of its request, and what was acknowledged
was saved before, with every answer that a request still waited for. -/
theorem answers_kept {site : Site} {provider : Provider F} {asked : π → Call F} {directory : Directory}
    {c : Parties.Config π (Machine F π) (Effect F) Effect.Result Unit} (called : Called site provider asked directory c) :
    (∀ identity row answer, c.world.world.store.requests.get? identity.key = some row → row.settlement = some answer →
      ∃ record ∈ c.world.said, settlement record = some answer ∧
        Binding.read (record.field "binding") = some ⟨identity,row.argsDigest⟩) ∧
    (∀ owner cursor, (owner,cursor) ∈ c.world.acked → ∃ page ∈ c.world.saved, page.owner = owner ∧ page.cursor = cursor) ∧
    (∀ page ∈ c.world.saved, (∀ settling ∈ page.answers, Recorded c.world.world.store page.owner settling) ∧
      page.cursor ≤ consentFeedCursor c.world.world.store page.owner.scopeRef page.owner.epoch) := by
  have inv := reached_inv called
  refine ⟨fun identity row answer here told => inv.settled identity row answer here told,
    fun owner cursor acked => inv.acked (owner,cursor) acked,?_⟩
  intro page saved
  refine ⟨fun settling told => (inv.recorded page saved settling told).2,?_⟩
  obtain ⟨held,here,le⟩ := inv.saved page saved
  rw [consentFeedCursor,here]
  exact le

/-- To the store, tool calls are a run of its transactions. -/
theorem called_reached {site : Site} {provider : Provider F} {asked : π → Call F} {directory : Directory}
    {c : Parties.Config π (Machine F π) (Effect F) Effect.Result Unit} (called : Called site provider asked directory c) :
    Reached site directory c.world.world := (reached_inv called).world

/-! A reply is lost after the card was shown; the next call finds the answer in the feed and writes. -/
namespace Registered

def provider : Provider Empty :=
  ⟨fun _ => "7ba6284f35047e019055989b612fc4a8afae7633250e389207202d03ab0b1312",
    fun _ => "ent1:f243e5788912a0a26cef9d9ed9a17647269815abfe5c96d4ac7c6a613fa7f504",fun _ _ => .ok ()⟩

def call : Call Empty := ⟨identity,arguments,⟨"scope",1⟩,8⟩

def binding : Binding := ⟨identity,provider.digest arguments⟩

def record : Json Empty :=
  .objectOf [("kind",.string "consent"),("binding",binding.json),("state",.string "answered"),
    ("answered_choice_id",.string "approve_always_workspace"),("elicitation_id",.string "card"),("answered_at_ms",jsonInt 6)]

def page : Json Empty := .objectOf [("records",.array [record]),("cursor",jsonInt 3)]

def runs : Choice Empty := .run (.ok (directory,outcome))

def replied (reply : Json Empty) : Choice Empty := .reply (.ok reply)

/-- The card is shown and its reply is lost; the second call finds the answer in the feed. -/
def choices : List (Choice Empty) × List (Choice Empty) :=
  ([runs,.flag true,.clock 5,runs,.clock 5,runs,runs,runs,.clock 5,.flag true,.reply (.error .ambiguous),.clock 6],
    [runs,.flag true,runs,.clock 7,runs,runs,.clock 7,.flag true,runs,replied page,runs,
      replied (.objectOf [("ok",.bool true)]),runs,.clock 7,.clock 7,.clock 7,runs])

def turn (choices : List (Choice Empty)) : List (Parties.Label Unit (Choice Empty) (Outside Empty)) :=
  .begin () :: (choices.map fun choice => Parties.Label.act () choice) ++ [.finish ()]

def system : Parties Unit (Machine Empty Unit) (Effect Empty) Effect.Result (Choice Empty) Unit (Outside Empty) :=
  calls site provider fun _ => call

def ran : Option (Parties.Config Unit (Machine Empty Unit) (Effect Empty) Effect.Result Unit) :=
  exec system.next (system.initial (.start directory)) (turn choices.1 ++ turn choices.2)

theorem approved_later : ∃ c, ran = some c ∧ ∃ commit ∈ c.world.commits,
    commit.authorization = .card "card" "approve_always_workspace" ∧ Approved provider c.world commit := by
  have facts : ran.any (fun c => c.world.commits.any fun commit =>
      decide (commit.authorization = .card "card" "approve_always_workspace")) = true := by decide +kernel
  obtain ⟨c,done,facts⟩ := (Option.any_eq_true _ _).mp facts
  obtain ⟨commit,inside,under⟩ := List.any_eq_true.mp facts
  exact ⟨c,done,commit,inside,of_decide_eq_true under,writes_approved (exec_reach done) commit inside⟩

theorem shown_once : ∃ c, ran = some c ∧ c.world.shown = [binding] ∧
    ∃ row, c.world.world.store.requests.get? identity.key = some row ∧ row.argsDigest = binding.argsDigest := by
  have facts : ran.any (fun c => decide (c.world.shown = [binding])) = true := by decide +kernel
  obtain ⟨c,done,shown⟩ := (Option.any_eq_true _ _).mp facts
  have shown := of_decide_eq_true shown
  exact ⟨c,done,shown,(one_card_each (exec_reach done)).2 binding (by rw [shown]; exact List.mem_cons_self)⟩

theorem called_reached_once : ∃ c, ran = some c ∧ c.world.world.store.audit.length = 1 ∧ Reached site directory c.world.world := by
  have facts : ran.any (fun c => decide (c.world.world.store.audit.length = 1)) = true := by decide +kernel
  obtain ⟨c,done,once⟩ := (Option.any_eq_true _ _).mp facts
  exact ⟨c,done,of_decide_eq_true once,called_reached (exec_reach done)⟩

theorem answer_kept : ∃ c, ran = some c ∧ c.world.acked = [(⟨"scope",1⟩,3)] ∧
    ∃ page ∈ c.world.saved, page.cursor = 3 ∧ ∀ settling ∈ page.answers, Recorded c.world.world.store page.owner settling := by
  have facts : ran.any (fun c => decide (c.world.acked = [(⟨"scope",1⟩,3)])) = true := by decide +kernel
  obtain ⟨c,done,acked⟩ := (Option.any_eq_true _ _).mp facts
  have acked := of_decide_eq_true acked
  obtain ⟨_,saved,kept⟩ := answers_kept (exec_reach done)
  obtain ⟨page,inside,_,cursor⟩ := saved ⟨"scope",1⟩ 3 (by rw [acked]; exact List.mem_cons_self)
  exact ⟨c,done,acked,page,inside,cursor,(kept page inside).1⟩

end Registered

end Entorhinal.Consent
