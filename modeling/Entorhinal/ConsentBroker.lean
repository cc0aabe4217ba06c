import Entorhinal.ConsentRuns
import Entorhinal.Program
import Entorhinal.RemoteEntry

/-! A tool call that needs consent: the request and its card, the answers read from the other module and
from its feed, and the write or the refusal that ends it. Every transaction and every message is one effect. -/
namespace Entorhinal.Consent

open Remote (asI64)

variable {F : Type}

def AWAIT_MS : Int := 100000
def CARD_LIFETIME_MS : Int := 600000
def AMBIGUOUS_LIFETIME_MS : Int := 660000
def RETENTION_MS : Int := 86400000

structure Owner where
  scopeRef : String
  epoch : Int
deriving DecidableEq, Repr

section Records

def jsonInt (n : Int) : Json F :=
  .number (if 0 ≤ n then .posInt (Fin.ofNat _ n.toNat) else .negInt (Fin.ofNat _ (-n - 1).toNat))

structure Binding where
  identity : RequestIdentity
  argsDigest : String
deriving DecidableEq, Repr

def Binding.forRequest (row : ConsentRequest F) : Binding := ⟨row.identity,row.argsDigest⟩

def Binding.json (binding : Binding) : Json F :=
  .objectOf [("agent_id",.string binding.identity.agentId),("tool",.string binding.identity.tool),
    ("request_key",.string binding.identity.requestKey),("args_digest",.string binding.argsDigest)]

def Binding.fields : List String := ["agent_id","tool","request_key","args_digest"]

/-- Strict about unknown fields. -/
def Binding.read (value : Json F) : Option Binding := do
  let members ← value.members
  let agentId ← (value.field "agent_id").asStr
  let tool ← (value.field "tool").asStr
  let requestKey ← (value.field "request_key").asStr
  let argsDigest ← (value.field "args_digest").asStr
  if members.all fun member => Binding.fields.contains member.1 then
    return ⟨⟨agentId,tool,requestKey⟩,argsDigest⟩
  else none

def finalStates : List String := ["answered","expired","withdrawn"]

/-- The answer a record tells, if it is a final one of a consent card. -/
def settlement [DecidableEq F] (record : Json F) : Option RecordedSettlement := do
  if record.field "kind" = .string "consent" ∧ (record.field "binding").isObject then
    let state ← (record.field "state").asStr
    if finalStates.contains state then
      let choice ← if state = "answered" then some <$> (record.field "answered_choice_id").asStr else some none
      let elicitationId ← (record.field "elicitation_id").asStr
      let settledAtMs ← asI64 (record.field "answered_at_ms")
      return ⟨state,choice,elicitationId,settledAtMs⟩
    else none
  else none

/-- The answers of a page that name a request. -/
def settlings [DecidableEq F] (records : List (Json F)) : List Settling :=
  records.filterMap fun record => do
    let answer ← settlement record
    let binding ← Binding.read (record.field "binding")
    if binding.identity.validate.toBool then return ⟨binding.identity,binding.argsDigest,answer⟩ else none

inductive Decision (F : Type)
  | approved (answer : RecordedSettlement)
  | refused (code : String)
  | pending (elicitationId : Option String)
  | replay (outcome : Json F)

def approvals : List String :=
  ["approve_once","approve_always_workspace","approve_always_project","approve_always_publisher"]

def settledDecision (answer : RecordedSettlement) (now : Int) : Decision F :=
  if now - answer.settledAtMs ≥ RETENTION_MS then .refused "consent_lost"
  else if answer.state = "answered" then
    match answer.choice with
    | some choice =>
      if approvals.contains choice then .approved answer
      else if choice = "deny" then .refused "consent_declined"
      else .refused "consent_lost"
    | none => .refused "consent_lost"
  else if answer.state = "expired" then .refused "consent_expired"
  else .refused "consent_lost"

def recordedDecision (row : ConsentRequest F) (now : Int) : Option (Decision F) :=
  row.settlement.map (settledDecision · now)

def unresolved (row : ConsentRequest F) (now : Int) : Decision F :=
  if row.elicitationId.isNone ∧ now - row.createdAtMs ≥ AMBIGUOUS_LIFETIME_MS then .refused "consent_lost"
  else .pending row.elicitationId

end Records

section Cards

structure CardContext (F : Type) where
  callerLabel : String
  targetKind : String
  targetLabel : String
  targetScope : Json F

def alwaysChoice (tool : String) : Option String :=
  if tool = "projects_register" ∨ tool = "agents_create_head" then some "approve_always_workspace"
  else if tool = "agents_hire" then some "approve_always_project"
  else none

def cardAction (tool : String) : Option String :=
  if tool = "projects_create_workspace" then some "create workspace"
  else if tool = "projects_register" then some "register project"
  else if tool = "agents_create_head" then some "create project head"
  else if tool = "agents_hire" then some "hire agent"
  else none

def cardOption (id label effect : String) : Json F :=
  .objectOf [("id",.string id),("label",.string label),("effect",.string effect)]

def alwaysLabel (choice : String) : String :=
  if choice = "approve_always_workspace" then "Approve always for this workspace"
  else "Approve always for this project"

def cardOptions (tool : String) : List (Json F) :=
  cardOption "approve_once" "Approve once" "grant" ::
    ((alwaysChoice tool).map fun choice => cardOption choice (alwaysLabel choice) "grant").toList ++
    [cardOption "deny" "Deny" "decline"]

/-- The card of an agent's write; `externalKey` digests the identity of the request. -/
def renderCard (externalKey : RequestIdentity → String) (row : ConsentRequest F) (context : CardContext F) :
    Except (HandlerError F) (Json F) :=
  match cardAction row.identity.tool with
  | none => .error ⟨"invalid_request","this action has no consent card",none⟩
  | some action =>
    let key : Json F := .string (externalKey row.identity)
    let subject := context.callerLabel
    let card : Json F := .objectOf
      [("kind",.string "consent"),("title",.string s!"{subject}: {action} {context.targetLabel}"),
        ("prompt",.string s!"{subject} requests permission to {action} {context.targetLabel}."),
        ("target",.objectOf [("kind",.string context.targetKind),("label",.string context.targetLabel)]),
        ("urgency",.string "high"),("options",.array (cardOptions row.identity.tool)),("default",.string "deny"),
        ("on_expiry",.string "deny"),("material_damage",.bool false),("late_execution",.string "notify_only"),
        ("expires_in_ms",jsonInt CARD_LIFETIME_MS),
        ("scope",.objectOf [("action",.string row.identity.tool),("target",context.targetScope)]),
        ("dedup_key",key),("requester_ref",key),("binding",(Binding.forRequest row).json)]
    match (context.targetScope.field "domain").asStr with
    | some domain =>
      if row.identity.tool = "projects_register" then
        .ok (card.set "facts" (.array [.objectOf [("label",.string "Memory domain"),("value",.string domain)]]))
      else .ok card
    | none => .ok card

end Cards

section Effects

inductive ConsentError
  | refused (code : String)
  | ambiguous
  | invalidReply
deriving DecidableEq, Repr

/-- A transaction that is none of a write, a read, a message, or a question to the machine. -/
inductive Effect (F : Type)
  | tx (tx : Tx F)
  | write (plan : ConsentWrite F) (commit : ConsentCommit F)
  | loadRequest (identity : RequestIdentity)
  | writePlan (identity : RequestIdentity)
  | precheck (caller tool : String) (arguments : Json F) (now : Int)
  | covering (holder : String) (grantClass : GrantClass) (scope : String)
  | feedCursor (owner : Owner)
  | agentName (id : String)
  | clock
  | lease (identity : RequestIdentity)
  | connect
  | request (binding : Binding) (card : Json F)
  | get (elicitationId : String)
  | await (elicitationId : String)
  | detach (elicitationId : String)
  | answers (owner : Owner) (since : Int)
  | ack (owner : Owner) (cursor : Int)

abbrev Reply (F : Type) := Except ConsentError (Json F)

@[reducible] def Effect.Result : Effect F → Type
  | .tx _ => Except (HandlerError F) (Answer F)
  | .write _ _ => Except (HandlerError F) (Json F)
  | .loadRequest _ => Except (HandlerError F) (Option (ConsentRequest F))
  | .writePlan _ => Except (HandlerError F) (Option (ConsentWrite F))
  | .precheck _ _ _ _ => Except (HandlerError F) (ConsentWrite F)
  | .covering _ _ _ => Except (HandlerError F) (Option StandingGrant)
  | .feedCursor _ => Except (HandlerError F) Int
  | .agentName _ => Except (HandlerError F) (Option String)
  | .clock => Int
  | .lease _ => Bool
  | .connect => Bool
  | .request _ _ => Reply F
  | .get _ => Reply F
  | .await _ => Reply F
  | .detach _ => Reply F
  | .answers _ _ => Reply F
  | .ack _ _ => Reply F

abbrev Act (F α : Type) := Task (Effect F) Effect.Result Unit (HandlerError F) α

def perform (e : Effect F) : Act F e.Result := Task.effect e

def lift {α : Type} : Except (HandlerError F) α → Act F α
  | .ok value => pure value
  | .error e => Task.fail e

def clock : Act F Int := perform .clock

def sql (tx : Tx F) : Act F (Answer F) := do lift (← perform (.tx tx))

def readRequest (identity : RequestIdentity) : Act F (Option (ConsentRequest F)) := do
  lift (← perform (.loadRequest identity))

def consentLost (message : String) : HandlerError F := ⟨"consent_lost",message,none⟩

/-- The same read, as the tool makes it. -/
def readSaved (identity : RequestIdentity) : Act F (Option (ConsentRequest F)) := do
  let read ← perform (.loadRequest identity)
  lift (read.mapError fun e => consentLost s!"stored consent request could not be read: {e.code}: {e.message}")

end Effects

section Resolve
variable [DecidableEq F]

inductive RecordDecision (F : Type)
  | pending
  | mismatch
  | settled (decision : Decision F)

/-- Only a record of this card and of this request counts. -/
def mismatches (row : ConsentRequest F) (record : Json F) : Bool :=
  record.get? "binding" != some (Binding.forRequest row).json ||
    (record.field "elicitation_id").asStr != row.elicitationId

def inspectSettled (row : ConsentRequest F) (answer : RecordedSettlement) (now : Int) : Act F (RecordDecision F) := do
  let _ ← sql (.recordSettlement row.identity row.argsDigest row.scopeRef row.scopeEpoch answer)
  match ← readRequest row.identity with
  | none => Task.fail ⟨"consent_lost","request disappeared after settlement",none⟩
  | some saved => pure (.settled ((recordedDecision saved now).getD (.refused "consent_lost")))

def inspectRecord (row : ConsentRequest F) (record : Json F) : Act F (RecordDecision F) := do
  let now ← clock
  if mismatches row record then pure .mismatch
  else if record.field "state" = .string "pending" then pure .pending
  else match settlement record with
    | some answer => inspectSettled row answer now
    | none =>
      if (record.field "state").asStr.any finalStates.contains then pure (.settled (.refused "invalid_reply"))
      else pure .mismatch

/-- The pages of the feed, at most so many before the deadline: each is saved before it is acknowledged. -/
def capturePages (owner : Owner) : Nat → Int → Act F (Int × Bool)
  | 0,cursor => pure (cursor,false)
  | turns + 1,cursor => do
    match ← perform (.answers owner cursor) with
    | .error _ => pure (cursor,false)
    | .ok page =>
      match (page.field "records").asArray,(asI64 (page.field "cursor")).filter (decide <| cursor ≤ ·) with
      | some records,some next =>
        if (page.get? "continuation").any fun value => asI64 value != some next || decide (next ≤ cursor) then
          pure (cursor,false)
        else
          match ← perform (.tx (.savePage owner.scopeRef owner.epoch (settlings records) next)) with
          | .error _ => pure (cursor,false)
          | .ok _ =>
            match ← perform (.ack owner next) with
            | .error _ => pure (next,false)
            | .ok reply =>
              if reply.field "ok" ≠ .bool true then pure (next,false)
              else if (page.get? "continuation").isNone then pure (next,true)
              else capturePages owner turns next
      | _,_ => pure (cursor,false)

def captureFeed (owner : Owner) (turns : Nat) : Act F (Int × Bool) := do
  match ← perform (.feedCursor owner) with
  | .error _ => pure (0,false)
  | .ok cursor => capturePages owner turns cursor

def leaveUnresolved (row : ConsentRequest F) : Act F (Decision F) := do return unresolved row (← clock)

/-- Detached before the call returns; an answer that races with it still belongs to this call. -/
def detachCard (current : ConsentRequest F) (id : String) : Act F (Decision F) := do
  match ← perform (.detach id) with
  | .error _ => pure (.pending (some id))
  | .ok record =>
    match ← inspectRecord current record with
    | .settled decision => pure decision
    | _ => pure (.pending (some id))

def awaitCard (current : ConsentRequest F) (id : String) : Act F (Decision F) := do
  match ← perform (.await id) with
  | .error _ => detachCard current id
  | .ok record =>
    match ← inspectRecord current record with
    | .settled decision => pure decision
    | .mismatch => pure (.pending (some id))
    | .pending => detachCard current id

def resumeCard (current : ConsentRequest F) (id : String) : Act F (Decision F) := do
  match ← perform (.get id) with
  | .error (.refused code) =>
    if code = "elicitation_not_found" ∨ code = "elicitation_not_owner" then pure (.refused "consent_lost")
    else pure (.pending (some id))
  | .error _ => pure (.pending (some id))
  | .ok record =>
    match ← inspectRecord current record with
    | .settled decision => pure decision
    | .mismatch => pure (.pending (some id))
    | .pending => awaitCard current id

/-- A request without a known card: what the feed tells. -/
def fromFeed (row : ConsentRequest F) (owner : Owner) (turns : Nat) : Act F (Decision F) := do
  let capture ← captureFeed owner turns
  if !capture.2 then leaveUnresolved row
  else
    match ← readRequest row.identity with
    | none => Task.fail ⟨"consent_lost","awaiting request disappeared during feed capture",none⟩
    | some saved =>
      let now ← clock
      match recordedDecision saved now with
      | some decision => pure decision
      | none => leaveUnresolved saved

def giveUp (row : ConsentRequest F) : Act F (Decision F) := do
  let _ ← sql (.deleteAwaiting row.identity)
  pure (.refused "consent_unavailable")

/-- The card is shown by the call that opened the request, and never again. -/
def showCard (row : ConsentRequest F) (card : Json F) : Act F (Decision F) := do
  match ← perform (.request (.forRequest row) card) with
  | .ok reply =>
    match (reply.field "elicitation_id").asStr.filter (· != "") with
    | none => leaveUnresolved row
    | some id =>
      let _ ← sql (.setElicitation row.identity id)
      awaitCard { row with elicitationId := some id } id
  | .error (.refused code) => if code ≠ "cancelled" then giveUp row else leaveUnresolved row
  | .error _ => leaveUnresolved row

def resolveOnRoute (row : ConsentRequest F) (card : Json F) (inserted : Bool) (owner : Owner) (turns : Nat) :
    Act F (Decision F) :=
  if inserted then showCard row card
  else match row.elicitationId with
    | none => fromFeed row owner turns
    | some id => resumeCard row id

def resolve (owner : Owner) (turns : Nat) (row : ConsentRequest F) (card : Json F) (inserted : Bool) :
    Act F (Decision F) := do
  if row.state ≠ .awaiting then
    match row.outcome with
    | some outcome => pure (.replay outcome)
    | none => Task.fail ⟨"consent_lost","terminal request has no outcome",none⟩
  else if row.scopeRef ≠ owner.scopeRef ∨ row.scopeEpoch ≠ owner.epoch then pure (.refused "consent_lost")
  else
    let now ← clock
    match recordedDecision row now with
    | some decision => pure decision
    | none =>
      let connected ← perform .connect
      if connected then resolveOnRoute row card inserted owner turns
      else if inserted then giveUp row
      else leaveUnresolved row

def obtainLeased (owner : Owner) (turns : Nat) (row : ConsentRequest F) (card : Json F)
    (plan : Option (ConsentWrite F)) : Act F (Decision F) := do
  match ← sql (.openRequest row plan) with
  | .opened saved inserted => resolve owner turns saved card inserted
  | _ => Task.fail ⟨"storage_error","no request was opened",none⟩

end Resolve

section Tools
variable [DecidableEq F]

/-- What the provider's libraries answer: digests, and the check of a tool's arguments. -/
structure Provider (F : Type) where
  digest : Json F → String
  externalKey : RequestIdentity → String
  validArguments : String → Json F → Except (HandlerError F) Unit

structure Call (F : Type) where
  identity : RequestIdentity
  arguments : Json F
  owner : Owner
  /-- How many pages of the feed can be read before the deadline. -/
  turns : Nat

def pendingError (id : Option String) : HandlerError F :=
  ⟨"consent_pending","consent has not settled; retry with the same request key",
    some (.objectOf [("elicitation_id",optional id)])⟩

/-- The standing permission a choice asks for, in the scope the card showed. -/
def approvalGrant (plan : ConsentWrite F) (choice : String) :
    Except (HandlerError F) (Option (GrantClass × String)) :=
  if choice = "approve_once" then .ok none
  else
    let shown : Option String :=
      if choice = "approve_always_workspace" ∧ plan.tool = "projects_register" ∧ plan.grantClass = some .registerProject then
        (plan.target.field "workspace_id").asStr
      else if choice = "approve_always_workspace" ∧ plan.tool = "agents_create_head" ∧ plan.grantClass = some .createHead then
        ((plan.target.field "placement").field "workspace_id").asStr
      else if choice = "approve_always_project" ∧ plan.tool = "agents_hire" ∧ plan.grantClass = some .hire then
        ((plan.target.field "placement").field "project_id").asStr
      else none
    match plan.grantClass,plan.scopeId.filter (· != "") with
    | some grantClass,some scope =>
      if shown = some scope then .ok (some (grantClass,scope))
      else .error ⟨"invalid_reply","approval choice does not match this action's grant class and scope",none⟩
    | _,_ => .error ⟨"invalid_reply","approval choice does not match this action's grant class and scope",none⟩

/-- A stored plan must be of this tool and of these arguments, and name its target. -/
def validatePlan (provider : Provider F) (plan : ConsentWrite F) (tool digest : String) :
    Except (HandlerError F) (String × String) :=
  if plan.tool ≠ tool ∨ provider.digest plan.arguments ≠ digest then
    .error (consentLost "stored consent plan does not match its request arguments")
  else
    let required : Option (Json F) :=
      if tool = "projects_create_workspace" then some (plan.target.field "workspace_id")
      else if tool = "projects_register" then some (plan.target.field "dir")
      else if tool = "agents_create_head" then some ((plan.target.field "placement").field "project_id")
      else none
    if required.any fun value => value.asStr.isNone then
      .error (consentLost "stored consent plan is missing its write target")
    else match (plan.target.field "kind").asStr,(plan.target.field "label").asStr with
      | none,_ => .error (consentLost "stored consent plan has no string target.kind")
      | _,none => .error (consentLost "stored consent plan has no string target.label")
      | some kind,some label => .ok (kind,label)

/-- What a saved outcome is answered as. -/
def replay (value : Json F) : Except (HandlerError F) (Json F) :=
  if !value.isObject then .error (consentLost "stored consent outcome is not an object")
  else match value.get? "error" with
    | none => .ok value
    | some error =>
      match (error.field "code").asStr.filter (· != ""),(error.field "message").asStr with
      | none,_ => .error (consentLost "stored refusal has no error code")
      | _,none => .error (consentLost "stored refusal has no error message")
      | some code,some message => .error ⟨code,message,(error.get? "detail").filter fun value => !value.isNull⟩

def refuseAgentWrite (row : ConsentRequest F) (action : String) (target : Json F) (authorization : Authorization)
    (error : HandlerError F) : Act F (Json F) := do
  let now ← clock
  match ← sql (.refuseWrite row action target authorization error now) with
  | .outcome outcome => lift (replay outcome)
  | _ => Task.fail ⟨"storage_error","no outcome was saved",none⟩

def refusable : List String :=
  ["consent_stale","gone","hire_cap_reached","not_your_hire","name_conflict","head_exists","invalid_role_shape",
    "project_exists","workspace_exists","invalid_reply","consent_lost"]

def keptCodes : List String :=
  ["gone","hire_cap_reached","not_your_hire","consent_stale","invalid_reply","consent_lost"]

/-- The write under its authorization, and the refusal a write that failed for good ends in. -/
def commitWrite (row : ConsentRequest F) (plan : ConsentWrite F) (authorization : Authorization)
    (granted : Option StandingGrant) : Act F (Json F) := do
  let now ← clock
  let commit : ConsentCommit F := ⟨row,authorization,row.identity.tool,plan,granted,now⟩
  match ← perform (.write plan commit) with
  | .ok result =>
    if !result.isObject then Task.fail ⟨"invalid_reply","core reply has no result object",none⟩
    else lift ((replay result).mapError fun e =>
      if e.code = "consent_lost" then ⟨"invalid_reply",e.message,none⟩ else e)
  | .error e =>
    if refusable.contains e.code then
      let kept : HandlerError F := if keptCodes.contains e.code then e else ⟨"consent_stale",e.message,none⟩
      refuseAgentWrite row row.identity.tool plan.target authorization kept
    else Task.fail e

def approvalChoice (answer : RecordedSettlement) : Except (HandlerError F) String :=
  match answer.choice with
  | some choice =>
    if choice = "approve_once" ∨ choice = "approve_always_workspace" ∨ choice = "approve_always_project" then
      if answer.elicitationId = "" then .error ⟨"invalid_reply","approved consent settlement has no card id",none⟩
      else .ok choice
    else .error ⟨"invalid_reply","approved consent settlement has no approval choice",none⟩
  | none => .error ⟨"invalid_reply","approved consent settlement has no approval choice",none⟩

def standingGrant (externalKey : RequestIdentity → String) (identity : RequestIdentity) (cardRef : String) (now : Int)
    (permission : GrantClass × String) : StandingGrant :=
  ⟨s!"grant:{externalKey identity}",identity.agentId,permission.1,permission.2,now,cardRef,none⟩

/-- An approved write, with the standing permission its answer asks for. -/
def commitApproved (provider : Provider F) (row : ConsentRequest F) (plan : ConsentWrite F)
    (answer : RecordedSettlement) : Act F (Json F) := do
  let approval : Except (HandlerError F) (String × Option (GrantClass × String)) := do
    let choice ← approvalChoice answer
    let permission ← approvalGrant plan choice
    return (choice,permission)
  match approval with
  | .error e => refuseAgentWrite row row.identity.tool plan.target (.card answer.elicitationId (answer.choice.getD "")) e
  | .ok (choice,none) => commitWrite row plan (.card answer.elicitationId choice) none
  | .ok (choice,some permission) =>
    let now ← clock
    commitWrite row plan (.card answer.elicitationId choice)
      (some (standingGrant provider.externalKey row.identity answer.elicitationId now permission))

def lostCodes : List String := ["invalid_reply","consent_lost"]

/-- Ends a refused request with the answer that was recorded for it. -/
def refuseDecided (row : ConsentRequest F) (plan : ConsentWrite F) (code : String) : Act F (Json F) := do
  match ← readSaved row.identity with
  | none => Task.fail (consentLost "consent request disappeared before its refusal was recorded")
  | some saved =>
    let answer := (saved.settlement.bind (·.choice)).getD "deny"
    refuseAgentWrite row row.identity.tool plan.target (.card (saved.elicitationId.getD "") answer)
      ⟨code,"consent did not authorize the write",none⟩

def decide' (provider : Provider F) (row : ConsentRequest F) (plan : ConsentWrite F) : Decision F → Act F (Json F)
  | .pending id => Task.fail (pendingError id)
  | .replay outcome => lift (replay outcome)
  | .approved answer => commitApproved provider row plan answer
  | .refused code =>
    if code = "consent_unavailable" then Task.fail ⟨"consent_unavailable","Cingulate is unavailable",none⟩
    else refuseDecided row plan code

/-- Asks for consent and carries out what was decided. -/
def withCard (provider : Provider F) (call : Call F) (saved : Option (ConsentRequest F)) (row : ConsentRequest F)
    (plan : ConsentWrite F) (kind label : String) : Act F (Json F) := do
  match ← lift (← perform (.agentName call.identity.agentId)) with
  | none => Task.fail (consentLost "requesting agent row disappeared before consent")
  | some name =>
    match renderCard provider.externalKey row ⟨name,kind,label,plan.target⟩ with
    | .error e => Task.fail e
    | .ok card =>
      match ← (obtainLeased call.owner call.turns row card (some plan)).attempt with
      | .ok decision => decide' provider row plan decision
      | .error e =>
        if lostCodes.contains e.code then
          refuseAgentWrite row row.identity.tool plan.target
            (.card ((saved.bind (·.elicitationId)).getD "") "deny") e
        else Task.fail e

/-- An own hire and a write under a standing permission need no card. A saved request keeps to its card. -/
def authorize (provider : Provider F) (call : Call F) (saved : Option (ConsentRequest F)) (row : ConsentRequest F)
    (plan : ConsentWrite F) (kind label : String) : Act F (Json F) := do
  let grant ← match saved,plan.grantClass,plan.scopeId with
    | none,some grantClass,some scope => do
      lift (← perform (.covering call.identity.agentId grantClass scope))
    | _,_,_ => pure none
  if call.identity.tool = "agents_retire_hire" then commitWrite row plan .ownHire none
  else match grant with
    | some grant => commitWrite row plan (.grant grant.id) none
    | none => withCard provider call saved row plan kind label

def freshRow (call : Call F) (digest : String) (now : Int) : ConsentRequest F :=
  ⟨call.identity,digest,call.owner.scopeRef,call.owner.epoch,now,none,none,.awaiting,none⟩

/-- Goes on with the plan of the request, once it has been checked. -/
def withPlan (provider : Provider F) (call : Call F) (saved : Option (ConsentRequest F)) (plan : ConsentWrite F) :
    Act F (Json F) := do
  let digest := provider.digest call.arguments
  match validatePlan provider plan call.identity.tool digest with
  | .ok (kind,label) =>
    let now ← clock
    authorize provider call saved (freshRow call digest now) plan kind label
  | .error e =>
    match saved with
    | some saved =>
      refuseAgentWrite saved call.identity.tool plan.target
        (.card (saved.elicitationId.getD "") ((saved.settlement.bind (·.choice)).getD "")) e
    | none => Task.fail e

def planMissing (call : Call F) (saved : ConsentRequest F) : Act F (Json F) :=
  refuseAgentWrite saved call.identity.tool .null (.card (saved.elicitationId.getD "") "deny")
    (consentLost "awaiting request has no readable validated target")

/-- The call once its request is known to be open. -/
def goOn (provider : Provider F) (call : Call F) (saved : Option (ConsentRequest F)) : Act F (Json F) := do
  lift (provider.validArguments call.identity.tool call.arguments)
  let leased ← perform (.lease call.identity)
  if !leased then Task.fail (pendingError (saved.bind (·.elicitationId)))
  else match saved with
    | some request =>
      match ← perform (.writePlan call.identity) with
      | .ok (some plan) => withPlan provider call saved plan
      | _ => planMissing call request
    | none =>
      let now ← clock
      let plan ← lift (← perform (.precheck call.identity.agentId call.identity.tool call.arguments now))
      withPlan provider call none plan

/-- The write path of the tool. -/
def executeAgentTool (provider : Provider F) (call : Call F) : Act F (Json F) := do
  match ← readSaved call.identity with
  | none => goOn provider call none
  | some saved =>
    if saved.argsDigest ≠ provider.digest call.arguments then
      Task.fail ⟨"request_key_conflict","request key has different arguments",none⟩
    else if saved.state ≠ .awaiting then
      match saved.outcome with
      | some outcome => lift (replay outcome)
      | none => Task.fail (consentLost "stored terminal consent request has no outcome")
    else goOn provider call (some saved)

end Tools

end Entorhinal.Consent
