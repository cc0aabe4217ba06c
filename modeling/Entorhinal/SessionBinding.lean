import Entorhinal.ClaimCache
import Entorhinal.MoveStep
import Entorhinal.Refusal
import Entorhinal.Table
import Mathlib.Data.Prod.Lex
import Mathlib.Data.String.Basic

/-! Session bindings and their registration. One definition models the whole
registration transaction: a refusal leaves the store as it was. -/
namespace Entorhinal.Session
open ClaimCache

/-- `(ref_kind, ref)`, the primary key of a binding. -/
abbrev RefKey := String ×ₗ String

/-- One row of `session_binding`. An empty project root reads as unknown. -/
structure SessionBinding where
  agentId : String
  harness : Option String
  sessionId : Option String
  projectRoot : String
  registeredBy : String
  registeredAtMs : Int
  runner : Option String
  endedAtMs : Option Int
  heldOn : Option String
deriving DecidableEq, Repr

structure NetworkEntry where
  network : String
  sinceMs : Int
deriving DecidableEq, Repr

/-- What the registration reads of an agent's row: why and when it is gone. -/
structure AgentPresence where
  gone : Option (String × Option Int × Option String)
deriving DecidableEq, Repr

/-- What the session transactions read of a move checkpoint; `planRefs` are the
references of all participants of its plan. -/
structure OpenMove where
  agentId : String
  side : MoveSide
  step : MoveStep
  planRefs : List RefKey
deriving DecidableEq

/-- The tables the session transactions read and write. Each history in
`network` is oldest first. -/
structure SessionStore where
  cutOver : Bool
  agents : Table String AgentPresence
  moves : Table String OpenMove
  claims : Table String CachedClaim
  selfAuthor : Option String
  memberName : Table String String
  bindings : Table RefKey SessionBinding
  network : Table RefKey (List NetworkEntry)
  /-- The machine the store was made on. -/
  storeOrigin : Option String := none
deriving DecidableEq

structure SessionRegistration where
  agentId : String
  refKind : String
  sessionRef : String
  harness : String
  sessionId : String
  projectRoot : Option String
  registeredBy : String
  runner : Option String
  network : Option String
  nowMs : Int
deriving DecidableEq, Repr

def SessionRegistration.key (request : SessionRegistration) : RefKey :=
  toLex (request.refKind,request.sessionRef)

def networkValues : List String := ["yes","no","unknown"]

def networkHistoryMax : Nat := 1024

def refuse {α : Type} (code message : String) (detail : List (String × Detail)) :
    Except AgentMutationError α := .error ⟨code,message,detail⟩

/-- What a statement that breaks a unique index or a primary key returns. -/
def constraintFailed {α : Type} : Except AgentMutationError α :=
  refuse "storage_error" "UNIQUE constraint failed" []

def SessionStore.openMoves (store : SessionStore) : List (String × OpenMove) :=
  store.moves.rows.filter fun m => !m.2.step.isTerminal

/-- An open move fences the agent, or keeps the reference for an agent that is
still arriving. -/
def movesAgainst (request : SessionRegistration) (row : OpenMove) : Bool :=
  (row.agentId == request.agentId &&
    (row.side == .source || row.step.beforeBoundary .receiver || row.step == .activating)) ||
  (row.side == .receiver && (row.step.beforeBoundary .receiver || row.step == .activating) &&
    row.agentId != request.agentId && row.planRefs.contains request.key)

def checkMovingRegistration (store : SessionStore) (request : SessionRegistration) :
    Except AgentMutationError Unit :=
  match store.openMoves.find? fun m => movesAgainst request m.2 with
  | some (cutId,_) => refuse "agent_moving" "a move fences this session registration"
      [("cut_id",.text (some cutId))]
  | none => .ok ()

def checkRegistrationClaim (store : SessionStore) (id : String) : Except AgentMutationError Unit :=
  match store.claims.get? id with
  | none => .ok ()
  | some claim =>
    if claim.integrityFailed then refuse "claim_integrity_failed" "claim_integrity_failed" []
    else if 1 ≤ claim.epoch && (claim.holder.isNone || claim.holder != store.selfAuthor) then
      refuse "held_elsewhere" "held_elsewhere" [("holder",.text claim.holder),
        ("holder_name",.text (claim.holder.bind store.memberName.get?)),("epoch",.number claim.epoch)]
    else .ok ()

def hasSession (harness sessionId : String) (row : SessionBinding) : Bool :=
  row.harness == some harness && row.sessionId == some sessionId

/-- The binding of a host session, if any. -/
def SessionStore.bySession (store : SessionStore) (harness sessionId : String) :
    Option (RefKey × SessionBinding) :=
  store.bindings.find? fun _ row => hasSession harness sessionId row

def SessionStore.runnerSessionOwner (store : SessionStore) (runner sessionId : String) :
    Option (RefKey × SessionBinding) :=
  store.bindings.find? fun _ row => row.runner == some runner && row.sessionId == some sessionId

/-- The two unique indexes of `session_binding` hold between two rows. -/
def SessionBinding.compatible (a b : SessionBinding) : Bool :=
  !(a.harness.isSome && a.sessionId.isSome && a.harness == b.harness && a.sessionId == b.sessionId) &&
  !(a.runner.isSome && a.sessionId.isSome && a.runner == b.runner && a.sessionId == b.sessionId)

/-- Stores a row, refused as a constraint failure when another row has its
session or its runner session. -/
def SessionStore.put (store : SessionStore) (key : RefKey) (row : SessionBinding) :
    Except AgentMutationError SessionStore :=
  if store.bindings.any fun other stored => other != key && !row.compatible stored then constraintFailed
  else .ok { store with bindings := store.bindings.insert key row }

/-- `UPDATE` of a binding's key and harness, with its network history. -/
def SessionStore.rekey (store : SessionStore) (previous key : RefKey) (harness : Option String) :
    Except AgentMutationError SessionStore :=
  match store.bindings.get? previous with
  | none => .ok store
  | some row =>
    if store.bindings.has key then constraintFailed
    else
      let history := store.network.get? previous
      let network := store.network.erase previous
      SessionStore.put { store with
        bindings := store.bindings.erase previous
        network := match history with
          | none => network
          | some entries => network.insert key entries } key { row with harness := harness }

inductive NetworkPlan
  | unchanged (current : NetworkEntry)
  | append (previousSinceMs : Option Int)
deriving DecidableEq, Repr

/-- What setting a session's network access did. -/
inductive NetworkChange
  | recorded (entry : NetworkEntry)
  | unchanged (current : NetworkEntry)
deriving DecidableEq, Repr

/-- A binding's network history, empty when nothing was recorded. -/
def SessionStore.historyOf (store : SessionStore) (key : RefKey) : List NetworkEntry :=
  (store.network.get? key).getD []

/-- A history holds one entry a time, by its primary key. -/
def SessionStore.appendEntry (store : SessionStore) (key : RefKey) (entry : NetworkEntry) :
    Except AgentMutationError SessionStore :=
  let history := store.historyOf key
  if history.any fun old => old.sinceMs == entry.sinceMs then constraintFailed
  else .ok { store with network := store.network.insert key (history ++ [entry]) }

def planNetwork (store : SessionStore) (key : RefKey) (network : String) :
    Except AgentMutationError NetworkPlan :=
  if !networkValues.contains network then
    refuse "invalid_request" "network must be yes, no or unknown" []
  else
    let history := store.historyOf key
    let current := history.getLast?
    match current.filter fun entry => entry.network == network with
    | some current => .ok (.unchanged current)
    | none =>
      if networkHistoryMax ≤ history.length then
        refuse "network_history_full" "this session's network history already holds 1024 entries" []
      else .ok (.append (current.map (·.sinceMs)))

/-- `saturating_add(1)` on a time. -/
def saturatingSucc (t : Int) : Int := min (t + 1) i64Max

/-- The time a new entry is stamped with: past the previous one's. -/
def stampAfter (previous : Option Int) (now : Int) : Int :=
  match previous with
  | some previous => max now (saturatingSucc previous)
  | none => now

def applyNetworkPlan (store : SessionStore) (key : RefKey) (network : String) (now : Int) :
    NetworkPlan → Except AgentMutationError (SessionStore × NetworkChange)
  | .unchanged current => .ok (store,.unchanged current)
  | .append previous => do
    let entry : NetworkEntry := ⟨network,stampAfter previous now⟩
    let written ← store.appendEntry key entry
    return (written,.recorded entry)

def boundElsewhere (owner : RefKey) (row : SessionBinding) : Except AgentMutationError Unit :=
  refuse "session_bound_elsewhere" ("this session already binds reference " ++ (ofLex owner).1 ++ ":" ++
      (ofLex owner).2 ++ " of agent " ++ row.agentId)
    [("ref_kind",.text (some (ofLex owner).1)),("ref",.text (some (ofLex owner).2)),
      ("agent_id",.text (some row.agentId))]

/-- Which binding the registration takes over: its own reference, the reference
its host session had, or the one its runner session had under another kind. -/
structure Route where
  previous : RefKey
  hostChange : Bool
  rekeyed : Bool
deriving DecidableEq

def onOtherMachine {α : Type} (machine : String) : Except AgentMutationError α :=
  refuse "session_on_other_machine" "session data is held on another machine"
    [("machine_id",.text (some machine))]

def refElsewhere {α : Type} (agentId : String) : Except AgentMutationError α :=
  refuse "ref_bound_elsewhere" ("this reference is bound to agent " ++ agentId)
    [("agent_id",.text (some agentId))]

/-- The checks on the caller's agent that come before any binding is looked up. -/
def checkAgent (store : SessionStore) (request : SessionRegistration) :
    Except AgentMutationError Unit :=
  if !store.cutOver then
    refuse "authority_not_cut_over" "agent identity authority is not cut over" []
  else match store.agents.get? request.agentId with
    | none => refuse "unknown_agent" ("unknown agent " ++ request.agentId) []
    | some agent => match agent.gone with
      | some (reason,_,into) => refuse "gone" "agent is gone"
          [("reason",.text (some reason)),("into_agent_id",.text into)]
      | none => .ok ()

/-- A binding whose data another machine holds is never revived. -/
def checkRemote (store : SessionStore) (request : SessionRegistration) :
    Except AgentMutationError Unit :=
  match store.bindings.find? fun key row => row.heldOn.isSome &&
      (key == request.key || hasSession request.harness request.sessionId row) with
  | some (_,row) => onOtherMachine (row.heldOn.getD "")
  | none => .ok ()

/-- The registration's reference and session belong to no one else. -/
def routeOf (store : SessionStore) (request : SessionRegistration) :
    Except AgentMutationError Route := do
  let byRef := store.bindings.get? request.key
  match byRef with
  | some bound => if bound.agentId ≠ request.agentId then refElsewhere bound.agentId
  | none => pure ()
  let bySession := store.bySession request.harness request.sessionId
  match bySession with
  | some (owner,bound) =>
    if bound.agentId ≠ request.agentId ∨ (ofLex owner).1 ≠ request.refKind then boundElsewhere owner bound
  | none => pure ()
  let rekey := bySession.filter fun bound => (ofLex bound.1).2 != request.sessionRef
  match rekey,byRef with
  | some _,some bound => refElsewhere bound.agentId
  | _,_ => pure ()
  match request.runner,bySession,byRef with
  | some runner,none,none =>
    match store.runnerSessionOwner runner request.sessionId with
    | some (owner,row) =>
      if row.agentId = request.agentId ∧ (ofLex owner).1 ≠ request.refKind then
        match row.heldOn with
        | some machine => onOtherMachine machine
        | none => return ⟨owner,true,false⟩
      else return ⟨request.key,false,false⟩
    | none => return ⟨request.key,false,false⟩
  | _,_,_ => match rekey with
    | some bound => return ⟨bound.1,false,true⟩
    | none => return ⟨request.key,false,false⟩

/-- The runner session the registration leaves on the row is no one else's. -/
def checkRunner (store : SessionStore) (request : SessionRegistration) (route : Route) :
    Except AgentMutationError Unit :=
  -- without a runner the request keeps the one stored under the kind it names
  let looked := toLex (request.refKind,(ofLex route.previous).2)
  let runner := match request.runner with
    | some runner => some runner
    | none => (store.bindings.get? looked).bind (·.runner)
  match runner with
  | none => .ok ()
  | some runner => match store.runnerSessionOwner runner request.sessionId with
    | none => .ok ()
    | some (owner,row) => if owner ≠ route.previous then boundElsewhere owner row else .ok ()

/-- The row the upsert at the end of a registration leaves. -/
def registered (request : SessionRegistration) (registeredBy : String) (old : Option SessionBinding) :
    SessionBinding where
  agentId := (old.map (·.agentId)).getD request.agentId
  harness := some request.harness
  sessionId := some request.sessionId
  projectRoot := request.projectRoot.getD ((old.map (·.projectRoot)).getD "")
  registeredBy := registeredBy
  registeredAtMs := request.nowMs
  runner := request.runner.or (old.bind (·.runner))
  endedAtMs := none
  heldOn := old.bind (·.heldOn)

/-- The binding taken over is given the registration's key. -/
def relocate (store : SessionStore) (request : SessionRegistration) (route : Route) :
    Except AgentMutationError SessionStore :=
  if route.hostChange then store.rekey route.previous request.key (some request.harness)
  else if route.rekeyed then
    store.rekey route.previous request.key ((store.bindings.get? route.previous).bind (·.harness))
  else .ok store

/-- The writes of a registration, between its savepoint and its release. -/
def writeRegistration (store : SessionStore) (request : SessionRegistration) (route : Route)
    (plan : Option (String × NetworkPlan)) (commitMs : Int) :
    Except AgentMutationError SessionStore := do
  let moved ← relocate store request route
  let carried := (store.bindings.get? route.previous).map (·.registeredBy)
  let registeredBy := if route.hostChange || route.rekeyed then carried.getD request.registeredBy
    else request.registeredBy
  let written ← moved.put request.key
    (registered request registeredBy (moved.bindings.get? request.key))
  match plan with
  | some (network,plan) => (applyNetworkPlan written request.key network commitMs plan).map Prod.fst
  | none => return written

def requestedPlan (store : SessionStore) (request : SessionRegistration) (route : Route) :
    Except AgentMutationError (Option (String × NetworkPlan)) :=
  match request.network with
  | some network => (planNetwork store route.previous network).map fun plan => some (network,plan)
  | none => .ok none

/-- `register_session`; `commitMs` is what the clock reads when a network value
commits. -/
def registerSession (store : SessionStore) (request : SessionRegistration) (commitMs : Int) :
    Except AgentMutationError SessionStore := do
  checkAgent store request
  checkRemote store request
  checkMovingRegistration store request
  checkRegistrationClaim store request.agentId
  let route ← routeOf store request
  checkRunner store request route
  let plan ← requestedPlan store request route
  writeRegistration store request route plan commitMs

/-- Both unique indexes hold. -/
def Indexed (bindings : Table RefKey SessionBinding) : Prop :=
  ∀ a b left right, bindings.get? a = some left → bindings.get? b = some right → a ≠ b →
    left.compatible right = true

/-- Two rows break a unique index. -/
def clashing (bindings : Table RefKey SessionBinding) : Bool :=
  bindings.any fun key row => bindings.any fun other stored => other != key && !row.compatible stored

section Lemmas

variable {store store' : SessionStore} {key : RefKey} {row : SessionBinding}

theorem clashing_false {bindings : Table RefKey SessionBinding} :
    clashing bindings = false ↔ Indexed bindings := by
  rw [← Bool.not_eq_true]
  constructor
  · intro clear a b left right atA atB different
    by_contra clash
    exact clear (Table.any_eq_true.mpr ⟨a,left,atA,Table.any_eq_true.mpr
      ⟨b,right,atB,by simp [different.symm,clash]⟩⟩)
  · intro indexed clash
    obtain ⟨a,left,atA,clash⟩ := Table.any_eq_true.mp clash
    obtain ⟨b,right,atB,clash⟩ := Table.any_eq_true.mp clash
    simp only [Bool.and_eq_true,bne_iff_ne,Bool.not_eq_true'] at clash
    rw [indexed a b left right atA atB clash.1.symm] at clash
    cases clash.2

theorem compatible_comm (a b : SessionBinding) : a.compatible b = b.compatible a := by
  rw [Bool.eq_iff_iff]
  simp only [SessionBinding.compatible,Bool.and_eq_true,Bool.not_eq_true',Bool.and_eq_false_iff,
    Option.isSome_eq_false_iff,Option.isNone_iff_eq_none,beq_eq_false_iff_ne]
  grind

theorem Indexed.same {bindings : Table RefKey SessionBinding} (indexed : Indexed bindings)
    {harness sessionId : String} {a b : RefKey} {left right : SessionBinding}
    (atA : bindings.get? a = some left) (atB : bindings.get? b = some right)
    (first : hasSession harness sessionId left = true)
    (second : hasSession harness sessionId right = true) : a = b := by
  by_contra different
  have apart := indexed a b left right atA atB different
  simp only [hasSession,Bool.and_eq_true,beq_iff_eq] at first second
  simp [SessionBinding.compatible,first.1,first.2,second.1,second.2] at apart

/-- Rows that keep what the indexes see keep the indexes. -/
theorem Indexed.mono {bindings bindings' : Table RefKey SessionBinding} (indexed : Indexed bindings)
    (kept : ∀ key row', bindings'.get? key = some row' → ∃ row, bindings.get? key = some row ∧
      row'.harness = row.harness ∧ row'.sessionId = row.sessionId ∧ row'.runner = row.runner) :
    Indexed bindings' := by
  intro a b left right atA atB different
  obtain ⟨left₀,beforeA,ha,sa,ra⟩ := kept a left atA
  obtain ⟨right₀,beforeB,hb,sb,rb⟩ := kept b right atB
  have apart := indexed a b left₀ right₀ beforeA beforeB different
  simpa only [SessionBinding.compatible,ha,hb,sa,sb,ra,rb] using apart

theorem put_ok (ok : store.put key row = .ok store') :
    store' = { store with bindings := store.bindings.insert key row } ∧
      (Indexed store.bindings → Indexed store'.bindings) := by
  unfold SessionStore.put at ok
  split at ok
  next => cases ok
  next free =>
    cases ok
    refine ⟨rfl,fun indexed a b left right atA atB different => ?_⟩
    have apart : ∀ other stored, store.bindings.get? other = some stored → other ≠ key →
        row.compatible stored = true := by
      intro other stored found away
      by_contra clash
      exact free (Table.any_eq_true.mpr ⟨other,stored,found,by simp [away,clash]⟩)
    simp only [Table.get?_insert] at atA atB
    split at atA <;> split at atB
    next sameA sameB => exact absurd (sameA.trans sameB.symm) different
    next sameA sameB => cases atA; exact apart b right atB sameB
    next sameA sameB => cases atB; rw [compatible_comm]; exact apart a left atA sameA
    next sameA sameB => exact indexed a b left right atA atB different

/-- A rekeyed binding leaves its old key and stands under the new one; no other
binding moves. -/
theorem rekey_ok {previous : RefKey} {harness : Option String}
    (ok : store.rekey previous key harness = .ok store') :
    (∀ other, other ≠ key →
      store'.bindings.get? other = if other = previous then none else store.bindings.get? other) ∧
    (Indexed store.bindings → Indexed store'.bindings) := by
  unfold SessionStore.rekey at ok
  split at ok
  next absent =>
    cases ok
    refine ⟨fun other _ => ?_,id⟩
    split
    next same => rw [same,absent]
    next => rfl
  next row found =>
    split at ok
    next => cases ok
    next =>
      obtain ⟨rfl,kept⟩ := put_ok ok
      refine ⟨fun other different => by simp [different],fun indexed => kept (indexed.mono ?_)⟩
      intro other row' still
      simp only [Table.get?_erase] at still
      split at still
      next => cases still
      next => exact ⟨row',still,rfl,rfl,rfl⟩

theorem appendEntry_ok {entry : NetworkEntry} (ok : store.appendEntry key entry = .ok store') :
    store' = { store with network := store.network.insert key (store.historyOf key ++ [entry]) } ∧
      ∀ old ∈ store.historyOf key, old.sinceMs ≠ entry.sinceMs := by
  unfold SessionStore.appendEntry at ok
  simp only at ok
  split at ok
  next => cases ok
  next fresh =>
    cases ok
    exact ⟨rfl,fun old member same => fresh (List.any_eq_true.mpr ⟨old,member,by simp [same]⟩)⟩

/-- A plan writes nothing, or one entry at the end of the history. -/
theorem applyNetworkPlan_ok {network : String} {now : Int} {plan : NetworkPlan}
    {change : NetworkChange} (ok : applyNetworkPlan store key network now plan = .ok (store',change)) :
    (∃ current, plan = .unchanged current ∧ change = .unchanged current ∧ store' = store) ∨
    (∃ previous, plan = .append previous ∧ change = .recorded ⟨network,stampAfter previous now⟩ ∧
      store.appendEntry key ⟨network,stampAfter previous now⟩ = .ok store') := by
  cases plan with
  | unchanged current => cases ok; exact .inl ⟨current,rfl,rfl,rfl⟩
  | append previous =>
    obtain ⟨written,appended,ok⟩ := bind_ok ok
    cases ok
    exact .inr ⟨previous,rfl,rfl,appended⟩

theorem applyNetworkPlan_bindings {network : String} {now : Int} {plan : NetworkPlan}
    {change : NetworkChange} (ok : applyNetworkPlan store key network now plan = .ok (store',change)) :
    store'.bindings = store.bindings := by
  rcases applyNetworkPlan_ok ok with ⟨_,_,_,rfl⟩ | ⟨_,_,_,appended⟩
  · rfl
  · rw [(appendEntry_ok appended).1]

/-- A registration leaves its reference open, stamped with its own time; of the
other bindings at most one goes, the one it took over. -/
structure Registers (store store' : SessionStore) (request : SessionRegistration) : Prop where
  opened : ∃ row, store'.bindings.get? request.key = some row ∧ row.endedAtMs = none ∧
    row.registeredAtMs = request.nowMs ∧ row.harness = some request.harness ∧
    row.sessionId = some request.sessionId
  others : ∃ previous, ∀ other, other ≠ request.key →
    store'.bindings.get? other = if other = previous then none else store.bindings.get? other
  indexed : Indexed store.bindings → Indexed store'.bindings

theorem writeRegistration_parts {request : SessionRegistration} {route : Route}
    {plan : Option (String × NetworkPlan)} {commitMs : Int}
    (ok : writeRegistration store request route plan commitMs = .ok store') :
    ∃ moved written registeredBy, relocate store request route = .ok moved ∧
      moved.put request.key (registered request registeredBy (moved.bindings.get? request.key)) = .ok written ∧
      store'.bindings = written.bindings := by
  obtain ⟨moved,relocated,rest⟩ := bind_ok ok
  obtain ⟨written,put,finished⟩ := bind_ok rest
  refine ⟨moved,written,_,relocated,put,?_⟩
  split at finished
  next network plan =>
    obtain ⟨⟨final,change⟩,applied,rfl⟩ := map_ok finished
    exact applyNetworkPlan_bindings applied
  next => cases finished; rfl

theorem writeRegistration_ok {request : SessionRegistration} {route : Route}
    {plan : Option (String × NetworkPlan)} {commitMs : Int}
    (ok : writeRegistration store request route plan commitMs = .ok store') :
    Registers store store' request := by
  obtain ⟨moved,written,_,relocated,put,bindings⟩ := writeRegistration_parts ok
  have others : (∃ previous, ∀ other, other ≠ request.key →
      moved.bindings.get? other = if other = previous then none else store.bindings.get? other) ∧
      (Indexed store.bindings → Indexed moved.bindings) := by
    unfold relocate at relocated
    split at relocated
    · exact ⟨⟨route.previous,(rekey_ok relocated).1⟩,(rekey_ok relocated).2⟩
    · split at relocated
      · exact ⟨⟨route.previous,(rekey_ok relocated).1⟩,(rekey_ok relocated).2⟩
      · cases relocated
        exact ⟨⟨request.key,fun other different => by simp [different]⟩,id⟩
  obtain ⟨⟨previous,gone⟩,kept⟩ := others
  obtain ⟨rfl,indexed⟩ := put_ok put
  refine ⟨⟨_,by rw [bindings,Table.get?_insert,if_pos rfl],rfl,rfl,rfl,rfl⟩,⟨previous,?_⟩,?_⟩
  · intro other different
    rw [bindings,Table.get?_insert,if_neg different]
    exact gone other different
  · rw [bindings]; exact fun before => indexed (kept before)

theorem registerSession_written {request : SessionRegistration} {commitMs : Int}
    (ok : registerSession store request commitMs = .ok store') :
    ∃ route plan, writeRegistration store request route plan commitMs = .ok store' := by
  obtain ⟨_,_,ok⟩ := bind_ok ok
  obtain ⟨_,_,ok⟩ := bind_ok ok
  obtain ⟨_,_,ok⟩ := bind_ok ok
  obtain ⟨_,_,ok⟩ := bind_ok ok
  obtain ⟨route,_,ok⟩ := bind_ok ok
  obtain ⟨_,_,ok⟩ := bind_ok ok
  obtain ⟨plan,_,ok⟩ := bind_ok ok
  exact ⟨route,plan,ok⟩

theorem registerSession_ok {request : SessionRegistration} {commitMs : Int}
    (ok : registerSession store request commitMs = .ok store') : Registers store store' request := by
  obtain ⟨route,plan,written⟩ := registerSession_written ok
  exact writeRegistration_ok written

end Lemmas
end Entorhinal.Session
