import Entorhinal.ClaimCache
import Entorhinal.IdentityLog
import Entorhinal.Refusal
import Entorhinal.Table

/-! What the store answers about where an agent is: the cached claim joined with
this machine's identity, the member names, the sharing state, the agent's row
and its moves. -/
namespace Entorhinal.Where
open ClaimCache IdentityLog

inductive MoveSide
  | source
  | receiver
deriving DecidableEq, Repr

/-- The texts a checkpoint shows, as `notices` lays them out. -/
structure MoveNotices where
  fields : List (String × String)
  diagnostics : List String
  warnings : List String
deriving DecidableEq, Repr

structure AgentMove where
  cutId : String
  agentId : String
  side : MoveSide
  peer : String
  step : String
  isTerminal : Bool
  reason : Option String
  detail : Option String
  hold : Option String
  notices : MoveNotices
  errorCodes : List String
deriving DecidableEq, Repr

structure AgentLiveness where
  terminal : Option String
  terminalAt : Option Int
  mergedInto : Option String
deriving DecidableEq, Repr

/-- The tables a whereabouts answer is read from. The moves stand in the order
of their query, by creation time and cut. -/
structure WhereStore where
  agents : Table String AgentLiveness
  claimCache : Table String CachedClaim
  selfAuthor : Option String
  memberName : Table String String
  identityLogState : Option LogState
  agentMove : List AgentMove
  foreign : Bool
deriving DecidableEq

structure Moving where
  cutId : String
  side : MoveSide
  step : String
  peer : String
  peerName : Option String
  diverged : Option (String × Option String)
  hold : Option String
  notices : List (String × String)
  diagnostics : List String
deriving DecidableEq, Repr

structure WhereMoveView where
  moving : Option Moving
  moveErrors : List (String × String)
  moveWarnings : List (String × String)
  moveDiagnostics : List (String × String)
deriving DecidableEq, Repr

def holderName (names : Table String String) (holder : Option String) : Option String :=
  holder.bind names.get?

def AgentMove.diverged (row : AgentMove) : Option String :=
  if row.reason = some "diverged" then row.detail else none

def AgentMove.moving (names : Table String String) (row : AgentMove) : Moving where
  cutId := row.cutId
  side := row.side
  step := row.step
  peer := row.peer
  peerName := holderName names (some row.peer)
  diverged := row.diverged.map fun detail => (detail,row.reason)
  hold := row.hold
  notices := row.notices.fields
  diagnostics := row.notices.diagnostics

/-- One turn of the loop in `where_moves`. -/
def whereMove (names : Table String String) (view : WhereMoveView) (row : AgentMove) : WhereMoveView where
  moving := if row.isTerminal then view.moving else some (row.moving names)
  moveErrors := view.moveErrors ++ row.errorCodes.map (row.cutId,·)
  moveWarnings := view.moveWarnings ++ row.notices.warnings.map (row.cutId,·)
  moveDiagnostics := view.moveDiagnostics ++ row.diverged.toList.map (row.cutId,·) ++
    row.notices.diagnostics.map (row.cutId,·)

def whereMoves (names : Table String String) (moves : List AgentMove) (agent : String) : WhereMoveView :=
  (moves.filter (·.agentId == agent)).foldl (whereMove names) ⟨none,[],[],[]⟩

inductive ClaimStatus
  | unclaimed
  | heldHere
  | heldElsewhere
deriving DecidableEq, Repr

structure AgentWhere where
  known : Bool
  status : ClaimStatus
  holderName : Option String
  holder : Option String
  epoch : Int
  cutId : Option String
  readAtMs : Option Int
  stale : Bool
  moves : WhereMoveView
deriving DecidableEq, Repr

structure ClaimView where
  known : Bool
  claim : CachedClaim
  own : Option String
  readAtMs : Option Int

def ClaimView.status (view : ClaimView) : ClaimStatus :=
  if view.claim.epoch = 0 then .unclaimed
  else if view.claim.holder.isSome ∧ view.claim.holder = view.own then .heldHere
  else .heldElsewhere

def ClaimView.holderName (view : ClaimView) (names : Table String String) : Option String :=
  if view.own.isSome then Where.holderName names view.claim.holder else none

/-- A store whose state row is missing counts as not sharing. -/
def sharingOff (store : WhereStore) : Bool := store.identityLogState.all (· == .disabled)

def cachedAgentClaim (store : WhereStore) (id : String) : Option CachedClaim := store.claimCache.get? id

/-- While sharing has never been turned on, no cached claim is a verified
`unclaimed`. -/
def loadClaimView (store : WhereStore) (id : String) : ClaimView :=
  let claim := if store.foreign then none else cachedAgentClaim store id
  let off := !store.foreign && sharingOff store
  { known := claim.isSome || off
    claim := claim.getD (unclaimed 0 (!off) false)
    own := store.selfAuthor
    readAtMs := claim.map (·.readAtMs) }

def gone (row : AgentLiveness) : Option (List (String × Detail)) :=
  let since : Detail := match row.terminalAt with
    | some time => .number time
    | none => .text none
  if row.terminal = some "retired" then some [("reason",.text (some "deleted")),("at",since)]
  else if row.terminal = some "merged" then
    some [("reason",.text (some "merged")),("at",since),("into_agent_id",.text row.mergedInto)]
  else none

def refusal (code : String) (detail : List (String × Detail)) : AgentMutationError := ⟨code,code,detail⟩

def agentWhere (store : WhereStore) (id : String) : Except AgentMutationError AgentWhere :=
  match store.agents.get? id with
  | none => .error (refusal "unknown_agent" [])
  | some row => match gone row with
    | some detail => .error (refusal "gone" detail)
    | none =>
      let view := loadClaimView store id
      if view.claim.integrityFailed then .error (refusal "claim_integrity_failed" [])
      else .ok {
        known := view.known
        status := view.status
        holderName := view.holderName store.memberName
        holder := view.claim.holder
        epoch := view.claim.epoch
        cutId := view.claim.cutId
        readAtMs := view.readAtMs
        stale := view.claim.stale
        moves := whereMoves store.memberName store.agentMove id }

/-- A client's view of an agent; one that is refused has no row. -/
def answer (store : WhereStore) (id : String) : Option AgentWhere := (agentWhere store id).toOption

/-- The small tables compared before and after a write. -/
structure Dependencies where
  selfAuthor : Option String
  names : Table String String
  sharingOff : Bool
  agents : Table String AgentLiveness
deriving DecidableEq

def Dependencies.read (store : WhereStore) : Dependencies where
  selfAuthor := store.selfAuthor
  names := store.memberName
  sharingOff := Where.sharingOff store
  agents := store.agents

/-- Two stores that agree on the compared tables, the moves and one cached claim
answer alike for its agent. -/
theorem answer_congr {store store' : WhereStore} {id : String}
    (same : Dependencies.read store' = Dependencies.read store)
    (moves : store'.agentMove = store.agentMove) (foreign : store'.foreign = store.foreign)
    (claim : cachedAgentClaim store' id = cachedAgentClaim store id) :
    answer store' id = answer store id := by
  obtain ⟨selfAuthor,names,off,agents⟩ := Dependencies.mk.injEq .. ▸ same
  have view : loadClaimView store' id = loadClaimView store id := by
    simp only [loadClaimView,foreign,claim,off,selfAuthor]
  simp only [answer,agentWhere,agents,view,names,moves]

def observedSelf : ClaimObservation → Option String
  | .present _ self | .absent _ self | .codecFailed self => some self
  | _ => none

/-- A known self author is never replaced. -/
def learnSelfAuthor (store : WhereStore) (author : String) : WhereStore :=
  { store with selfAuthor := some (store.selfAuthor.getD author) }

/-- One turn of the loop in `cache_agent_claims`. -/
def applyObservation (now : Int) (store : WhereStore) (item : String × ClaimObservation) : WhereStore :=
  let learned := match observedSelf item.2 with
    | some self => learnSelfAuthor store self
    | none => store
  match decideClaim (cachedAgentClaim store item.1) item.2 now with
  | none => learned
  | some next => { learned with claimCache := learned.claimCache.insert item.1 next }

def cacheAgentClaims (store : WhereStore) (observations : List (String × ClaimObservation)) (now : Int) :
    WhereStore :=
  observations.foldl (applyObservation now) store

/-- A write of observations touches the claims observed and the self author. -/
structure Touches (ids : List String) (store store' : WhereStore) : Prop where
  agents : store'.agents = store.agents
  memberName : store'.memberName = store.memberName
  state : store'.identityLogState = store.identityLogState
  moves : store'.agentMove = store.agentMove
  foreign : store'.foreign = store.foreign
  others : ∀ id, id ∉ ids → cachedAgentClaim store' id = cachedAgentClaim store id

theorem applyObservation_touches (now : Int) (store : WhereStore) (item : String × ClaimObservation) :
    Touches [item.1] store (applyObservation now store item) := by
  have claims : ∀ {id}, id ∉ [item.1] → id ≠ item.1 := fun absent => by simpa using absent
  unfold applyObservation
  cases observedSelf item.2 <;>
    cases decideClaim (cachedAgentClaim store item.1) item.2 now <;>
    constructor <;> first | rfl | (intro id absent; simp [cachedAgentClaim,learnSelfAuthor,claims absent])

theorem cacheAgentClaims_touches (store : WhereStore) (observations : List (String × ClaimObservation))
    (now : Int) : Touches (observations.map Prod.fst) store (cacheAgentClaims store observations now) := by
  unfold cacheAgentClaims
  induction observations generalizing store with
  | nil => exact ⟨rfl,rfl,rfl,rfl,rfl,fun _ _ => rfl⟩
  | cons item rest ih =>
    have first := applyObservation_touches now store item
    have later := ih (applyObservation now store item)
    refine ⟨later.agents.trans first.agents,later.memberName.trans first.memberName,
      later.state.trans first.state,later.moves.trans first.moves,later.foreign.trans first.foreign,?_⟩
    intro id absent
    simp only [List.map_cons,List.mem_cons,not_or] at absent
    exact (later.others id absent.2).trans (first.others id (by simpa using absent.1))

end Entorhinal.Where
