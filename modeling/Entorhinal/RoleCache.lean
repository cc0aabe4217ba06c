import Entorhinal.ClaimCache
import Entorhinal.RecordClient
import Entorhinal.Refusal
import Entorhinal.Table
import Mathlib.Data.String.Defs
import Mathlib.Data.String.Basic

/-! Machine-local role observations and operator-approved attempts to take a
role. Each definition is one transaction of the store. -/
namespace Entorhinal.RoleCache
open ClaimCache

/-- The body of a role record. -/
structure RoleClaim where
  v : Nat
  role : String
  holder : Option String
  epoch : Int
  reason : String
deriving DecidableEq, Repr

structure RoleTakeInput where
  role : String
  expectedEpoch : Int
  requestId : String
  reason : String
deriving DecidableEq, Repr

structure RoleTakeAttempt where
  input : RoleTakeInput
  expectedVersion : Int
  body : RoleClaim
  epoch : Option Int
deriving DecidableEq, Repr

structure RoleRead where
  role : String
  known : Bool
  heldHere : Bool
  epoch : Int
  holder : Option String
  holderName : Option String
  source : Option String
  stale : Bool
deriving DecidableEq, Repr

/-- The fence another module stamps on work only the role's holder may do. -/
structure RoleFence where
  role : String
  subject : String
  version : Int
  epoch : Int
  heldHere : Bool
  holder : Option String
  stale : Bool
deriving DecidableEq, Repr

/-- One row of `role_cache`; an enrolled role that was never read has no read time. -/
structure RoleRow where
  holder : Option String
  epoch : Int
  source : Option String
  stale : Bool
  version : Int
  readAtMs : Option Int
  integrityFailed : Bool
deriving DecidableEq, Repr

/-- The tables the role operations read and write. `foreign` is the process's
view of `store_origin`. -/
structure RoleStore where
  roleCache : Table String RoleRow
  roleTakeRequest : Table String RoleTakeAttempt
  selfIdentity : Option (String × Int)
  memberName : Table String String
  foreign : Bool
deriving DecidableEq

def refusal (code : String) : AgentMutationError := ⟨code,code,[]⟩

def validRole (role : String) : Bool :=
  1 ≤ role.length && role.length ≤ 64 &&
    role.toList.all fun b => ('a' ≤ b && b ≤ 'z') || ('0' ≤ b && b ≤ '9') || b == '_'

def validAuthor (author : String) : Bool :=
  author.length == 32 && author.toList.all fun b => ('0' ≤ b && b ≤ '9') || ('a' ≤ b && b ≤ 'f')

def RoleClaim.decode (role : String) (claim : RoleClaim) : Except String RoleClaim :=
  if claim.v ≠ 1 then .error "claim_version_unknown"
  else if claim.role ≠ role then .error "claim_subject_mismatch"
  else if !validRole claim.role || claim.epoch < 0 || (1 ≤ claim.epoch && claim.holder.isNone) ||
      claim.holder.any (fun h => !validAuthor h) then .error "claim_malformed"
  else .ok claim

def ensureRole (store : RoleStore) (role : String) : Except AgentMutationError RoleStore :=
  if !validRole role then .error (refusal "invalid_request")
  else if store.roleCache.has role then .ok store
  else if 256 ≤ store.roleCache.size then .error (refusal "role_set_full")
  else .ok { store with roleCache := store.roleCache.insert role ⟨none,0,none,true,0,none,false⟩ }

def RoleRow.cached (row : RoleRow) : Option CachedClaim :=
  row.readAtMs.map fun readAtMs =>
    ⟨row.holder,row.epoch,none,row.version,readAtMs,row.stale,row.integrityFailed⟩

def cached (store : RoleStore) (role : String) : Option CachedClaim :=
  (store.roleCache.get? role).bind RoleRow.cached

def writeCache (store : RoleStore) (role : String) (row : CachedClaim) (source : Option String) :
    RoleStore :=
  let entry : RoleRow :=
    ⟨row.holder,row.epoch,source,row.stale,row.version,some row.readAtMs,row.integrityFailed⟩
  { store with roleCache := store.roleCache.insert role entry }

def loadAttempt (store : RoleStore) (input : RoleTakeInput) :
    Except AgentMutationError (Option RoleTakeAttempt) :=
  match store.roleTakeRequest.get? input.requestId with
  | none => .ok none
  | some attempt => if attempt.input ≠ input then .error (refusal "id_reused") else .ok (some attempt)

def selfAuthor (store : RoleStore) : Option String := store.selfIdentity.map Prod.fst

/-- Returns false on conflict without replacing the persisted identity. -/
def learnSelfAuthor (store : RoleStore) (author : String) (now : Int) : RoleStore × Bool :=
  match store.selfIdentity with
  | some known => (store,known.1 == author)
  | none => ({ store with selfIdentity := some (author,now) },true)

def holderName (store : RoleStore) (holder : Option String) : Option String :=
  holder.bind store.memberName.get?

/-- The claim is this machine's. -/
def heldHere (row : Option CachedClaim) (own : Option String) : Bool :=
  match row with
  | none => false
  | some row => decide (1 ≤ row.epoch) && row.holder.isSome && row.holder == own

def readRole (store : RoleStore) (role : String) : Except AgentMutationError RoleRead :=
  let row := cached store role
  if row.any (·.integrityFailed) then .error (refusal "claim_integrity_failed")
  else match store.roleCache.get? role with
    | none => .error ⟨"storage_error","Query returned no rows",[]⟩
    | some entry => .ok {
        role := role
        known := row.isSome
        heldHere := heldHere row (selfAuthor store)
        epoch := (row.map (·.epoch)).getD 0
        holder := row.bind (·.holder)
        holderName := holderName store (row.bind (·.holder))
        source := entry.source
        stale := row.all (·.stale) }

/-- What `role_read` answers for a store of another machine. -/
def foreignRead (role : String) : RoleRead := ⟨role,false,false,0,none,none,none,true⟩

/-- The second read of `role_fence`. -/
def cachedVersion (store : RoleStore) (role : String) : Int :=
  ((cached store role).map (·.version)).getD 0

def roleFence (read : RoleRead) (version : Int) : RoleFence where
  role := read.role
  subject := "role:" ++ read.role
  version := version
  epoch := read.epoch
  heldHere := read.heldHere
  holder := read.holder
  stale := read.stale

/-- Each store that is opened keeps its observations, but none proves freshness. -/
def staleRoles (store : RoleStore) : RoleStore :=
  { store with roleCache := store.roleCache.update fun _ row => { row with stale := true } }

def roleSubjects (store : RoleStore) : List String := store.roleCache.keys

/-- Whether the observation gives the row a new body, and so a new source. -/
def replaces (old : Option CachedClaim) : ClaimObservation → Bool
  | .present claim _ => old.all fun r => r.version ≤ claim.version
  | .absent stale _ => !stale || old.all fun r => r.version == 0
  | _ => false

def observedSelf : ClaimObservation → Option String
  | .present _ self | .absent _ self | .codecFailed self => some self
  | _ => none

def learnObserved (store : RoleStore) (observation : ClaimObservation) (now : Int) :
    RoleStore × Bool :=
  match observedSelf observation with
  | some self => learnSelfAuthor store self now
  | none => (store,true)

/-- One turn of the loop in `cache_roles`. -/
def cacheRole (store : RoleStore) (role : String) (observation : ClaimObservation) (now : Int) :
    RoleStore × Nat :=
  let source := (store.roleCache.get? role).bind (·.source)
  let learned := learnObserved store observation now
  let conflicts := if learned.2 then 0 else 1
  match decideClaim (cached store role) observation now with
  | none => (learned.1,conflicts)
  | some row =>
    (writeCache learned.1 role row
      (if replaces (cached store role) observation then some "cloud" else source),conflicts)

def cacheRoles (store : RoleStore) (observations : List (String × ClaimObservation)) (now : Int) :
    RoleStore × Nat :=
  observations.foldl (fun (store,conflicts) (role,observation) =>
    let (store,more) := cacheRole store role observation now
    (store,conflicts + more)) (store,0)

def prepareRoleTake (store : RoleStore) (attempt : RoleTakeAttempt) (self : String) (now : Int) :
    RoleStore × Except AgentMutationError RoleTakeAttempt :=
  match loadAttempt store attempt.input with
  | .ok (some existing) => (store,.ok existing)
  | .error e => (store,.error e)
  | .ok none =>
    if (selfAuthor store).any (· != self) then (store,.error (refusal "self_author_conflict"))
    else match ensureRole store attempt.input.role with
      | .error e => (store,.error e)
      | .ok enrolled =>
        let learned := (learnSelfAuthor enrolled self now).1
        ({ learned with roleTakeRequest :=
            learned.roleTakeRequest.insert attempt.input.requestId { attempt with epoch := none } },
          .ok attempt)

def finishRoleTake (store : RoleStore) (attempt : RoleTakeAttempt) (holder : String)
    (epoch version now : Int) : RoleStore :=
  let ledger := store.roleTakeRequest.update fun id row =>
    if id = attempt.input.requestId then { row with epoch := some epoch } else row
  writeCache { store with roleTakeRequest := ledger } attempt.input.role
    ⟨some holder,epoch,none,version,now,false,false⟩ (some "local")

section Lemmas

variable (store : RoleStore) (role other : String)

@[simp] theorem cached_writeCache (row : CachedClaim) (source : Option String) :
    cached (writeCache store role row source) other =
      if other = role then some { row with cutId := none } else cached store other := by
  by_cases same : other = role <;> simp [cached,writeCache,same,RoleRow.cached]

@[simp] theorem writeCache_self (row : CachedClaim) (source : Option String) :
    (writeCache store role row source).selfIdentity = store.selfIdentity := rfl

@[simp] theorem writeCache_requests (row : CachedClaim) (source : Option String) :
    (writeCache store role row source).roleTakeRequest = store.roleTakeRequest := rfl

@[simp] theorem cached_learnSelfAuthor (author : String) (now : Int) :
    cached (learnSelfAuthor store author now).1 role = cached store role := by
  unfold learnSelfAuthor; split <;> rfl

@[simp] theorem learnSelfAuthor_requests (author : String) (now : Int) :
    (learnSelfAuthor store author now).1.roleTakeRequest = store.roleTakeRequest := by
  unfold learnSelfAuthor; split <;> rfl

/-- An identity once learned stays. -/
theorem learnSelfAuthor_self (author : String) (now : Int) {own : String}
    (known : selfAuthor store = some own) :
    selfAuthor (learnSelfAuthor store author now).1 = some own := by
  unfold learnSelfAuthor
  cases identity : store.selfIdentity with
  | none => simp [selfAuthor,identity] at known
  | some pair => exact known

@[simp] theorem cached_staleRoles :
    cached (staleRoles store) role = (cached store role).map fun row => { row with stale := true } := by
  simp only [cached,staleRoles,Table.get?_update]
  cases store.roleCache.get? role with
  | none => rfl
  | some row => cases read : row.readAtMs <;> simp [RoleRow.cached,read]

/-- Enrolling a role observes nothing. -/
theorem cached_ensureRole {enrolled : RoleStore} (ok : ensureRole store role = .ok enrolled) :
    cached enrolled other = cached store other := by
  unfold ensureRole at ok
  split at ok
  · cases ok
  · split at ok
    · cases ok; rfl
    · split at ok
      · cases ok
      · next absent _ =>
        cases ok
        by_cases same : other = role
        · have none : store.roleCache.get? role = none := by simpa [Table.has] using absent
          simp [cached,same,none,RoleRow.cached]
        · simp [cached,same]

theorem ensureRole_frame {enrolled : RoleStore} (ok : ensureRole store role = .ok enrolled) :
    enrolled.selfIdentity = store.selfIdentity ∧ enrolled.roleTakeRequest = store.roleTakeRequest ∧
      enrolled.foreign = store.foreign := by
  unfold ensureRole at ok
  split at ok
  · cases ok
  · split at ok
    · cases ok; exact ⟨rfl,rfl,rfl⟩
    · split at ok
      · cases ok
      · cases ok; exact ⟨rfl,rfl,rfl⟩

/-- A role read shows the cached row and nothing else. -/
theorem readRole_ok {read : RoleRead} (ok : readRole store role = .ok read) :
    read.role = role ∧ read.epoch = ((cached store role).map (·.epoch)).getD 0 ∧
      read.holder = (cached store role).bind (·.holder) ∧
      read.heldHere = heldHere (cached store role) (selfAuthor store) ∧
      read.stale = (cached store role).all (·.stale) := by
  simp only [readRole] at ok
  split at ok
  next => cases ok
  next =>
    cases entry : store.roleCache.get? role with
    | none => simp [entry] at ok
    | some row =>
      simp only [entry,Except.ok.injEq] at ok
      subst ok
      exact ⟨rfl,rfl,rfl,rfl,rfl⟩

@[simp] theorem cached_learnObserved (observation : ClaimObservation) (now : Int) :
    cached (learnObserved store observation now).1 role = cached store role := by
  unfold learnObserved; split <;> simp

theorem learnObserved_self (observation : ClaimObservation) (now : Int) {own : String}
    (known : selfAuthor store = some own) :
    selfAuthor (learnObserved store observation now).1 = some own := by
  unfold learnObserved
  split
  · exact learnSelfAuthor_self store _ now known
  · exact known

theorem cached_cacheRole (observation : ClaimObservation) (now : Int) :
    cached (cacheRole store role observation now).1 other =
      if other = role then
        match decideClaim (cached store role) observation now with
        | some row => some { row with cutId := none }
        | none => cached store role
      else cached store other := by
  by_cases same : other = role
  · subst same
    cases decided : decideClaim (cached store other) observation now <;> simp [cacheRole,decided]
  · cases decided : decideClaim (cached store role) observation now <;>
      simp [cacheRole,decided,same]

theorem cacheRole_requests (observation : ClaimObservation) (now : Int) :
    (cacheRole store role observation now).1.roleTakeRequest = store.roleTakeRequest := by
  have learned : (learnObserved store observation now).1.roleTakeRequest = store.roleTakeRequest := by
    unfold learnObserved; split <;> simp
  cases decided : decideClaim (cached store role) observation now <;> simp [cacheRole,decided,learned]

theorem cacheRole_self (observation : ClaimObservation) (now : Int) {own : String}
    (known : selfAuthor store = some own) :
    selfAuthor (cacheRole store role observation now).1 = some own := by
  have learned := learnObserved_self store observation now known
  cases decided : decideClaim (cached store role) observation now <;>
    simpa [cacheRole,decided,selfAuthor] using learned

end Lemmas
end Entorhinal.RoleCache
