import Entorhinal.RoleCache
import Entorhinal.Transition

/-! Role fences over every order of reads, refreshes and takes. The record of a
role is a compare-and-swap register that only `role.take` writes. A fence is
made of separate read transactions, a refresh page is applied long after it was
read, and a landed take is cached after a slow remote call. -/
namespace Entorhinal.RoleFence
open ClaimCache RecordClient RoleCache Transition

abbrev RoleRecord := Register String String RoleClaim

/-- What a read of a record shows: the newest write, the copy of an earlier
one, no copy, or a failure. -/
inductive Observed
  | fresh
  | copy (version : Nat)
  | noCopy
  | failed (code : String)
deriving DecidableEq, Repr

def reply (record : RoleRecord) (self : String) : Observed → Except RecordError (RecordReply RoleClaim)
  | .fresh => .ok (.shows record.current self false)
  | .copy version => .ok (.shows (record.writes.find? fun x => x.version == version) self true)
  | .noCopy => .ok (.shows (none : Option (Written String String RoleClaim)) self true)
  | .failed code => .error (.refused code)

/-- The observation the refresh makes of one entry of a page. -/
def observation (role : String) : Except RecordError (RecordReply RoleClaim) → ClaimObservation
  | .error e => if e.code = "verify_failed" ∨ e.code = "decrypt_failed" then .integrityFailed
    else .unavailable
  | .ok r => if r.absent then .absent r.stale r.selfAuthor
    else match r.body with
      | none => .codecFailed r.selfAuthor
      | some body => match body.decode role with
        | .error _ => .codecFailed r.selfAuthor
        | .ok claim =>
          if (r.version : Int) ≤ i64Max then
            .present ⟨claim.holder,claim.epoch,none,r.version,0,r.stale,false⟩ r.selfAuthor
          else .codecFailed r.selfAuthor

def validRequestId (id : String) : Bool :=
  id.length == 32 && id.toList.all fun b => ('0' ≤ b && b ≤ '9') || ('a' ≤ b && b ≤ 'f')

/-- The attempt `role.take` makes of the operator's request and the record read
after the operator approved it. -/
def takeAttempt (input : RoleTakeInput) (r : RecordReply RoleClaim) (own : Option String) :
    Except String RoleTakeAttempt :=
  if !validRole input.role || input.expectedEpoch < 0 || input.expectedEpoch = i64Max ||
      !validRequestId input.requestId then .error "invalid_request"
  else
    let claim : Except String (Option RoleClaim) :=
      if r.absent then .ok none else match r.body with
        | none => .error "claim_integrity_failed"
        | some body => match body.decode input.role with
          | .error _ => .error "claim_integrity_failed"
          | .ok claim => .ok (some claim)
    match claim with
    | .error code => .error code
    | .ok claim =>
      if (claim.map (·.epoch)).getD 0 ≠ input.expectedEpoch then .error "epoch_moved"
      else if own.any (· != r.selfAuthor) then .error "self_author_conflict"
      else if i64Max < r.version then .error "claim_integrity_failed"
      else .ok {
        input := input
        expectedVersion := r.version
        body := ⟨1,input.role,some (own.getD r.selfAuthor),input.expectedEpoch + 1,input.reason⟩
        epoch := none }

/-- Where a `role_read` or `role_fence` call stands between its transactions.
`seen` is the version of the row that the read was made from. -/
inductive Call
  | enrolling (role : String) (fence : Bool)
  | reading (role : String) (fence : Bool)
  | writing (role : String) (fence : Bool)
  | versioning (read : RoleRead) (seen : Int)
deriving DecidableEq, Repr

/-- One machine, the role records it shares with the others, and its work in
flight. `committed` lists every row the cache held after a commit. -/
structure World where
  device : String
  records : String → RoleRecord
  store : RoleStore
  calls : Table Nat Call
  pages : List (List (String × ClaimObservation))
  sent : List (RoleTakeAttempt × Except RecordError Nat)
  landed : List (RoleTakeAttempt × Nat)
  returned : List RoleFence
  committed : List (String × CachedClaim)

inductive Label
  | call (id : Nat) (role : String) (fence : Bool)
  | advance (id : Nat)
  | observe (page : List (String × Observed)) (self : String)
  | cacheRoles (index : Nat) (now : Int)
  | takeElsewhere (writeId author : String) (expected fresh : Nat) (claim : RoleClaim)
  | prepareTake (input : RoleTakeInput) (seen : Observed) (self : String) (now : Int)
  | sendTake (requestId : String) (fresh : Nat) (reached answered : Bool)
  | settleTake (index : Nat) (seen : Observed)
  | finishTake (index : Nat) (now : Int)
  | restart

def cachedRows (store : RoleStore) : List (String × CachedClaim) :=
  store.roleCache.rows.filterMap fun x => x.2.cached.map (x.1,·)

def World.commit (w : World) (store : RoleStore) : World :=
  { w with store := store, committed := cachedRows store ++ w.committed }

/-- The read of the call is made: a `role_read` returns, a `role_fence` goes on. -/
def World.answered (w : World) (id : Nat) (fence : Bool) :
    Except AgentMutationError RoleRead → World
  | .error _ => { w with calls := w.calls.erase id }
  | .ok read =>
    if fence then { w with calls := w.calls.insert id (.versioning read (cachedVersion w.store read.role)) }
    else { w with calls := w.calls.erase id }

def World.start (w : World) (id : Nat) (role : String) (fence : Bool) : World :=
  if !validRole role then w
  else if w.store.foreign then
    if fence then { w with calls := w.calls.insert id (.versioning (foreignRead role) 0) } else w
  else { w with calls := w.calls.insert id (.enrolling role fence) }

def World.advance (w : World) (id : Nat) : Call → World
  | .enrolling role fence =>
    let call := if w.store.roleCache.has role then Call.reading role fence else .writing role fence
    { w with calls := w.calls.insert id call }
  | .reading role fence => w.answered id fence (readRole w.store role)
  | .writing role fence => match ensureRole w.store role with
    | .error e => w.answered id fence (.error e)
    | .ok store => (w.commit store).answered id fence (readRole store role)
  | .versioning read _ =>
    { w with
      calls := w.calls.erase id
      returned := roleFence read (cachedVersion w.store read.role) :: w.returned }

def World.write (w : World) (role : String) (record : RoleRecord) : World :=
  { w with records := Function.update w.records role record }

def World.send (w : World) (attempt : RoleTakeAttempt) (fresh : Nat) (reached answered : Bool) :
    World :=
  let role := attempt.input.role
  if reached then
    let outcome := (w.records role).cas attempt.expectedVersion.toNat fresh attempt.input.requestId
      w.device attempt.body
    let answer : Except RecordError Nat :=
      if answered then match outcome.2 with
        | .stored version => .ok version
        | .versionMoved => .error (.refused "version_moved")
        | .idReused => .error (.refused "id_reused")
      else .error .noReply
    { w.write role outcome.1 with sent := (attempt,answer) :: w.sent }
  else { w with sent := (attempt,.error .noReply) :: w.sent }

def World.settle (w : World) (index : Nat) (attempt : RoleTakeAttempt)
    (answer : Except RecordError Nat) (holder : String) (seen : Observed) : World :=
  let role := attempt.input.role
  let settled := casSettled answer (reply (w.records role) w.device seen) holder attempt.body
    (fun body => body.decode role)
  let w := { w with sent := w.sent.eraseIdx index }
  match settled with
  | .ok (.landed version) => { w with landed := (attempt,version) :: w.landed }
  | _ => w

/-- The body a saved attempt would write, and its holder. -/
def savedBody (attempt : RoleTakeAttempt) : Option (RoleClaim × String) :=
  match attempt.body.decode attempt.input.role with
  | .error _ => none
  | .ok claim => claim.holder.map (claim,·)

def next (w : World) : Label → Option World
  | .call id role fence => if w.calls.has id then none else some (w.start id role fence)
  | .advance id => (w.calls.get? id).map (w.advance id)
  | .observe page self =>
    if (page.map Prod.fst).Nodup then
      let seen := page.map fun x => (x.1,observation x.1 (reply (w.records x.1) self x.2))
      some { w with pages := seen :: w.pages }
    else none
  | .cacheRoles index now => (w.pages[index]?).map fun page =>
    { w.commit (cacheRoles w.store page now).1 with pages := w.pages.eraseIdx index }
  | .takeElsewhere writeId author expected fresh claim =>
    -- another machine runs the same `role.take`, so its body decodes and names a holder
    if claim.decode claim.role = .ok claim ∧ 1 ≤ claim.epoch then
      some (w.write claim.role ((w.records claim.role).cas expected fresh writeId author claim).1)
    else none
  | .prepareTake input seen self now =>
    match reply (w.records input.role) self seen with
    | .error _ => none
    | .ok r => match takeAttempt input r (selfAuthor w.store) with
      | .error _ => none
      | .ok attempt => some (w.commit (prepareRoleTake w.store attempt self now).1)
  | .sendTake requestId fresh reached answered =>
    match w.store.roleTakeRequest.get? requestId with
    | none => none
    | some attempt => match savedBody attempt with
      | none => none
      | some _ => if attempt.epoch = none then some (w.send attempt fresh reached answered) else none
  | .settleTake index seen => match w.sent[index]? with
    | none => none
    | some (attempt,answer) => match savedBody attempt with
      | none => none
      | some (_,holder) => some (w.settle index attempt answer holder seen)
  | .finishTake index now => match w.landed[index]? with
    | none => none
    | some (attempt,version) => match savedBody attempt with
      | none => none
      | some (claim,holder) =>
        if (version : Int) ≤ i64Max then
          some { w.commit (finishRoleTake w.store attempt holder claim.epoch version now) with
            landed := w.landed.eraseIdx index }
        else none
  | .restart => some { w.commit (staleRoles w.store) with
      calls := ∅, pages := [], sent := [], landed := [] }

/-- The fence that one cached row, or its absence, gives. -/
def fenceOf (role : String) (row : Option CachedClaim) (own : Option String) : RoleFence where
  role := role
  subject := "role:" ++ role
  version := (row.map (·.version)).getD 0
  epoch := (row.map (·.epoch)).getD 0
  heldHere := heldHere row own
  holder := row.bind (·.holder)
  stale := row.all (·.stale)

/-- The fields come from nothing observed, or from one write of the record. -/
def Describes (record : RoleRecord) (content : Int × Int × Option String) : Prop :=
  content = (0,0,none) ∨
    ∃ x ∈ record.writes, content = ((x.version : Int),x.body.epoch,x.body.holder)

/-- Every field of the fence is that of one row the cache held. -/
def OneObservation (w : World) (fence : RoleFence) : Prop :=
  ∃ row own, (∀ c, row = some c → (fence.role,c) ∈ w.committed) ∧
    (own = none ∨ own = selfAuthor w.store) ∧ fence = fenceOf fence.role row own

/-- The record is held here at the version the fence carries. -/
def HolderAtVersion (w : World) (fence : RoleFence) : Prop :=
  ∃ x ∈ (w.records fence.role).writes, (x.version : Int) = fence.version ∧
    x.body.holder = fence.holder ∧ x.body.epoch = fence.epoch ∧ fence.holder = selfAuthor w.store

/-- No row the cache ever held is newer than the one it holds. -/
def NeverBack (w : World) : Prop :=
  ∀ role row, (role,row) ∈ w.committed → row.version ≤ cachedVersion w.store role

end Entorhinal.RoleFence
