import Entorhinal.RoleFence
import Entorhinal.MoveStore
import Entorhinal.SessionBinding
import Entorhinal.Whereabouts

/-! Observations of one record that reach the cache in any order, possibly long
after they were read. Two observations take a row back by design: a fresh
absence, and a body at epoch zero, which is remembered without its version. -/
namespace Entorhinal.ClaimCache
open RecordClient

section Observations

variable {β : Type}

/-- What a codec reads from the body of a claim or role record. -/
structure ClaimBody where
  holder : Option String
  epoch : Int
  cutId : Option String
deriving DecidableEq, Repr

/-- A reply of the record service: the newest write, the copy of an earlier one,
no copy, or a failure. -/
def readRecord (record : Register String String β) (self : String) :
    RoleFence.Observed → Except RecordError (RecordReply β)
  | .fresh => .ok (.shows record.current self false)
  | .copy version => .ok (.shows (record.writes.find? fun x => x.version == version) self true)
  | .noCopy => .ok (.shows (none : Option (Written String String β)) self true)
  | .failed code => .error (.refused code)

/-- The observation a refresh pass makes of one entry of a page. -/
def observe (decode : Option β → Except String ClaimBody) :
    Except RecordError (RecordReply β) → ClaimObservation
  | .error e => if e.code = "verify_failed" ∨ e.code = "decrypt_failed" then .integrityFailed
    else .unavailable
  | .ok r => if r.absent then .absent r.stale r.selfAuthor
    else match decode r.body with
      | .error _ => .codecFailed r.selfAuthor
      | .ok claim =>
        if (r.version : Int) ≤ i64Max then
          .present ⟨claim.holder,claim.epoch,claim.cutId,r.version,0,r.stale,false⟩ r.selfAuthor
        else .codecFailed r.selfAuthor

/-- The codec of agent claims. -/
def agentBody (id : String) (body : Option Move.AgentClaim) : Except String ClaimBody :=
  (Move.decodeClaim id body).map fun claim => ⟨claim.holder,claim.epoch,claim.cutId⟩

/-- The codec of roles; a role row has no cut. -/
def roleBody (role : String) : Option RoleCache.RoleClaim → Except String ClaimBody
  | none => .error "claim_malformed"
  | some body => (body.decode role).map fun claim => ⟨claim.holder,claim.epoch,none⟩

theorem observe_role (role : String) : RoleFence.observation role = observe (roleBody role) := by
  funext read
  cases read with
  | error e => rfl
  | ok r =>
    simp only [RoleFence.observation,observe]
    congr 1
    cases r.body with
    | none => rfl
    | some body => cases decoded : body.decode role <;> simp [roleBody,decoded,Except.map]

/-- What `apply_claim` of a move source caches of the reply it got; with
`requirePresent` an absent record does not decode. -/
def Source.applied (id : String) (requirePresent : Bool) (r : RecordReply Move.AgentClaim) :
    Except String ClaimObservation :=
  if r.stale then .error "unavailable"
  else if r.absent && !requirePresent then .ok (.absent false r.selfAuthor)
  else match Move.decodeClaim id r.body with
    | .error code => .error code
    | .ok claim =>
      if !requirePresent && 1 ≤ claim.epoch && claim.holder != some r.selfAuthor then
        .error "claim_moved"
      else if i64Max < r.version then .error "claim_version_unknown"
      else .ok (.present ⟨claim.holder,claim.epoch,claim.cutId,r.version,0,false,false⟩ r.selfAuthor)

/-- What `apply_claim` of a move receiver caches of the reply it got. -/
def Receiver.applied (id : String) (r : RecordReply Move.AgentClaim) :
    Except String ClaimObservation :=
  if r.stale then .error "unavailable"
  else if r.absent then .ok (.absent false r.selfAuthor)
  else match Move.decodeClaim id r.body with
    | .error code => .error code
    | .ok claim =>
      if i64Max < r.version then .error "claim_version_unknown"
      else .ok (.present ⟨claim.holder,claim.epoch,claim.cutId,r.version,0,false,false⟩ r.selfAuthor)

/-- The move drivers cache what a refresh pass would make of the same reply. -/
theorem receiver_applied {id : String} {r : RecordReply Move.AgentClaim} {o : ClaimObservation}
    (made : Receiver.applied id r = .ok o) : o = observe (agentBody id) (.ok r) := by
  unfold Receiver.applied at made
  split at made
  next => cases made
  next fresh =>
    simp only [Bool.not_eq_true] at fresh
    split at made
    next gone => cases made; simp [observe,gone,fresh]
    next there =>
      cases decoded : Move.decodeClaim id r.body with
      | error code => simp [decoded] at made
      | ok claim =>
        simp only [decoded] at made
        split at made
        next => cases made
        next fits =>
          cases made
          simp [observe,there,agentBody,decoded,Except.map,fresh,not_lt.mp fits]

theorem source_applied {id : String} {requirePresent : Bool} {r : RecordReply Move.AgentClaim}
    {o : ClaimObservation} (shown : r.absent = true → r.body = none)
    (made : Source.applied id requirePresent r = .ok o) : o = observe (agentBody id) (.ok r) := by
  unfold Source.applied at made
  split at made
  next => cases made
  next fresh =>
    simp only [Bool.not_eq_true] at fresh
    split at made
    next gone =>
      cases made
      simp [observe,(Bool.and_eq_true_iff.mp gone).1,fresh]
    next there =>
      cases decoded : Move.decodeClaim id r.body with
      | error code => simp [decoded] at made
      | ok claim =>
        have present : r.absent = false := by
          by_contra absent
          rw [shown (by simpa using absent)] at decoded
          cases decoded
        simp only [decoded] at made
        split at made
        next => cases made
        split at made
        next => cases made
        next fits =>
          cases made
          simp [observe,present,agentBody,decoded,Except.map,fresh,not_lt.mp fits]

/-- Read at some time from the history of a record, which has grown since. -/
def ReadFrom (record : Register String String β) (decode : Option β → Except String ClaimBody)
    (self : String) (o : ClaimObservation) : Prop :=
  ∃ past seen, past.writes <:+ record.writes ∧ o = observe decode (readRecord past self seen)

/-- What a row shows of one write of the record. -/
def Shows (decode : Option β → Except String ClaimBody) (x : Written String String β)
    (content : Int × Int × Option String) : Prop :=
  ∃ body, decode (some x.body) = .ok body ∧ content = ((x.version : Int),body.epoch,body.holder)

variable {record : Register String String β} {decode : Option β → Except String ClaimBody}
variable {own : String} {o : ClaimObservation}

/-- A present observation shows a write of the history it was read from. -/
theorem ReadFrom.present {claim : CachedClaim} {author : String}
    (read : ReadFrom record decode own (.present claim author)) :
    author = own ∧ ∃ x ∈ record.writes, Shows decode x claim.content := by
  obtain ⟨past,seen,part,made⟩ := read
  have shown : ∀ write stale, (∀ x, write = some x → x ∈ past.writes) →
      .present claim author = observe decode (.ok (.shows write own stale)) →
      author = own ∧ ∃ x ∈ record.writes, Shows decode x claim.content := by
    intro write stale member made
    cases write with
    | none => simp [observe,RecordReply.shows] at made
    | some x =>
      cases decoded : decode (some x.body) with
      | error code => simp [observe,RecordReply.shows,decoded] at made
      | ok body =>
        by_cases fits : (x.version : Int) ≤ i64Max
        · simp [observe,RecordReply.shows,decoded,fits] at made
          obtain ⟨rfl,rfl⟩ := made
          exact ⟨rfl,x,part.subset (member x rfl),body,decoded,rfl⟩
        · simp [observe,RecordReply.shows,decoded,fits] at made
  cases seen with
  | fresh => exact shown _ _ (fun _ found => Register.current_mem found) made
  | copy version => exact shown _ _ (fun _ found => List.mem_of_find?_eq_some found) made
  | noCopy => exact shown none true (by simp) made
  | failed code =>
    simp only [readRecord,observe] at made
    split at made <;> cases made

/-- Every observation of this machine carries its own author. -/
theorem ReadFrom.author (read : ReadFrom record decode own o) :
    ∀ author, Where.observedSelf o = some author → author = own := by
  obtain ⟨past,seen,_,rfl⟩ := read
  have replied : ∀ (r : RecordReply β), r.selfAuthor = own →
      ∀ author, Where.observedSelf (observe decode (.ok r)) = some author → author = own := by
    intro r mine author found
    simp only [observe] at found
    split at found
    next => cases found; exact mine
    next =>
      split at found
      next => cases found; exact mine
      next => split at found <;> cases found <;> exact mine
  cases seen with
  | failed code => intro author found; simp only [readRecord,observe] at found; split at found <;> cases found
  | _ => exact replied _ rfl

end Observations

/-- A row as it is remembered of a present observation: at epoch zero its
version is not kept. -/
def CachedClaim.normal (claim : CachedClaim) : Int × Int × Option String :=
  if claim.epoch = 0 then (0,0,none) else claim.content

def ClaimObservation.freshAbsence : ClaimObservation → Bool
  | .absent false _ => true
  | _ => false

/-- A verified body at least as new as this version. -/
def ClaimObservation.verified (version : Int) : ClaimObservation → Bool
  | .present claim _ => version ≤ claim.version
  | _ => false

/-- What takes a row at this version back to an unclaimed one. -/
def ClaimObservation.resets (version : Int) : ClaimObservation → Bool
  | .present claim _ => claim.epoch = 0 && version < claim.version
  | o => o.freshAbsence

/-- One observation of a known row: what it knew and its mark stay, it is
unclaimed by a fresh absence, or it takes a body at least as new. A row at
version zero may become unclaimed without losing its mark. -/
theorem decideClaim_known {cached : CachedClaim} {o : ClaimObservation} {now : Int} :
    ∃ row, decideClaim (some cached) o now = some row ∧
      ((row.content = cached.content ∧ (cached.integrityFailed = true → row.integrityFailed = true)) ∨
       (cached.version < 1 ∧ row.content = (0,0,none) ∧
          (cached.integrityFailed = true → row.integrityFailed = true)) ∨
       (o.freshAbsence = true ∧ row.content = (0,0,none)) ∨
       ∃ claim self, o = .present claim self ∧ cached.version ≤ claim.version ∧
          row.content = claim.normal) := by
  cases o with
  | integrityFailed => exact ⟨_,rfl,.inl ⟨rfl,fun _ => rfl⟩⟩
  | codecFailed self => exact ⟨_,rfl,.inl ⟨rfl,fun _ => rfl⟩⟩
  | unavailable => exact ⟨_,rfl,.inl ⟨rfl,id⟩⟩
  | present claim self =>
    by_cases older : claim.version < cached.version
    · refine ⟨{ cached with stale := true, readAtMs := now },?_,.inl ⟨rfl,id⟩⟩
      simp [decideClaim,decideBody,older]
    · by_cases unheld : claim.epoch = 0
      · refine ⟨{ unclaimed now claim.stale false with readAtMs := now },?_,
          .inr (.inr (.inr ⟨claim,self,rfl,not_lt.mp older,?_⟩))⟩
        · simp [decideClaim,decideBody,older,unheld]
        · simp [CachedClaim.normal,CachedClaim.content,unclaimed,unheld]
      · refine ⟨{ claim with integrityFailed := false, readAtMs := now },?_,
          .inr (.inr (.inr ⟨claim,self,rfl,not_lt.mp older,?_⟩))⟩
        · simp [decideClaim,decideBody,older,unheld]
        · simp [CachedClaim.normal,CachedClaim.content,unheld]
  | absent stale self =>
    cases stale with
    | false => exact ⟨_,rfl,.inr (.inr (.inl ⟨rfl,rfl⟩))⟩
    | true =>
      by_cases known : 1 ≤ cached.version
      · refine ⟨{ cached with stale := true, readAtMs := now },?_,.inl ⟨rfl,id⟩⟩
        simp [decideClaim,decideBody,known]
      · refine ⟨{ unclaimed now true cached.integrityFailed with readAtMs := now },?_,
          .inr (.inl ⟨by omega,rfl,id⟩)⟩
        simp [decideClaim,decideBody,known]

/-- The first observation of a record that was never read. -/
theorem decideClaim_unknown {o : ClaimObservation} {now : Int} {row : CachedClaim}
    (decided : decideClaim none o now = some row) :
    row.content = (0,0,none) ∨ ∃ claim self, o = .present claim self ∧ row.content = claim.normal := by
  cases o with
  | integrityFailed => cases decided; exact .inl rfl
  | codecFailed self => cases decided; exact .inl rfl
  | unavailable => cases decided
  | absent stale self => cases decided; exact .inl rfl
  | present claim self =>
    refine .inr ⟨claim,self,rfl,?_⟩
    by_cases unheld : claim.epoch = 0
    · simp only [decideClaim,decideBody,if_pos unheld,Option.map_some,Option.some.injEq] at decided
      subst decided
      simp [CachedClaim.normal,CachedClaim.content,unclaimed,unheld]
    · simp only [decideClaim,decideBody,if_neg unheld,Option.map_some,Option.some.injEq] at decided
      subst decided
      simp [CachedClaim.normal,CachedClaim.content,unheld]

/-- A store of observed records, one row a subject: an observation decides the
row of its own subject, which the store may keep without its cut. -/
structure Cache (σ : Type) where
  row : σ → String → Option CachedClaim
  cache : σ → Int × String × ClaimObservation → σ
  keep : CachedClaim → CachedClaim
  keep_content : ∀ row, (keep row).content = row.content
  keep_mark : ∀ row, (keep row).integrityFailed = row.integrityFailed
  own : ∀ store now subject o, row (cache store (now,subject,o)) subject =
    (decideClaim (row store subject) o now).map keep
  others : ∀ store now subject o other, other ≠ subject →
    row (cache store (now,subject,o)) other = row store other

/-- `cache_agent_claims` and the pages of the move drivers. -/
def agentClaims : Cache Where.WhereStore where
  row := Where.cachedAgentClaim
  cache store item := Where.applyObservation item.1 store item.2
  keep row := row
  keep_content _ := rfl
  keep_mark _ := rfl
  own store now subject o := by
    unfold Where.applyObservation
    cases decided : decideClaim (Where.cachedAgentClaim store subject) o now with
    | none =>
      have unread : Where.cachedAgentClaim store subject = none := by
        cases before : Where.cachedAgentClaim store subject with
        | none => rfl
        | some cached =>
          obtain ⟨row,made,_⟩ := @decideClaim_known cached o now
          rw [before,made] at decided
          cases decided
      cases Where.observedSelf o <;> exact unread
    | some row => cases Where.observedSelf o <;> simp [Where.cachedAgentClaim]
  others store now subject o other different := by
    exact (Where.applyObservation_touches now store (subject,o)).others other (by simpa using different)

/-- `cache_roles`. -/
def roleClaims : Cache RoleCache.RoleStore where
  row := RoleCache.cached
  cache store item := (RoleCache.cacheRole store item.2.1 item.2.2 item.1).1
  keep row := { row with cutId := none }
  keep_content _ := rfl
  keep_mark _ := rfl
  own store now subject o := by
    simp only [RoleCache.cached_cacheRole,if_true]
    cases decided : decideClaim (RoleCache.cached store subject) o now with
    | none =>
      cases before : RoleCache.cached store subject with
      | none => rfl
      | some cached =>
        obtain ⟨row,made,_⟩ := @decideClaim_known cached o now
        rw [before,made] at decided
        cases decided
    | some row => rfl
  others store now subject o other different := by
    simp only [RoleCache.cached_cacheRole,if_neg different]

/-- Observations cached one after another: when, of which subject, and what. -/
abbrev Items := List (Int × String × ClaimObservation)

def Cache.run {σ : Type} (c : Cache σ) (store : σ) (items : Items) : σ := items.foldl c.cache store

/-- A batch of claims is its observations one after another. -/
theorem cacheAgentClaims_run (store : Where.WhereStore) (page : List (String × ClaimObservation))
    (now : Int) :
    Where.cacheAgentClaims store page now = agentClaims.run store (page.map (now,·)) := by
  unfold Where.cacheAgentClaims Cache.run
  rw [List.foldl_map]
  rfl

theorem cacheRoles_run (store : RoleCache.RoleStore) (page : List (String × ClaimObservation))
    (now : Int) :
    (RoleCache.cacheRoles store page now).1 = roleClaims.run store (page.map (now,·)) := by
  have general : ∀ (s : RoleCache.RoleStore) (n : Nat),
      (page.foldl (fun (acc : RoleCache.RoleStore × Nat) (x : String × ClaimObservation) =>
        ((RoleCache.cacheRole acc.1 x.1 x.2 now).1,
          acc.2 + (RoleCache.cacheRole acc.1 x.1 x.2 now).2)) (s,n)).1 =
      roleClaims.run s (page.map (now,·)) := by
    induction page with
    | nil => intro s n; rfl
    | cons head rest ih => intro s n; exact ih _ _
  exact general store 0

section Runs

variable {σ β : Type} {c : Cache σ} {record : Register String String β}
variable {decode : Option β → Except String ClaimBody} {own : String} {o : ClaimObservation}
variable {row cached : CachedClaim} {version now : Int}

theorem Cache.run_append (store : σ) (before after : Items) :
    c.run store (before ++ after) = c.run (c.run store before) after := List.foldl_append

/-- The row shows a claimed write of the record, of this version or later. -/
def Tells (record : Register String String β) (decode : Option β → Except String ClaimBody)
    (version : Int) (row : CachedClaim) : Prop :=
  ∃ x ∈ record.writes, version ≤ x.version ∧ Shows decode x row.content ∧ row.epoch ≠ 0

/-- The row shows nothing claimed, or a claimed write. -/
def Told (record : Register String String β) (decode : Option β → Except String ClaimBody)
    (row : CachedClaim) : Prop :=
  row.content = (0,0,none) ∨ Tells record decode 1 row

theorem content_version (same : row.content = cached.content) : row.version = cached.version :=
  congrArg Prod.fst same

theorem content_epoch (same : row.content = cached.content) : row.epoch = cached.epoch :=
  congrArg (·.2.1) same

theorem Tells.of_content (tells : Tells record decode version cached)
    (same : row.content = cached.content) : Tells record decode version row := by
  obtain ⟨x,member,above,shows,claimed⟩ := tells
  exact ⟨x,member,above,by rwa [same],by rwa [content_epoch same]⟩

theorem Told.of_content (told : Told record decode cached)
    (same : row.content = cached.content) : Told record decode row := by
  rcases told with none | tells
  · exact .inl (same.trans none)
  · exact .inr (tells.of_content same)

/-- A claimed body that was read shows a claimed write of its own version. -/
theorem ReadFrom.tells {claim : CachedClaim} {author : String}
    (read : ReadFrom record decode own (.present claim author)) (claimed : claim.epoch ≠ 0)
    (above : version ≤ claim.version) (same : row.content = claim.content) :
    Tells record decode version row := by
  obtain ⟨_,x,member,shows⟩ := read.present
  have this : claim.version = x.version := by
    obtain ⟨body,_,content⟩ := shows
    exact congrArg Prod.fst content
  exact ⟨x,member,by omega,by rwa [same],by rwa [content_epoch same]⟩

theorem ReadFrom.version_pos {claim : CachedClaim} {author : String}
    (read : ReadFrom record decode own (.present claim author)) : 1 ≤ claim.version := by
  obtain ⟨_,x,member,body,_,content⟩ := read.present
  have this : claim.version = x.version := congrArg Prod.fst content
  have := record.positive x member
  omega

theorem ReadFrom.told {claim : CachedClaim} {author : String}
    (read : ReadFrom record decode own (.present claim author))
    (same : row.content = claim.normal) : Told record decode row := by
  by_cases unheld : claim.epoch = 0
  · exact .inl (by simpa [CachedClaim.normal,unheld] using same)
  · refine .inr (read.tells unheld read.version_pos ?_)
    simpa [CachedClaim.normal,unheld] using same

/-- Rows of observations read from the record stay told by it. -/
theorem decideClaim_told (read : ReadFrom record decode own o) {old : Option CachedClaim}
    (before : ∀ cached, old = some cached → Told record decode cached)
    (decided : decideClaim old o now = some row) : Told record decode row := by
  cases old with
  | none =>
    rcases decideClaim_unknown decided with none | ⟨claim,author,rfl,same⟩
    · exact .inl none
    · exact read.told same
  | some cached =>
    obtain ⟨next,made,change⟩ := @decideClaim_known cached o now
    rw [made] at decided
    cases decided
    rcases change with ⟨same,_⟩ | ⟨_,none,_⟩ | ⟨_,none⟩ | ⟨claim,author,rfl,_,same⟩
    · exact (before cached rfl).of_content same
    · exact .inl none
    · exact .inl none
    · exact read.told same

/-- A row at a version stays at that version or above unless it is reset. -/
theorem decideClaim_tells (read : ReadFrom record decode own o) (positive : 1 ≤ version)
    (before : Tells record decode version cached) (kept : o.resets version = false) :
    ∃ row, decideClaim (some cached) o now = some row ∧ Tells record decode version row := by
  obtain ⟨x,member,above,shows,claimed⟩ := before
  have at_version : cached.version = x.version := by
    obtain ⟨body,_,content⟩ := shows
    exact congrArg Prod.fst content
  obtain ⟨row,made,change⟩ := @decideClaim_known cached o now
  refine ⟨row,made,?_⟩
  rcases change with ⟨same,_⟩ | ⟨low,_⟩ | ⟨gone,_⟩ | ⟨claim,author,rfl,newer,same⟩
  · exact Tells.of_content ⟨x,member,above,shows,claimed⟩ same
  · omega
  · cases o <;> simp_all [ClaimObservation.resets,ClaimObservation.freshAbsence]
  · by_cases unheld : claim.epoch = 0
    · -- an unclaimed body at the row's own version would be the claimed write itself
      simp only [ClaimObservation.resets,unheld,decide_true,Bool.true_and,decide_eq_false_iff_not,
        not_lt] at kept
      obtain ⟨_,y,inside,body,decoded,content⟩ := read.present
      have written : claim.version = y.version := congrArg Prod.fst content
      have one : x = y := Register.version_inj member inside (by omega)
      obtain ⟨body',decoded',content'⟩ := shows
      subst one
      rw [decoded] at decoded'
      cases decoded'
      have held : cached.epoch = body.epoch := congrArg (·.2.1) content'
      have free : claim.epoch = body.epoch := congrArg (·.2.1) content
      omega
    · exact read.tells unheld (by omega) (by simpa [CachedClaim.normal,unheld] using same)

end Runs

section Stores

variable {σ β : Type} (c : Cache σ) (records : String → Register String String β)
variable (decode : String → Option β → Except String ClaimBody) (own : String)

/-- Every observation was read from the record of its subject. -/
def Truthful (items : Items) : Prop :=
  ∀ item ∈ items, ReadFrom (records item.2.1) (decode item.2.1) own item.2.2

/-- Rows show what the records hold. -/
def Cache.Sound (store : σ) : Prop :=
  ∀ subject row, c.row store subject = some row → Told (records subject) (decode subject) row

variable {c records decode own}

theorem Cache.cache_cases {store : σ} {item : Int × String × ClaimObservation} {subject : String}
    {row : CachedClaim} (found : c.row (c.cache store item) subject = some row) :
    (subject ≠ item.2.1 ∧ c.row store subject = some row) ∨
    (subject = item.2.1 ∧ ∃ next, decideClaim (c.row store subject) item.2.2 item.1 = some next ∧
      row = c.keep next) := by
  obtain ⟨now,named,o⟩ := item
  by_cases same : subject = named
  · subst same
    rw [c.own] at found
    obtain ⟨next,made,rfl⟩ := Option.map_eq_some_iff.mp found
    exact .inr ⟨rfl,next,made,rfl⟩
  · exact .inl ⟨same,by rwa [c.others _ _ _ _ _ same] at found⟩

theorem Cache.Sound.cache {store : σ} (sound : c.Sound records decode store)
    {item : Int × String × ClaimObservation}
    (read : ReadFrom (records item.2.1) (decode item.2.1) own item.2.2) :
    c.Sound records decode (c.cache store item) := by
  intro subject row found
  rcases Cache.cache_cases found with ⟨_,kept⟩ | ⟨rfl,next,made,rfl⟩
  · exact sound subject row kept
  · have told := decideClaim_told read (fun cached => sound _ cached) made
    exact told.of_content (c.keep_content next)

theorem Cache.Sound.run {items : Items} {store : σ} (sound : c.Sound records decode store)
    (truthful : Truthful records decode own items) : c.Sound records decode (c.run store items) := by
  induction items generalizing store with
  | nil => exact sound
  | cons item rest ih =>
    have first := sound.cache (truthful item List.mem_cons_self)
    exact ih first fun other member => truthful other (List.mem_cons_of_mem _ member)

/-- Once a row is at a version it stays there or above while nothing resets it. -/
theorem Cache.run_tells {items : Items} {store : σ} {subject : String} {version : Int}
    {cached : CachedClaim} (positive : 1 ≤ version)
    (truthful : Truthful records decode own items) (found : c.row store subject = some cached)
    (tells : Tells (records subject) (decode subject) version cached)
    (kept : ∀ item ∈ items, item.2.1 = subject → item.2.2.resets version = false) :
    ∃ row, c.row (c.run store items) subject = some row ∧
      Tells (records subject) (decode subject) version row := by
  induction items generalizing store cached with
  | nil => exact ⟨cached,found,tells⟩
  | cons item rest ih =>
    have later : Truthful records decode own rest :=
      fun other member => truthful other (List.mem_cons_of_mem _ member)
    have free : ∀ other ∈ rest, other.2.1 = subject → other.2.2.resets version = false :=
      fun other member => kept other (List.mem_cons_of_mem _ member)
    obtain ⟨now,named,o⟩ := item
    by_cases same : subject = named
    · subst same
      obtain ⟨row,made,next⟩ := (@decideClaim_tells _ _ _ _ _ _ _ now) (truthful _ List.mem_cons_self) positive
        tells (kept _ List.mem_cons_self rfl)
      have step : c.row (c.cache store (now,subject,o)) subject = some (c.keep row) := by
        rw [c.own,found,made]
        rfl
      exact ih later step (next.of_content (c.keep_content row)) free
    · have step : c.row (c.cache store (now,named,o)) subject = some cached := by
        rw [c.others _ _ _ _ _ same,found]
      exact ih later step tells free

/-- A claimed body that is cached leaves a row at its version or above. -/
theorem Cache.cached_tells {store : σ} {now : Int} {subject author : String} {claim : CachedClaim}
    (sound : c.Sound records decode store) (claimed : claim.epoch ≠ 0)
    (read : ReadFrom (records subject) (decode subject) own (.present claim author)) :
    ∃ row, c.row (c.cache store (now,subject,.present claim author)) subject = some row ∧
      Tells (records subject) (decode subject) claim.version row := by
  have normal : claim.normal = claim.content := by simp [CachedClaim.normal,claimed]
  rw [c.own]
  cases before : c.row store subject with
  | none =>
    refine ⟨_,rfl,(@ReadFrom.tells _ _ _ _ claim _ _ _ read claimed le_rfl rfl).of_content ?_⟩
    rw [c.keep_content]
    simp [claimed,CachedClaim.content]
  | some cached =>
    by_cases older : claim.version < cached.version
    · refine ⟨c.keep { cached with stale := true, readAtMs := now },?_,?_⟩
      · simp [decideClaim,decideBody,older]
      · have above := read.version_pos
        rcases sound subject cached before with none | ⟨x,member,_,shows,held⟩
        · have zero : cached.version = 0 := congrArg Prod.fst none
          omega
        · have at_version : cached.version = x.version := by
            obtain ⟨body,_,content⟩ := shows
            exact congrArg Prod.fst content
          refine @Tells.of_content _ _ _ _ cached _ ⟨x,member,by omega,shows,held⟩ ?_
          rw [c.keep_content]
          rfl
    · obtain ⟨row,made,_⟩ := @decideClaim_known cached (.present claim author) now
      refine ⟨c.keep row,by rw [made]; rfl,(@ReadFrom.tells _ _ _ _ claim _ _ _ read claimed le_rfl rfl).of_content ?_⟩
      rw [c.keep_content]
      simp only [decideClaim,decideBody,if_neg older,if_neg claimed,Option.map_some,
        Option.some.injEq] at made
      subst made
      rfl

/-- What no order of observations undoes. -/
structure Forward (c : Cache σ) (records : String → Register String String β)
    (decode : String → Option β → Except String ClaimBody) (store : σ) (items : Items) : Prop where
  /-- A row changes its body only to one at least as new, or to none by a fresh absence. -/
  body : ∀ before now subject o after, items = before ++ (now,subject,o) :: after →
    ∀ cached, c.row (c.run store before) subject = some cached →
    ∃ row, c.row (c.run store (before ++ [(now,subject,o)])) subject = some row ∧
      (row.content = cached.content ∨ (o.freshAbsence = true ∧ row.content = (0,0,none)) ∨
        ∃ claim author, o = .present claim author ∧ cached.version ≤ claim.version ∧
          row.content = claim.normal)
  /-- A mark goes only with a body at least as new, or with a fresh absence. -/
  mark : ∀ before now subject o after, items = before ++ (now,subject,o) :: after →
    ∀ cached, c.row (c.run store before) subject = some cached → cached.integrityFailed = true →
    o.verified cached.version = true ∨ o.freshAbsence = true ∨
      ∃ row, c.row (c.run store (before ++ [(now,subject,o)])) subject = some row ∧
        row.integrityFailed = true
  /-- After a claimed body the row shows a write at least as new until it is reset. -/
  newest : ∀ before now subject claim author after,
    items = before ++ (now,subject,.present claim author) :: after → claim.epoch ≠ 0 →
    (∀ item ∈ after, item.2.1 = subject → item.2.2.resets claim.version = false) →
    ∃ row, c.row (c.run store items) subject = some row ∧
      Tells (records subject) (decode subject) claim.version row

theorem Cache.row_last {store : σ} {before : Items} {now : Int} {subject : String}
    {o : ClaimObservation} : c.row (c.run store (before ++ [(now,subject,o)])) subject =
      (decideClaim (c.row (c.run store before) subject) o now).map c.keep := by
  rw [Cache.run_append]
  exact c.own ..

theorem forward {store : σ} {items : Items} (sound : c.Sound records decode store)
    (truthful : Truthful records decode own items) : Forward c records decode store items where
  body before now subject o after split cached found := by
    have past : Truthful records decode own before :=
      fun item member => truthful item (by simp [split,member])
    obtain ⟨row,made,change⟩ := @decideClaim_known cached o now
    refine ⟨c.keep row,by rw [Cache.row_last,found,made]; rfl,?_⟩
    rw [c.keep_content]
    rcases change with ⟨same,_⟩ | ⟨low,none,_⟩ | gone | newer
    · exact .inl same
    · rcases sound.run past subject cached found with unheld | ⟨x,_,above,⟨body,_,content⟩,_⟩
      · exact .inl (none.trans unheld.symm)
      · have : cached.version = x.version := congrArg Prod.fst content
        omega
    · exact .inr (.inl gone)
    · exact .inr (.inr newer)
  mark before now subject o after split cached found marked := by
    obtain ⟨row,made,change⟩ := @decideClaim_known cached o now
    have last : c.row (c.run store (before ++ [(now,subject,o)])) subject = some (c.keep row) := by
      rw [Cache.row_last,found,made]
      rfl
    rcases change with ⟨_,kept⟩ | ⟨_,_,kept⟩ | ⟨gone,_⟩ | ⟨claim,author,rfl,newer,_⟩
    · exact .inr (.inr ⟨_,last,by rw [c.keep_mark]; exact kept marked⟩)
    · exact .inr (.inr ⟨_,last,by rw [c.keep_mark]; exact kept marked⟩)
    · exact .inr (.inl gone)
    · exact .inl (by simpa [ClaimObservation.verified] using newer)
  newest before now subject claim author after split claimed kept := by
    subst split
    have past : Truthful records decode own before :=
      fun item member => truthful item (List.mem_append_left _ member)
    have read := truthful (now,subject,.present claim author) (by simp)
    obtain ⟨row,found,tells⟩ := (@Cache.cached_tells _ _ _ _ _ _ _ now) (sound.run past) claimed read
    have step : c.run store (before ++ (now,subject,.present claim author) :: after) =
        c.run (c.cache (c.run store before) (now,subject,.present claim author)) after := by
      rw [Cache.run_append]
      rfl
    rw [step]
    exact Cache.run_tells read.version_pos
      (fun item member => truthful item (by simp [member])) found tells kept

end Stores

/-- The store the session transactions see after observations were cached. -/
def sessions (session : Session.SessionStore) (store : Where.WhereStore) : Session.SessionStore :=
  { session with
    claims := store.claimCache
    selfAuthor := store.selfAuthor
    memberName := store.memberName }

/-- Only this machine's own author is ever learned. -/
theorem agentClaims_author {records : String → Register String String Move.AgentClaim} {own : String}
    {items : Items} {store : Where.WhereStore} (known : ∀ a, store.selfAuthor = some a → a = own)
    (truthful : Truthful records agentBody own items) :
    ∀ a, (agentClaims.run store items).selfAuthor = some a → a = own := by
  induction items generalizing store with
  | nil => exact known
  | cons item rest ih =>
    refine ih ?_ fun other member => truthful other (List.mem_cons_of_mem _ member)
    intro a learned
    have read := (truthful item List.mem_cons_self).author
    have kept : (agentClaims.cache store item).selfAuthor =
        (Where.observedSelf item.2.2).elim store.selfAuthor fun self => some (store.selfAuthor.getD self) := by
      simp only [agentClaims,Where.applyObservation]
      cases Where.observedSelf item.2.2 <;>
        cases decideClaim (Where.cachedAgentClaim store item.2.1) item.2.2 item.1 <;> rfl
    rw [kept] at learned
    cases seen : Where.observedSelf item.2.2 with
    | none => exact known a (by simpa [seen] using learned)
    | some self =>
      simp only [seen,Option.elim_some,Option.some.injEq] at learned
      cases before : store.selfAuthor with
      | none =>
        simp only [before,Option.getD_none] at learned
        exact learned.symm.trans (read self seen)
      | some old => exact known a (by simpa [before] using learned)

/-- A session of an agent whose cached claim is held is admitted for this machine only. -/
theorem checkRegistrationClaim_held {store : Session.SessionStore} {id : String} {row : CachedClaim}
    (found : store.claims.get? id = some row) (held : 1 ≤ row.epoch)
    (admitted : Session.checkRegistrationClaim store id = .ok ()) :
    ∃ h, row.holder = some h ∧ store.selfAuthor = some h := by
  unfold Session.checkRegistrationClaim at admitted
  rw [found] at admitted
  simp only [Session.refuse] at admitted
  split at admitted
  next => cases admitted
  split at admitted
  next => cases admitted
  next free =>
    simp only [held,decide_true,Bool.true_and,Bool.or_eq_true,not_or,Bool.not_eq_true,
      bne_eq_false_iff_eq] at free
    cases holder : row.holder with
    | none => simp [holder] at free
    | some h => exact ⟨h,rfl,by simpa [holder,eq_comm] using free.2⟩

/-- What the body of an agent's claim decodes to. -/
theorem agentBody_ok {id : String} {claim : Move.AgentClaim} {body : ClaimBody}
    (decoded : agentBody id (some claim) = .ok body) :
    body = ⟨claim.holder,claim.epoch,claim.cutId⟩ ∧ 0 ≤ claim.epoch := by
  cases plain : Move.decodeClaim id (some claim) with
  | error code => simp [agentBody,plain,Except.map] at decoded
  | ok real =>
    have same : claim = real := Option.some.inj (Move.decodeClaim_ok plain)
    have := Move.decodeClaim_epoch plain
    subst same
    exact ⟨by simpa [agentBody,plain,Except.map,eq_comm] using decoded,this⟩

namespace Late

def here : String := "0123456789abcdef0123456789abcdef"
def elsewhere : String := "fedcba9876543210fedcba9876543210"

def claim (holder : Option String) (epoch : Int) : Move.AgentClaim := ⟨1,"agent",holder,epoch,none,none⟩

/-- Another machine claims the agent, and gives it up again. -/
def taken : Register String String Move.AgentClaim :=
  Register.empty.push ⟨1,"take",elsewhere,claim (some elsewhere) 1⟩ (by decide)
def released : Register String String Move.AgentClaim :=
  taken.push ⟨2,"release",elsewhere,claim none 0⟩ (by decide)

def noRow : Where.WhereStore := ⟨.empty,.empty,none,.empty,none,[],false⟩
def noSession : Session.SessionStore := ⟨true,.empty,.empty,.empty,none,.empty,.empty,.empty,none⟩
def noRole : RoleCache.RoleStore := ⟨.empty,.empty,none,.empty,false⟩

def present (holder : Option String) (epoch version : Int) : ClaimObservation :=
  .present ⟨holder,epoch,none,version,0,false,false⟩ here

def admits (items : Items) : Except AgentMutationError Unit :=
  Session.checkRegistrationClaim (sessions noSession (agentClaims.run noRow items)) "agent"

theorem taken_read : ReadFrom taken (agentBody "agent") here (present (some elsewhere) 1 1) :=
  ⟨taken,.fresh,List.suffix_refl _,rfl⟩

end Late
end Entorhinal.ClaimCache
