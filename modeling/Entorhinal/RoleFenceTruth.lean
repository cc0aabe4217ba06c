import Entorhinal.RoleFence

/-! What the cache and the work in flight know of the role records in every
order of steps: each row, page, landed take and pending fence tells of a write
that stands in the record, and no step takes a write back. -/
namespace Entorhinal.RoleFence
open ClaimCache RecordClient RoleCache Transition

/-- What no step takes back: writes, rows once committed, an identity once known. -/
structure Extends (w w' : World) : Prop where
  records : ∀ role x, x ∈ (w.records role).writes → x ∈ (w'.records role).writes
  committed : ∀ x, x ∈ w.committed → x ∈ w'.committed
  self : ∀ own, selfAuthor w.store = some own → selfAuthor w'.store = some own

/-- A step that touches neither the records nor the store. -/
theorem Extends.idle {w w' : World} (records : w'.records = w.records)
    (committed : w'.committed = w.committed) (store : w'.store = w.store) : Extends w w' :=
  ⟨fun _ _ h => by rwa [records],fun _ h => by rwa [committed],fun _ h => by rwa [store]⟩

/-- What each step needs, and what it leaves. -/
inductive Step (w : World) : Label → World → Prop
  | call {id : Nat} {role : String} {fence : Bool} (free : ¬ w.calls.has id = true) :
      Step w (.call id role fence) (w.start id role fence)
  | advance {id : Nat} {call : Call} (found : w.calls.get? id = some call) : Step w (.advance id) (w.advance id call)
  | observe {page : List (String × Observed)} {self : String} (distinct : (page.map Prod.fst).Nodup) :
      Step w (.observe page self)
        { w with pages := (page.map fun x => (x.1,observation x.1 (reply (w.records x.1) self x.2))) :: w.pages }
  | cacheRoles {index : Nat} {now : Int} {page : List (String × ClaimObservation)} (found : w.pages[index]? = some page) :
      Step w (.cacheRoles index now)
        { w.commit (cacheRoles w.store page now).1 with pages := w.pages.eraseIdx index }
  | takeElsewhere {writeId author : String} {expected fresh : Nat} {claim : RoleClaim}
      (valid : claim.decode claim.role = .ok claim ∧ 1 ≤ claim.epoch) :
      Step w (.takeElsewhere writeId author expected fresh claim)
        (w.write claim.role ((w.records claim.role).cas expected fresh writeId author claim).1)
  | prepareTake {input : RoleTakeInput} {seen : Observed} {self : String} {now : Int} {r : RecordReply RoleClaim}
      {attempt : RoleTakeAttempt} (read : reply (w.records input.role) self seen = .ok r)
      (made : takeAttempt input r (selfAuthor w.store) = .ok attempt) :
      Step w (.prepareTake input seen self now) (w.commit (prepareRoleTake w.store attempt self now).1)
  | sendTake {requestId : String} {fresh : Nat} {reached answered : Bool} {attempt : RoleTakeAttempt}
      {body : RoleClaim × String} (found : w.store.roleTakeRequest.get? requestId = some attempt)
      (saved : savedBody attempt = some body) (unsettled : attempt.epoch = none) :
      Step w (.sendTake requestId fresh reached answered) (w.send attempt fresh reached answered)
  | settleTake {index : Nat} {seen : Observed} {attempt : RoleTakeAttempt} {answer : Except RecordError Nat}
      {claim : RoleClaim} {holder : String} (found : w.sent[index]? = some (attempt,answer))
      (saved : savedBody attempt = some (claim,holder)) :
      Step w (.settleTake index seen) (w.settle index attempt answer holder seen)
  | finishTake {index : Nat} {now : Int} {attempt : RoleTakeAttempt} {version : Nat} {claim : RoleClaim}
      {holder : String} (found : w.landed[index]? = some (attempt,version))
      (saved : savedBody attempt = some (claim,holder)) (fits : (version : Int) ≤ i64Max) :
      Step w (.finishTake index now) { w.commit (finishRoleTake w.store attempt holder claim.epoch version now) with
        landed := w.landed.eraseIdx index }
  | restart : Step w .restart { w.commit (staleRoles w.store) with
      calls := ∅, pages := [], sent := [], landed := [] }

theorem next_step {w w' : World} {label : Label} (taken : next w label = some w') : Step w label w' := by
  cases label with
  | call id role fence =>
    simp only [next] at taken
    split at taken
    next => cases taken
    next free => cases taken; exact .call free
  | advance id =>
    obtain ⟨call,found,rfl⟩ := Option.map_eq_some_iff.mp taken
    exact .advance found
  | observe page self =>
    simp only [next] at taken
    split at taken
    next distinct => cases taken; exact .observe distinct
    next => cases taken
  | cacheRoles index now =>
    obtain ⟨page,found,rfl⟩ := Option.map_eq_some_iff.mp taken
    exact .cacheRoles found
  | takeElsewhere writeId author expected fresh claim =>
    simp only [next] at taken
    split at taken
    next valid => cases taken; exact .takeElsewhere valid
    next => cases taken
  | prepareTake input seen self now =>
    simp only [next] at taken
    split at taken
    next => cases taken
    next r read =>
      split at taken
      next => cases taken
      next attempt made => cases taken; exact .prepareTake read made
  | sendTake requestId fresh reached answered =>
    simp only [next] at taken
    split at taken
    next => cases taken
    next attempt found =>
      split at taken
      next => cases taken
      next body saved =>
        split at taken
        next unsettled => cases taken; exact .sendTake found saved unsettled
        next => cases taken
  | settleTake index seen =>
    simp only [next] at taken
    split at taken
    next => cases taken
    next attempt answer found =>
      split at taken
      next => cases taken
      next claim holder saved => cases taken; exact .settleTake found saved
  | finishTake index now =>
    simp only [next] at taken
    split at taken
    next => cases taken
    next attempt version found =>
      split at taken
      next => cases taken
      next claim holder saved =>
        split at taken
        next fits => cases taken; exact .finishTake found saved fits
        next => cases taken
  | restart =>
    cases taken
    exact .restart

/-- An attempt whose body stands in its role's record at this version. -/
def Stored (w : World) (attempt : RoleTakeAttempt) (version : Nat) : Prop :=
  ∃ x ∈ (w.records attempt.input.role).writes, x.version = version ∧ x.body = attempt.body

namespace Extends

variable {w w' : World}

theorem describes (grown : Extends w w') {role : String} {content : Int × Int × Option String}
    (shown : Describes (w.records role) content) : Describes (w'.records role) content := by
  rcases shown with none | ⟨x,member,same⟩
  · exact .inl none
  · exact .inr ⟨x,grown.records role x member,same⟩

theorem stored (grown : Extends w w') {attempt : RoleTakeAttempt} {version : Nat}
    (kept : Stored w attempt version) : Stored w' attempt version := by
  obtain ⟨x,member,same⟩ := kept
  exact ⟨x,grown.records _ x member,same⟩

theorem oneObservation (grown : Extends w w') {fence : RoleFence}
    (one : OneObservation w fence) : OneObservation w' fence := by
  obtain ⟨row,own,seen,known,same⟩ := one
  refine ⟨row,own,fun c found => grown.committed _ (seen c found),?_,same⟩
  cases own with
  | none => exact .inl rfl
  | some own =>
    refine .inr (grown.self own ?_).symm
    simpa [eq_comm] using known

end Extends

section Records

variable {record : RoleRecord} {role self : String}

theorem decode_ok {body claim : RoleClaim} (ok : body.decode role = .ok claim) : claim = body := by
  unfold RoleClaim.decode at ok
  split at ok
  next => cases ok
  next =>
    split at ok
    next => cases ok
    next =>
      split at ok
      next => cases ok
      next => cases ok; rfl

/-- Every reply shows one write of the record or none. -/
theorem reply_ok {seen : Observed} {r : RecordReply RoleClaim} (ok : reply record self seen = .ok r) :
    ∃ write, (∀ x, write = some x → x ∈ record.writes) ∧ ∃ stale, r = .shows write self stale := by
  cases seen with
  | fresh => cases ok; exact ⟨record.current,fun _ found => Register.current_mem found,false,rfl⟩
  | copy version =>
    cases ok
    exact ⟨_,fun _ found => List.mem_of_find?_eq_some found,true,rfl⟩
  | noCopy => cases ok; exact ⟨none,by simp,true,rfl⟩
  | failed code => cases ok

/-- A present observation is the content of one write. -/
theorem observation_present {seen : Observed} {claim : CachedClaim} {author : String}
    (bodies : ∀ x ∈ record.writes, 1 ≤ x.body.epoch)
    (present : observation role (reply record self seen) = .present claim author) :
    1 ≤ claim.epoch ∧ Describes record claim.content := by
  cases read : reply record self seen with
  | error e => simp only [read,observation] at present; split at present <;> cases present
  | ok r =>
    obtain ⟨write,member,stale,rfl⟩ := reply_ok read
    cases write with
    | none => simp [read,observation,RecordReply.shows] at present
    | some x =>
      cases decoded : x.body.decode role with
      | error code => simp [read,observation,RecordReply.shows,decoded] at present
      | ok body =>
        by_cases fits : (x.version : Int) ≤ i64Max
        · simp only [read,observation,RecordReply.shows,Option.isNone_some,Bool.false_eq_true,
            if_false,Option.map_some,decoded,Option.getD_some,if_pos fits] at present
          cases present
          have inside := member x rfl
          cases decode_ok decoded
          exact ⟨bodies x inside,.inr ⟨x,inside,rfl⟩⟩
        · simp [read,observation,RecordReply.shows,decoded,fits] at present

theorem takeAttempt_ok {input : RoleTakeInput} {r : RecordReply RoleClaim} {own : Option String}
    {attempt : RoleTakeAttempt} (ok : takeAttempt input r own = .ok attempt) :
    1 ≤ attempt.body.epoch := by
  unfold takeAttempt at ok
  split at ok
  next => cases ok
  next valid =>
    simp only [Bool.or_eq_true,not_or,decide_eq_true_eq] at valid
    simp only at ok
    split at ok
    next => cases ok
    next =>
      split at ok
      next => cases ok
      next =>
        split at ok
        next => cases ok
        next =>
          split at ok
          next => cases ok
          next =>
            cases ok
            have := valid.1.1.2
            simp only
            omega

end Records

theorem mem_cachedRows {store : RoleStore} {role : String} {row : CachedClaim} :
    (role,row) ∈ cachedRows store ↔ cached store role = some row := by
  simp only [cachedRows,List.mem_filterMap,cached,Option.bind_eq_some_iff,Option.map_eq_some_iff]
  constructor
  · rintro ⟨⟨k,entry⟩,inside,c,shown,same⟩
    cases same
    exact ⟨entry,Table.mem_rows.mp inside,shown⟩
  · rintro ⟨entry,found,shown⟩
    exact ⟨(role,entry),Table.mem_rows.mpr found,row,shown,rfl⟩

section Refresh

variable {store : RoleStore} {now : Int}

theorem cacheRoles_fold (page : List (String × ClaimObservation)) :
    (cacheRoles store page now).1 = page.foldl (fun s x => (cacheRole s x.1 x.2 now).1) store := by
  have general : ∀ (s : RoleStore) (n : Nat),
      (page.foldl (fun (acc : RoleStore × Nat) (x : String × ClaimObservation) =>
        ((cacheRole acc.1 x.1 x.2 now).1,acc.2 + (cacheRole acc.1 x.1 x.2 now).2)) (s,n)).1 =
      page.foldl (fun s x => (cacheRole s x.1 x.2 now).1) s := by
    induction page with
    | nil => intro s n; rfl
    | cons head rest ih => intro s n; exact ih _ _
  exact general store 0

/-- The content a row has after one observation: what it had, nothing, or the
claim observed. -/
theorem cacheRole_content {role other : String} {observed : ClaimObservation} {row : CachedClaim}
    (found : cached (cacheRole store role observed now).1 other = some row) :
    (∃ old, cached store other = some old ∧ row.content = old.content) ∨
    (other = role ∧ (row.content = (0,0,none) ∨
      ∃ claim self, observed = .present claim self ∧ row.content = claim.content)) := by
  rw [cached_cacheRole] at found
  by_cases same : other = role
  · subst same
    cases decided : decideClaim (cached store other) observed now with
    | none => simp only [if_true,decided] at found; exact .inl ⟨row,found,rfl⟩
    | some next =>
      simp only [if_true,decided,Option.some.injEq] at found
      have content : row.content = next.content := by subst found; rfl
      rw [content]
      rcases decideClaim_cases decided with ⟨old,before,kept⟩ | ⟨cleared,_⟩ | ⟨claim,self,made,taken,_⟩
      · exact .inl ⟨old,before,kept⟩
      · exact .inr ⟨rfl,.inl cleared⟩
      · exact .inr ⟨rfl,.inr ⟨claim,self,made,taken⟩⟩
  · exact .inl ⟨row,by simpa [same] using found,rfl⟩

theorem cacheRoles_describes {records : String → RoleRecord} (page : List (String × ClaimObservation))
    (before : ∀ role row, cached store role = some row → Describes (records role) row.content)
    (observed : ∀ role claim self, (role,.present claim self) ∈ page →
      Describes (records role) claim.content) :
    ∀ role row, cached (cacheRoles store page now).1 role = some row →
      Describes (records role) row.content := by
  rw [cacheRoles_fold]
  induction page generalizing store with
  | nil => exact before
  | cons head rest ih =>
    refine ih ?_ fun role claim self member => observed role claim self (List.mem_cons_of_mem _ member)
    intro role row found
    rcases cacheRole_content found with ⟨old,kept,same⟩ | ⟨rfl,cleared | ⟨claim,self,made,taken⟩⟩
    · rw [same]; exact before role old kept
    · exact .inl cleared
    · rw [taken]
      exact observed head.1 claim self (by rw [← made]; exact List.mem_cons_self)

/-- One observation moves no other role's version, and its own only forward
unless it is a fresh absence of a role whose version is known. -/
theorem cachedVersion_cacheRole {role : String} {observed : ClaimObservation}
    (claims : ∀ claim self, observed = .present claim self → 1 ≤ claim.epoch ∧ 0 ≤ claim.version)
    (first : ∀ self, observed = .absent false self → cachedVersion store role = 0) (other : String) :
    cachedVersion store other ≤ cachedVersion (cacheRole store role observed now).1 other ∧
      (other ≠ role → cachedVersion (cacheRole store role observed now).1 other = cachedVersion store other) := by
  by_cases same : other = role
  · subst same
    refine ⟨?_,fun different => absurd rfl different⟩
    cases decided : decideClaim (cached store other) observed now with
    | none => simp [cachedVersion,cached_cacheRole,decided]
    | some row =>
      have version : cachedVersion (cacheRole store other observed now).1 other = row.version := by
        simp [cachedVersion,cached_cacheRole,decided]
      rw [version]
      rcases decideClaim_cases decided with ⟨old,before,kept⟩ | ⟨cleared,old⟩ | ⟨claim,self,made,taken,above⟩
      · have : row.version = old.version := congrArg Prod.fst kept
        simp [cachedVersion,before,this]
      · have zero : row.version = 0 := congrArg Prod.fst cleared
        rw [zero]
        rcases old with none | ⟨old,before,reason⟩
        · simp [cachedVersion,none]
        · rcases reason with ⟨claim,self,made,unheld⟩ | ⟨self,made⟩ | low
          · have := (claims claim self made).1; omega
          · exact (first self made).le
          · simp only [cachedVersion,before,Option.map_some,Option.getD_some]; omega
      · have : row.version = claim.version := congrArg Prod.fst taken
        cases before : cached store other with
        | none =>
          have := (claims claim self made).2
          simp only [cachedVersion,before,Option.map_none,Option.getD_none]; omega
        | some old =>
          have := above old before
          simp only [cachedVersion,before,Option.map_some,Option.getD_some]; omega
  · have kept : cachedVersion (cacheRole store role observed now).1 other = cachedVersion store other := by
      simp [cachedVersion,cached_cacheRole,same]
    exact ⟨kept.ge,fun _ => kept⟩

/-- A whole page moves every version only forward. -/
theorem cachedVersion_cacheRoles (page : List (String × ClaimObservation))
    (distinct : (page.map Prod.fst).Nodup)
    (claims : ∀ role claim self, (role,.present claim self) ∈ page → 1 ≤ claim.epoch ∧ 0 ≤ claim.version)
    (first : ∀ role self, (role,.absent false self) ∈ page → cachedVersion store role = 0)
    (role : String) :
    cachedVersion store role ≤ cachedVersion (cacheRoles store page now).1 role := by
  rw [cacheRoles_fold]
  induction page generalizing store with
  | nil => exact le_refl _
  | cons head rest ih =>
    obtain ⟨fresh,distinct⟩ := List.nodup_cons.mp distinct
    have one := @cachedVersion_cacheRole store now head.1 head.2
      (fun claim self made => claims head.1 claim self (by rw [← made]; exact List.mem_cons_self))
      (fun self made => first head.1 self (by rw [← made]; exact List.mem_cons_self))
    refine (one role).1.trans (ih distinct ?_ ?_)
    · exact fun r claim self member => claims r claim self (List.mem_cons_of_mem _ member)
    · intro r self member
      have other : r ≠ head.1 := by
        rintro rfl
        exact fresh (List.mem_map.mpr ⟨_,member,rfl⟩)
      rw [(one r).2 other]
      exact first r self (List.mem_cons_of_mem _ member)

theorem cacheRoles_frame (page : List (String × ClaimObservation)) :
    (cacheRoles store page now).1.roleTakeRequest = store.roleTakeRequest ∧
      ∀ own, selfAuthor store = some own → selfAuthor (cacheRoles store page now).1 = some own := by
  rw [cacheRoles_fold]
  induction page generalizing store with
  | nil => exact ⟨rfl,fun _ known => known⟩
  | cons head rest ih =>
    obtain ⟨requests,known⟩ := @ih (cacheRole store head.1 head.2 now).1
    exact ⟨requests.trans (cacheRole_requests store head.1 head.2 now),
      fun own self => known own (cacheRole_self store head.1 head.2 now self)⟩

end Refresh

/-- What holds whatever the order of steps: the cache and all work in flight
tell of writes that stand in the records. -/
structure Truthful (w : World) : Prop where
  bodies : ∀ role, ∀ x ∈ (w.records role).writes, 1 ≤ x.body.epoch
  current : ∀ role row, cached w.store role = some row → (role,row) ∈ w.committed
  committed : ∀ role row, (role,row) ∈ w.committed → Describes (w.records role) row.content
  ledger : ∀ id attempt, w.store.roleTakeRequest.get? id = some attempt → 1 ≤ attempt.body.epoch
  distinct : ∀ page ∈ w.pages, (page.map Prod.fst).Nodup
  pages : ∀ page ∈ w.pages, ∀ role claim self, (role,.present claim self) ∈ page →
    1 ≤ claim.epoch ∧ Describes (w.records role) claim.content
  sent : ∀ attempt version, (attempt,.ok version) ∈ w.sent → Stored w attempt version
  landed : ∀ attempt version, (attempt,version) ∈ w.landed → Stored w attempt version
  calls : ∀ id read seen, w.calls.get? id = some (.versioning read seen) →
    OneObservation w (roleFence read seen)

namespace Truthful

variable {w : World}

/-- Committing a store keeps the invariant when its cache tells the truth. -/
theorem commit (holds : Truthful w) {store : RoleStore}
    (shown : ∀ role row, cached store role = some row → Describes (w.records role) row.content)
    (ledger : ∀ id attempt, store.roleTakeRequest.get? id = some attempt → 1 ≤ attempt.body.epoch)
    (self : ∀ own, selfAuthor w.store = some own → selfAuthor store = some own) :
    Truthful (w.commit store) ∧ Extends w (w.commit store) := by
  have grown : Extends w (w.commit store) :=
    ⟨fun _ _ h => h,fun _ h => List.mem_append_right _ h,self⟩
  refine ⟨⟨holds.bodies,?_,?_,ledger,holds.distinct,holds.pages,holds.sent,holds.landed,?_⟩,grown⟩
  · exact fun role row found => List.mem_append_left _ (mem_cachedRows.mpr found)
  · intro role row member
    rcases List.mem_append.mp member with fresh | old
    · exact shown role row (mem_cachedRows.mp fresh)
    · exact holds.committed role row old
  · exact fun id read seen found => grown.oneObservation (holds.calls id read seen found)

/-- The read made in a transaction shows one row of the cache. -/
theorem readRole_observes (holds : Truthful w) {role : String} {read : RoleRead}
    (ok : readRole w.store role = .ok read) :
    OneObservation w (roleFence read (cachedVersion w.store read.role)) := by
  obtain ⟨same,epoch,holder,held,stale⟩ := readRole_ok w.store role ok
  refine ⟨cached w.store role,selfAuthor w.store,fun c found => ?_,.inr rfl,?_⟩
  · simpa [roleFence,same] using holds.current role c found
  · simp [roleFence,fenceOf,cachedVersion,same,epoch,holder,held,stale]

theorem setCalls (holds : Truthful w) (calls : Table Nat Call)
    (kept : ∀ id read seen, calls.get? id = some (.versioning read seen) →
      OneObservation w (roleFence read seen)) : Truthful { w with calls := calls } :=
  ⟨holds.bodies,holds.current,holds.committed,holds.ledger,holds.distinct,holds.pages,holds.sent,
    holds.landed,kept⟩

theorem insertCall (holds : Truthful w) (id : Nat) (call : Call)
    (ready : ∀ read seen, call = .versioning read seen → OneObservation w (roleFence read seen)) :
    Truthful { w with calls := w.calls.insert id call } := by
  apply holds.setCalls
  intro other read seen found
  rw [Table.get?_insert] at found
  split at found
  · exact ready read seen (Option.some.inj found)
  · exact holds.calls other read seen found

theorem eraseCall (holds : Truthful w) (id : Nat) : Truthful { w with calls := w.calls.erase id } := by
  apply holds.setCalls
  intro other read seen found
  rw [Table.get?_erase] at found
  split at found
  · cases found
  · exact holds.calls other read seen found

theorem answered (holds : Truthful w) (id : Nat) (fence : Bool) (role : String) :
    Truthful (w.answered id fence (readRole w.store role)) := by
  cases ok : readRole w.store role with
  | error e => exact holds.eraseCall id
  | ok read =>
    cases fence with
    | false => exact holds.eraseCall id
    | true =>
      refine holds.insertCall id _ ?_
      rintro _ _ ⟨rfl,rfl⟩
      exact holds.readRole_observes ok

theorem start (holds : Truthful w) (id : Nat) (role : String) (fence : Bool) :
    Truthful (w.start id role fence) := by
  unfold World.start
  split
  next => exact holds
  next =>
    split
    next =>
      split
      next =>
        refine holds.insertCall id _ ?_
        rintro _ _ ⟨rfl,rfl⟩
        -- a store of another machine answers as if nothing had been observed
        exact ⟨none,none,by simp,.inl rfl,rfl⟩
      next => exact holds
    next => exact holds.insertCall id _ (by simp)

theorem ensured (holds : Truthful w) {role : String} {store : RoleStore}
    (ok : ensureRole w.store role = .ok store) :
    Truthful (w.commit store) ∧ Extends w (w.commit store) := by
  obtain ⟨identity,requests,_⟩ := ensureRole_frame w.store role ok
  refine holds.commit ?_ ?_ ?_
  · intro other row found
    rw [cached_ensureRole w.store role other ok] at found
    exact holds.committed other row (holds.current other row found)
  · rw [requests]; exact holds.ledger
  · intro own known; simpa [selfAuthor,identity] using known

theorem advance (holds : Truthful w) (id : Nat) (call : Call) :
    Truthful (w.advance id call) ∧ Extends w (w.advance id call) := by
  have answers (v : World) (role : String) (fence : Bool) (result : Except AgentMutationError RoleRead) :
      Extends v (v.answered id fence result) := by
    unfold World.answered; split
    · exact .idle rfl rfl rfl
    · split <;> exact .idle rfl rfl rfl
  cases call with
  | enrolling role fence =>
    refine ⟨holds.insertCall id _ ?_,.idle rfl rfl rfl⟩
    intro read seen; split <;> simp
  | reading role fence => exact ⟨holds.answered id fence role,answers w role fence _⟩
  | writing role fence =>
    cases ok : ensureRole w.store role with
    | error e => simp only [World.advance,ok]; exact ⟨holds.eraseCall id,.idle rfl rfl rfl⟩
    | ok store =>
      obtain ⟨kept,grown⟩ := holds.ensured ok
      have more := answers (w.commit store) role fence (readRole store role)
      simp only [World.advance,ok]
      exact ⟨kept.answered id fence role,fun r x h => more.records r x (grown.records r x h),
        fun x h => more.committed x (grown.committed x h),fun own h => more.self own (grown.self own h)⟩
  | versioning read seen =>
    have erased := holds.eraseCall id
    exact ⟨⟨erased.bodies,erased.current,erased.committed,erased.ledger,erased.distinct,erased.pages,
      erased.sent,erased.landed,erased.calls⟩,.idle rfl rfl rfl⟩

/-- A record that grew keeps everything said of it. -/
theorem write (holds : Truthful w) (role : String) (record : RoleRecord)
    (grown : ∀ x ∈ (w.records role).writes, x ∈ record.writes)
    (bodies : ∀ x ∈ record.writes, 1 ≤ x.body.epoch) :
    Truthful (w.write role record) ∧ Extends w (w.write role record) := by
  have extends_ : Extends w (w.write role record) := by
    refine ⟨?_,fun _ h => h,fun _ h => h⟩
    intro other x member
    by_cases same : other = role
    · subst same; simpa [World.write] using grown x member
    · simpa [World.write,same] using member
  refine ⟨⟨?_,holds.current,?_,holds.ledger,holds.distinct,?_,?_,?_,?_⟩,extends_⟩
  · intro other x member
    by_cases same : other = role
    · subst same; exact bodies x (by simpa [World.write] using member)
    · exact holds.bodies other x (by simpa [World.write,same] using member)
  · exact fun r row member => extends_.describes (holds.committed r row member)
  · intro page member r claim self inside
    exact (holds.pages page member r claim self inside).imp_right extends_.describes
  · exact fun attempt version member => extends_.stored (holds.sent attempt version member)
  · exact fun attempt version member => extends_.stored (holds.landed attempt version member)
  · exact fun id read seen found => extends_.oneObservation (holds.calls id read seen found)

theorem cas_bodies (holds : Truthful w) {role writeId author : String} {expected fresh : Nat}
    {body : RoleClaim} (epoch : 1 ≤ body.epoch) :
    ∀ x ∈ ((w.records role).cas expected fresh writeId author body).1.writes, 1 ≤ x.body.epoch := by
  intro x member
  rcases Register.cas_cases (w.records role) expected fresh writeId author body with same | ⟨_,_,_,pushed⟩
  · rw [same] at member; exact holds.bodies role x member
  · rw [pushed] at member
    rcases List.mem_cons.mp member with rfl | inside
    · exact epoch
    · exact holds.bodies role x inside

theorem send (holds : Truthful w) {attempt : RoleTakeAttempt} (epoch : 1 ≤ attempt.body.epoch)
    (fresh : Nat) (reached answered : Bool) :
    Truthful (w.send attempt fresh reached answered) ∧
      Extends w (w.send attempt fresh reached answered) := by
  cases reached with
  | false =>
    refine ⟨⟨holds.bodies,holds.current,holds.committed,holds.ledger,holds.distinct,holds.pages,?_,
      holds.landed,holds.calls⟩,.idle rfl rfl rfl⟩
    intro a version member
    simp only [World.send,Bool.false_eq_true,if_false,List.mem_cons] at member
    rcases member with absurd | old
    · cases absurd
    · exact holds.sent a version old
  | true =>
    obtain ⟨kept,grown⟩ := holds.write attempt.input.role _
      (fun _ member => Register.cas_keeps member) (holds.cas_bodies epoch)
    refine ⟨⟨kept.bodies,kept.current,kept.committed,kept.ledger,kept.distinct,kept.pages,?_,
      kept.landed,kept.calls⟩,⟨grown.records,grown.committed,grown.self⟩⟩
    intro a version member
    simp only [World.send,if_true,List.mem_cons] at member
    rcases member with first | old
    · cases answered with
      | false => cases first
      | true =>
        simp only [if_true,Prod.mk.injEq] at first
        obtain ⟨rfl,answer⟩ := first
        split at answer
        next v stored =>
          cases answer
          have inside := Register.cas_stored stored
          refine ⟨⟨version,a.input.requestId,w.device,a.body⟩,?_,rfl,rfl⟩
          simpa only [World.send,World.write,if_true,Function.update_self] using inside
        next => cases answer
        next => cases answer
    · exact kept.sent a version old

theorem savedBody_some {attempt : RoleTakeAttempt} {claim : RoleClaim} {holder : String}
    (saved : savedBody attempt = some (claim,holder)) :
    attempt.body.decode attempt.input.role = .ok claim ∧ claim = attempt.body ∧
      claim.holder = some holder := by
  unfold savedBody at saved
  split at saved
  next => cases saved
  next c ok =>
    obtain ⟨h,found,same⟩ := Option.map_eq_some_iff.mp saved
    cases same
    exact ⟨ok,decode_ok ok,found⟩

theorem settle (holds : Truthful w) (index : Nat) {attempt : RoleTakeAttempt}
    {answer : Except RecordError Nat} (holder : String) (seen : Observed)
    (inFlight : w.sent[index]? = some (attempt,answer)) :
    Truthful (w.settle index attempt answer holder seen) ∧
      Extends w (w.settle index attempt answer holder seen) := by
  have sent : ∀ a version, (a,Except.ok version) ∈ w.sent.eraseIdx index → Stored w a version :=
    fun a version member => holds.sent a version (List.mem_of_mem_eraseIdx member)
  have base : Truthful { w with sent := w.sent.eraseIdx index } :=
    ⟨holds.bodies,holds.current,holds.committed,holds.ledger,holds.distinct,holds.pages,sent,
      holds.landed,holds.calls⟩
  simp only [World.settle]
  split
  next version settled =>
    refine ⟨⟨base.bodies,base.current,base.committed,base.ledger,base.distinct,base.pages,base.sent,
      ?_,base.calls⟩,⟨fun _ _ h => h,fun _ h => h,fun _ h => h⟩⟩
    intro a v member
    rcases List.mem_cons.mp member with first | old
    · cases first
      rcases casSettled_landed settled with direct | ⟨r,found,value,read,_,present,same,_,body,decoded,expected⟩
      · subst direct
        exact holds.sent attempt version (List.mem_of_getElem? inFlight)
      · obtain ⟨write,member,stale,rfl⟩ := reply_ok read
        cases write with
        | none => simp [RecordReply.shows] at present
        | some x =>
          cases body
          refine ⟨x,member x rfl,same,?_⟩
          exact (decode_ok decoded).symm.trans (decode_ok expected)
    · exact holds.landed a v old
  next => exact ⟨base,⟨fun _ _ h => h,fun _ h => h,fun _ h => h⟩⟩

theorem prepare (holds : Truthful w) {attempt : RoleTakeAttempt} (epoch : 1 ≤ attempt.body.epoch)
    (self : String) (now : Int) :
    Truthful (w.commit (prepareRoleTake w.store attempt self now).1) ∧
      Extends w (w.commit (prepareRoleTake w.store attempt self now).1) := by
  have unchanged : Truthful (w.commit w.store) ∧ Extends w (w.commit w.store) :=
    holds.commit (fun role row found => holds.committed role row (holds.current role row found))
      holds.ledger fun _ known => known
  unfold prepareRoleTake
  split
  next => exact unchanged
  next => exact unchanged
  next =>
    split
    next => exact unchanged
    next =>
      split
      next => exact unchanged
      next enrolled ok =>
        obtain ⟨identity,requests,_⟩ := ensureRole_frame w.store attempt.input.role ok
        refine holds.commit ?_ ?_ ?_
        · intro role row found
          have same : cached enrolled role = some row := by
            rw [← cached_learnSelfAuthor enrolled role self now]; exact found
          rw [cached_ensureRole w.store attempt.input.role role ok] at same
          exact holds.committed role row (holds.current role row same)
        · intro id saved found
          simp only [Table.get?_insert,learnSelfAuthor_requests,requests] at found
          split at found
          · cases found; exact epoch
          · exact holds.ledger id saved found
        · intro own known
          exact learnSelfAuthor_self enrolled self now (by simpa [selfAuthor,identity] using known)

theorem finish (holds : Truthful w) {attempt : RoleTakeAttempt} {version : Nat} {holder : String}
    {claim : RoleClaim} (saved : savedBody attempt = some (claim,holder))
    (stored : Stored w attempt version) (now : Int) :
    Truthful (w.commit (finishRoleTake w.store attempt holder claim.epoch version now)) ∧
      Extends w (w.commit (finishRoleTake w.store attempt holder claim.epoch version now)) := by
  obtain ⟨_,rfl,held⟩ := savedBody_some saved
  refine holds.commit ?_ ?_ (fun _ known => known)
  · intro role row found
    simp only [finishRoleTake,cached_writeCache] at found
    split at found
    next same =>
      subst same
      cases found
      obtain ⟨x,member,rfl,body⟩ := stored
      refine .inr ⟨x,member,?_⟩
      rw [body]
      simp [CachedClaim.content,held]
    next => exact holds.committed role row (holds.current role row found)
  · intro id row found
    simp only [finishRoleTake,writeCache_requests,Table.get?_update,Option.map_eq_some_iff] at found
    obtain ⟨old,present,rfl⟩ := found
    split <;> exact holds.ledger id old present

theorem refresh (holds : Truthful w) {page : List (String × ClaimObservation)} (member : page ∈ w.pages)
    (now : Int) : Truthful (w.commit (cacheRoles w.store page now).1) ∧
      Extends w (w.commit (cacheRoles w.store page now).1) := by
  obtain ⟨requests,known⟩ := @cacheRoles_frame w.store now page
  refine holds.commit ?_ ?_ known
  · exact cacheRoles_describes page
      (fun role row found => holds.committed role row (holds.current role row found))
      (fun role claim self inside => (holds.pages page member role claim self inside).2)
  · rw [requests]; exact holds.ledger

theorem staled (holds : Truthful w) :
    Truthful (w.commit (staleRoles w.store)) ∧ Extends w (w.commit (staleRoles w.store)) := by
  refine holds.commit ?_ holds.ledger fun _ known => known
  intro role row found
  rw [cached_staleRoles] at found
  obtain ⟨old,before,rfl⟩ := Option.map_eq_some_iff.mp found
  exact holds.committed role old (holds.current role old before)

/-- Every step keeps the invariant and takes nothing back. -/
theorem step (holds : Truthful w) {label : Label} {w' : World} (taken : next w label = some w') :
    Truthful w' ∧ Extends w w' := by
  cases next_step taken with
  | @call id role fence _ =>
    refine ⟨holds.start id role fence,?_⟩
    unfold World.start
    split
    next => exact .idle rfl rfl rfl
    next =>
      split
      next => split <;> exact .idle rfl rfl rfl
      next => exact .idle rfl rfl rfl
  | @advance id call _ => exact holds.advance id call
  | observe distinct =>
    refine ⟨⟨holds.bodies,holds.current,holds.committed,holds.ledger,?_,?_,holds.sent,holds.landed,
      holds.calls⟩,.idle rfl rfl rfl⟩
    · intro p member
      rcases List.mem_cons.mp member with rfl | old
      · simpa [List.map_map,Function.comp_def] using distinct
      · exact holds.distinct p old
    · intro p member role claim author inside
      rcases List.mem_cons.mp member with rfl | old
      · obtain ⟨x,_,same⟩ := List.mem_map.mp inside
        obtain ⟨rfl,present⟩ := Prod.mk.injEq _ _ _ _ ▸ same
        exact observation_present (holds.bodies x.1) present
      · exact holds.pages p old role claim author inside
  | @cacheRoles _ now _ found =>
    obtain ⟨kept,grown⟩ := holds.refresh (List.mem_of_getElem? found) now
    refine ⟨⟨kept.bodies,kept.current,kept.committed,kept.ledger,?_,?_,kept.sent,kept.landed,kept.calls⟩,
      ⟨grown.records,grown.committed,grown.self⟩⟩
    · exact fun p member => holds.distinct p (List.mem_of_mem_eraseIdx member)
    · exact fun p member => holds.pages p (List.mem_of_mem_eraseIdx member)
  | @takeElsewhere _ _ _ _ claim valid =>
    exact holds.write claim.role _ (fun _ member => Register.cas_keeps member)
      (holds.cas_bodies valid.2)
  | @prepareTake _ _ self now _ _ _ made => exact holds.prepare (takeAttempt_ok made) self now
  | @sendTake requestId fresh reached answered attempt _ found _ _ =>
    exact holds.send (holds.ledger requestId attempt found) fresh reached answered
  | @settleTake index seen _ _ _ holder found _ => exact holds.settle index holder seen found
  | @finishTake _ now attempt version _ _ found saved _ =>
    obtain ⟨kept,grown⟩ := holds.finish saved
      (holds.landed attempt version (List.mem_of_getElem? found)) now
    refine ⟨⟨kept.bodies,kept.current,kept.committed,kept.ledger,kept.distinct,kept.pages,kept.sent,
      ?_,kept.calls⟩,⟨grown.records,grown.committed,grown.self⟩⟩
    exact fun a v member => kept.landed a v (List.mem_of_mem_eraseIdx member)
  | restart =>
    obtain ⟨kept,grown⟩ := holds.staled
    refine ⟨⟨kept.bodies,kept.current,kept.committed,kept.ledger,?_,?_,?_,?_,?_⟩,
      ⟨grown.records,grown.committed,grown.self⟩⟩ <;> simp

end Truthful

end Entorhinal.RoleFence
