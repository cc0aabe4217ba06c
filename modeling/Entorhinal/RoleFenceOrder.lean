import Entorhinal.RoleFenceTruth

/-! When a fence is one observation of its role. The two reads of a fence are
separate transactions, a landed take is cached whatever the cache holds, and a
fresh absence replaces any row: a run is ordered when no step meets a newer
version there. -/
namespace Entorhinal.RoleFence
open ClaimCache RecordClient RoleCache Transition

/-- The step is not one of the three that go wrong: a fence whose role changed
its cached version between the two reads, a landed take older than the cached
row, and a fresh absence applied after the role was seen taken. -/
def ordered (w : World) : Label → Bool
  | .advance id => match w.calls.get? id with
    | some (.versioning read seen) => cachedVersion w.store read.role == seen
    | _ => true
  | .cacheRoles index _ => match w.pages[index]? with
    | some page => page.all fun x => match x.2 with
      | .absent false _ => cachedVersion w.store x.1 == 0
      | _ => true
    | none => true
  | .finishTake index _ => match w.landed[index]? with
    | some (attempt,version) => decide (cachedVersion w.store attempt.input.role ≤ version)
    | none => true
  | _ => true

def Ordered (w : World) (label : Label) : Prop := ordered w label = true

theorem Ordered.fence {w : World} {id : Nat} {read : RoleRead} {seen : Int}
    (inOrder : Ordered w (.advance id)) (found : w.calls.get? id = some (.versioning read seen)) :
    cachedVersion w.store read.role = seen := by
  simpa [Ordered,ordered,found] using inOrder

theorem Ordered.absence {w : World} {index : Nat} {now : Int} {page : List (String × ClaimObservation)}
    (inOrder : Ordered w (.cacheRoles index now)) (found : w.pages[index]? = some page) :
    ∀ role self, (role,.absent false self) ∈ page → cachedVersion w.store role = 0 := by
  intro role self member
  simp only [Ordered,ordered,found,List.all_eq_true] at inOrder
  simpa using inOrder _ member

theorem Ordered.landed {w : World} {index : Nat} {now : Int} {attempt : RoleTakeAttempt}
    {version : Nat} (inOrder : Ordered w (.finishTake index now))
    (found : w.landed[index]? = some (attempt,version)) :
    cachedVersion w.store attempt.input.role ≤ version := by
  simpa [Ordered,ordered,found] using inOrder

/-- What the steps keep when none of them goes wrong. -/
structure Fenced (w : World) : Prop where
  truthful : Truthful w
  forward : NeverBack w
  returned : ∀ fence ∈ w.returned, OneObservation w fence

theorem NeverBack.commit {w : World} (forward : NeverBack w) {store : RoleStore}
    (ahead : ∀ role, cachedVersion w.store role ≤ cachedVersion store role) :
    NeverBack (w.commit store) := by
  intro role row member
  rcases List.mem_append.mp member with fresh | old
  · simp [World.commit,cachedVersion,mem_cachedRows.mp fresh]
  · exact (forward role row old).trans (ahead role)

private theorem describes_claim {record : RoleRecord} {claim : CachedClaim}
    (epoch : 1 ≤ claim.epoch) (shown : Describes record claim.content) : 0 ≤ claim.version := by
  rcases shown with none | ⟨x,_,same⟩
  · have : claim.epoch = 0 := congrArg (fun c => c.2.1) none
    omega
  · have : claim.version = (x.version : Int) := congrArg Prod.fst same
    omega

theorem Fenced.advance {w : World} (holds : Fenced w) {id : Nat} {call : Call}
    (found : w.calls.get? id = some call) (inOrder : Ordered w (.advance id)) :
    Fenced (w.advance id call) := by
  obtain ⟨kept,grown⟩ := holds.truthful.advance id call
  have idle (v : World) (role : String) (fence : Bool) (result : Except AgentMutationError RoleRead) :
      NeverBack v → NeverBack (v.answered id fence result) ∧
        (v.answered id fence result).returned = v.returned := by
    intro forward
    unfold World.answered; split
    · exact ⟨forward,rfl⟩
    · split <;> exact ⟨forward,rfl⟩
  cases call with
  | enrolling role fence =>
    exact ⟨kept,holds.forward,fun fence member => grown.oneObservation (holds.returned fence member)⟩
  | reading role fence =>
    obtain ⟨forward,same⟩ := idle w role fence (readRole w.store role) holds.forward
    refine ⟨kept,forward,fun fence member => grown.oneObservation (holds.returned fence ?_)⟩
    rwa [World.advance,same] at member
  | writing role fence =>
    cases ok : ensureRole w.store role with
    | error e =>
      refine ⟨kept,?_,fun fence member => grown.oneObservation (holds.returned fence ?_)⟩
      · simp only [World.advance,ok]; exact holds.forward
      · simp only [World.advance,ok] at member; exact member
    | ok store =>
      have ahead : NeverBack (w.commit store) := holds.forward.commit fun r => by
        simp [cachedVersion,cached_ensureRole w.store role r ok]
      obtain ⟨forward,same⟩ := idle (w.commit store) role fence (readRole store role) ahead
      refine ⟨kept,?_,fun fence member => grown.oneObservation (holds.returned fence ?_)⟩
      · simp only [World.advance,ok]; exact forward
      · simp only [World.advance,ok,same] at member; exact member
  | versioning read seen =>
    refine ⟨kept,holds.forward,?_⟩
    intro fence member
    rcases List.mem_cons.mp member with rfl | old
    · rw [inOrder.fence found]
      exact grown.oneObservation (holds.truthful.calls id read seen found)
    · exact grown.oneObservation (holds.returned fence old)

theorem Fenced.step {w w' : World} (holds : Fenced w) {label : Label} (inOrder : Ordered w label)
    (taken : next w label = some w') : Fenced w' := by
  obtain ⟨kept,grown⟩ := holds.truthful.step taken
  have old : ∀ fence ∈ w.returned, OneObservation w' fence :=
    fun fence member => grown.oneObservation (holds.returned fence member)
  cases next_step taken with
  | @call id role fence _ =>
    have same : NeverBack (w.start id role fence) ∧ (w.start id role fence).returned = w.returned := by
      unfold World.start
      split
      next => exact ⟨holds.forward,rfl⟩
      next =>
        split
        next => split <;> exact ⟨holds.forward,rfl⟩
        next => exact ⟨holds.forward,rfl⟩
    exact ⟨kept,same.1,by rw [same.2]; exact old⟩
  | advance found => exact holds.advance found inOrder
  | observe => exact ⟨kept,holds.forward,old⟩
  | @cacheRoles _ _ page found =>
    have inside := List.mem_of_getElem? found
    refine ⟨kept,?_,old⟩
    apply holds.forward.commit
    apply cachedVersion_cacheRoles page (holds.truthful.distinct page inside) ?_ (inOrder.absence found)
    intro role claim self member
    obtain ⟨epoch,shown⟩ := holds.truthful.pages page inside role claim self member
    exact ⟨epoch,describes_claim epoch shown⟩
  | takeElsewhere => exact ⟨kept,holds.forward,old⟩
  | @prepareTake _ _ self now _ attempt _ _ =>
    refine ⟨kept,holds.forward.commit fun role => ?_,old⟩
    unfold prepareRoleTake
    repeat' split
    all_goals try exact le_refl _
    rename_i enrolled ok
    have same : cached (learnSelfAuthor enrolled self now).1 role = cached w.store role := by
      rw [cached_learnSelfAuthor,cached_ensureRole w.store attempt.input.role role ok]
    simp only [cachedVersion,← same]
    exact le_refl _
  | @sendTake _ fresh reached answered attempt _ _ _ _ =>
    have same : NeverBack (w.send attempt fresh reached answered) ∧
        (w.send attempt fresh reached answered).returned = w.returned := by
      cases reached <;> exact ⟨holds.forward,rfl⟩
    exact ⟨kept,same.1,by rw [same.2]; exact old⟩
  | @settleTake index seen _ _ _ _ _ _ =>
    have same : ∀ attempt answer holder, NeverBack (w.settle index attempt answer holder seen) ∧
        (w.settle index attempt answer holder seen).returned = w.returned := by
      intro attempt answer holder
      simp only [World.settle]
      split <;> exact ⟨holds.forward,rfl⟩
    exact ⟨kept,(same _ _ _).1,by rw [(same _ _ _).2]; exact old⟩
  | @finishTake _ _ attempt _ _ _ found _ _ =>
    refine ⟨kept,holds.forward.commit fun role => ?_,old⟩
    by_cases same : role = attempt.input.role
    · subst same
      simpa [cachedVersion,finishRoleTake] using inOrder.landed found
    · simp only [cachedVersion,finishRoleTake,cached_writeCache,if_neg same]
      exact le_refl _
  | restart =>
    refine ⟨kept,holds.forward.commit fun role => ?_,old⟩
    simp [cachedVersion,Option.map_map,Function.comp_def]

/-- A machine before its first call: nothing in flight, and whatever its cache
and ledger hold was observed in the records. -/
structure Initial (w : World) : Prop where
  bodies : ∀ role, ∀ x ∈ (w.records role).writes, 1 ≤ x.body.epoch
  shown : ∀ role row, cached w.store role = some row → Describes (w.records role) row.content
  ledger : ∀ id attempt, w.store.roleTakeRequest.get? id = some attempt → 1 ≤ attempt.body.epoch
  committed : w.committed = cachedRows w.store
  idle : w.calls = ∅ ∧ w.pages = [] ∧ w.sent = [] ∧ w.landed = [] ∧ w.returned = []

theorem Initial.fenced {w : World} (initial : Initial w) : Fenced w := by
  obtain ⟨calls,pages,sent,landed,returned⟩ := initial.idle
  have rows : ∀ role row, (role,row) ∈ w.committed ↔ cached w.store role = some row := by
    intro role row
    rw [initial.committed,mem_cachedRows]
  refine ⟨⟨initial.bodies,fun role row found => (rows role row).mpr found,
    fun role row member => initial.shown role row ((rows role row).mp member),initial.ledger,
    ?_,?_,?_,?_,?_⟩,?_,?_⟩
  · simp [pages]
  · simp [pages]
  · simp [sent]
  · simp [landed]
  · simp [calls]
  · intro role row member
    simp [cachedVersion,(rows role row).mp member]
  · simp [returned]

theorem fenced_reach {w₀ w : World} (initial : Initial w₀) (reached : Reach next Ordered w₀ w) :
    Fenced w :=
  reached.invariant Fenced initial.fenced fun _ _ _ holds inOrder taken => holds.step inOrder taken

/-- In every run whose steps are ordered, a fence is one observation of the
role, one that says it is held here carries a version at which this machine is
the holder, and the cached row never goes back to an older version. -/
theorem fence_one_observation {w₀ w : World} (initial : Initial w₀)
    (reached : Reach next Ordered w₀ w) :
    (∀ fence ∈ w.returned, OneObservation w fence ∧
      Describes (w.records fence.role) (fence.version,fence.epoch,fence.holder) ∧
      (fence.heldHere = true → HolderAtVersion w fence)) ∧ NeverBack w := by
  have holds := fenced_reach initial reached
  refine ⟨fun fence member => ?_,holds.forward⟩
  have one := holds.returned fence member
  obtain ⟨row,own,seen,known,same⟩ := id one
  have version := congrArg RoleFence.version same
  have epoch := congrArg RoleFence.epoch same
  have holder := congrArg RoleFence.holder same
  have held := congrArg RoleFence.heldHere same
  refine ⟨one,?_,?_⟩
  · cases row with
    | none => left; simp [version,epoch,holder,fenceOf]
    | some c =>
      have shown := holds.truthful.committed fence.role c (seen c rfl)
      simpa [version,epoch,holder,fenceOf,CachedClaim.content] using shown
  · intro here
    replace held := held.symm.trans here
    cases row with
    | none => simp [fenceOf,heldHere] at held
    | some c =>
      simp only [fenceOf,heldHere,Bool.and_eq_true,decide_eq_true_eq,beq_iff_eq] at held
      obtain ⟨⟨first,present⟩,mine⟩ := held
      rcases holds.truthful.committed fence.role c (seen c rfl) with none | ⟨x,inside,content⟩
      · have : c.epoch = 0 := congrArg (fun t => t.2.1) none
        omega
      · simp only [CachedClaim.content,Prod.mk.injEq] at content
        refine ⟨x,inside,?_,?_,?_,?_⟩
        · simp [version,fenceOf,content.1]
        · simp [holder,fenceOf,content.2.2]
        · simp [epoch,fenceOf,content.2.1]
        · have set : own ≠ none := by
            rintro rfl
            simp [mine] at present
          rw [known.resolve_left set] at mine
          simp [holder,fenceOf,mine]

section Torn

/-! Two runs whose last step goes wrong, from a machine that knows nothing. -/

def here : String := "01010101010101010101010101010101"
def elsewhere : String := "02020202020202020202020202020202"

def idle : World where
  device := here
  records := fun _ => .empty
  store := ⟨∅,∅,none,∅,false⟩
  calls := ∅
  pages := []
  sent := []
  landed := []
  returned := []
  committed := []

def takeInput : RoleTakeInput := ⟨"leader",0,"0000000000000000000000000000000a","start"⟩

def takeBack : Label :=
  .takeElsewhere "0000000000000000000000000000000b" elsewhere 1 2 ⟨1,"leader",some elsewhere,2,"move"⟩

/-- The role is taken here, a fence makes its first read, another machine takes
the role, the refresh caches that, and the fence makes its second read. -/
def tornRun : List Label :=
  [.prepareTake takeInput .fresh here 1,.sendTake takeInput.requestId 1 true true,
    .settleTake 0 .fresh,.finishTake 0 2,.call 0 "leader" true,.advance 0,.advance 0,takeBack,
    .observe [("leader",.fresh)] here,.cacheRoles 0 3,.advance 0]

/-- The take lands, another machine takes the role, the refresh caches that, and
only then the landed take is cached. -/
def lateFinishRun : List Label :=
  [.prepareTake takeInput .fresh here 1,.sendTake takeInput.requestId 1 true true,
    .settleTake 0 .fresh,takeBack,.observe [("leader",.fresh)] here,.cacheRoles 0 3,.finishTake 0 4]

theorem idle_initial : Initial idle := by
  constructor <;> simp [idle,cached,cachedRows,Register.empty]

/-- A take that is cached before a fence is made. -/
def orderedRun : List Label :=
  [.prepareTake takeInput .fresh here 1,.sendTake takeInput.requestId 1 true true,
    .settleTake 0 .fresh,.finishTake 0 2,.call 0 "leader" true,.advance 0,.advance 0,.advance 0]

theorem orderedRun_fence : ∃ w, exec next idle orderedRun = some w ∧
    w.returned = [⟨"leader","role:leader",1,1,true,some here,false⟩] ∧
    HolderAtVersion w ⟨"leader","role:leader",1,1,true,some here,false⟩ ∧ NeverBack w := by
  have run : (exec next idle orderedRun).map (·.returned) =
      some [⟨"leader","role:leader",1,1,true,some here,false⟩] := by decide +kernel
  obtain ⟨w,done,returned⟩ := Option.map_eq_some_iff.mp run
  have reached := admits_reach ordered done (by decide +kernel)
  obtain ⟨fences,forward⟩ := fence_one_observation idle_initial reached
  exact ⟨w,done,returned,(fences _ (by rw [returned]; exact List.mem_cons_self)).2.2 rfl,forward⟩

/-- Neither half of the law holds of every run: the torn fence says it is held
here at the version of the other machine's take, and the late landed take puts
the older row back. -/
theorem fence_law_fails :
    (¬ ∀ w₀ w, Initial w₀ → Reach next Free w₀ w →
      ∀ fence ∈ w.returned, fence.heldHere = true → HolderAtVersion w fence) ∧
    (¬ ∀ w₀ w, Initial w₀ → Reach next Free w₀ w → NeverBack w) := by
  constructor
  · intro law
    have run : (exec next idle tornRun).map (fun w => (w.returned,(w.records "leader").writes.map
          fun x => (x.version,x.body.holder))) =
        some ([⟨"leader","role:leader",2,1,true,some here,false⟩],[(2,some elsewhere),(1,some here)]) := by
      decide +kernel
    obtain ⟨w,done,shown⟩ := Option.map_eq_some_iff.mp run
    obtain ⟨returned,writes⟩ := Prod.mk.injEq _ _ _ _ ▸ shown
    obtain ⟨x,member,version,holder,_⟩ :=
      law idle w idle_initial (exec_reach done) _ (by rw [returned]; exact List.mem_cons_self) rfl
    have known : (x.version,x.body.holder) ∈ [(2,some elsewhere),(1,some here)] := by
      rw [← writes]; exact List.mem_map.mpr ⟨x,member,rfl⟩
    simp only at version holder
    rcases List.mem_cons.mp known with second | first
    · have moved : x.body.holder = some elsewhere := congrArg Prod.snd second
      rw [holder] at moved
      exact absurd moved (by decide)
    · have old : x.version = 1 := congrArg Prod.fst (List.mem_singleton.mp first)
      omega
  · intro law
    have run : (exec next idle lateFinishRun).map (fun w => (w.committed.map fun x => (x.1,x.2.version),
        cachedVersion w.store "leader")) = some ([("leader",1),("leader",2)],1) := by
      decide +kernel
    obtain ⟨w,done,shown⟩ := Option.map_eq_some_iff.mp run
    obtain ⟨committed,version⟩ := Prod.mk.injEq _ _ _ _ ▸ shown
    have second : ("leader",(2 : Int)) ∈ w.committed.map fun x => (x.1,x.2.version) := by
      rw [committed]; simp
    obtain ⟨⟨role,row⟩,member,same⟩ := List.mem_map.mp second
    obtain ⟨rfl,newer⟩ := Prod.mk.injEq _ _ _ _ ▸ same
    have := law idle w idle_initial (exec_reach done) _ row member
    simp only at newer
    omega

end Torn

end Entorhinal.RoleFence
