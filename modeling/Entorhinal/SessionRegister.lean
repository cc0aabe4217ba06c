import Entorhinal.SessionCarry

/-! What an accepted registration leaves: one binding is taken over, by its
reference, its host session or its runner session, and nothing else moves. -/
namespace Entorhinal.Session

/-- A network history whose entries have strictly rising `i64` times. -/
def Rising (history : List NetworkEntry) : Prop :=
  history.Pairwise (fun a b => a.sinceMs < b.sinceMs) ∧ ∀ entry ∈ history, entry.sinceMs ≤ i64Max

/-- What every operation keeps of the bindings and their histories. -/
structure Coherent (store : SessionStore) : Prop where
  indexed : Indexed store.bindings
  held : ∀ key row, store.bindings.get? key = some row → row.heldOn.isSome = true →
    row.endedAtMs.isSome = true
  bound : ∀ key, store.network.has key = true → store.bindings.has key = true
  rising : ∀ key, Rising (store.historyOf key)

/-- The registration is about this binding: it names its reference, its host
session or its runner session. -/
def SessionRegistration.concerns (request : SessionRegistration) (key : RefKey)
    (row : SessionBinding) : Bool :=
  key == request.key || hasSession request.harness request.sessionId row ||
    (request.runner.isSome && row.runner == request.runner && row.sessionId == some request.sessionId)

section Routes

variable {store store' : SessionStore} {key : RefKey} {row : SessionBinding}
variable {request : SessionRegistration} {route : Route}

theorem routeOf_agents (ok : routeOf store request = .ok route) :
    (∀ bound, store.bindings.get? request.key = some bound → bound.agentId = request.agentId) ∧
    (∀ owner row, store.bySession request.harness request.sessionId = some (owner,row) →
      row.agentId = request.agentId ∧ (ofLex owner).1 = request.refKind) := by
  constructor
  · intro bound found
    by_contra other
    simp [routeOf,found,other,refElsewhere,refuse,bind,Except.bind] at ok
  · intro owner row found
    by_contra other
    unfold routeOf at ok
    simp only [found] at ok
    cases byRef : store.bindings.get? request.key with
    | none =>
      rw [byRef] at ok
      simp only at ok
      split at ok
      next => simp [boundElsewhere,refuse,bind,Except.bind] at ok
      next same => exact other (by simpa using same)
    | some bound =>
      rw [byRef] at ok
      simp only at ok
      split at ok
      next => simp [refElsewhere,refuse,bind,Except.bind] at ok
      next =>
        split at ok
        next => simp [boundElsewhere,refuse,bind,Except.bind] at ok
        next same => exact other (by simpa using same)


theorem key_eq_of_parts {a b : RefKey} (kind : (ofLex a).1 = (ofLex b).1)
    (ref : (ofLex a).2 = (ofLex b).2) : a = b := by
  have same : ofLex a = ofLex b := Prod.ext kind ref
  exact ofLex.injective same

/-- The three ways a registration is routed. -/
theorem routeOf_cases (ok : routeOf store request = .ok route) :
    (route = ⟨request.key,false,false⟩ ∧
      ∀ owner row, store.bySession request.harness request.sessionId = some (owner,row) →
        owner = request.key) ∨
    (∃ owner row, store.bySession request.harness request.sessionId = some (owner,row) ∧
      owner ≠ request.key ∧ store.bindings.get? request.key = none ∧ route = ⟨owner,false,true⟩) ∨
    (store.bySession request.harness request.sessionId = none ∧
      store.bindings.get? request.key = none ∧ ∃ runner owner row, request.runner = some runner ∧
        store.runnerSessionOwner runner request.sessionId = some (owner,row) ∧
        row.agentId = request.agentId ∧ (ofLex owner).1 ≠ request.refKind ∧ row.heldOn = none ∧
        route = ⟨owner,true,false⟩) := by
  obtain ⟨refAgent,sessionAgent⟩ := routeOf_agents ok
  unfold routeOf at ok
  cases byRef : store.bindings.get? request.key with
  | some bound =>
    have ours := refAgent bound byRef
    cases bySession : store.bySession request.harness request.sessionId with
    | none =>
      simp only [byRef,bySession,ours] at ok
      simp [pure,Except.pure] at ok
      exact .inl ⟨ok.symm,nofun⟩
    | some found =>
      obtain ⟨owner,row⟩ := found
      obtain ⟨agent,kind⟩ := sessionAgent owner row bySession
      simp only [byRef,bySession,ours,agent,kind] at ok
      by_cases ref : (ofLex owner).2 = request.sessionRef
      · have here : owner = request.key := key_eq_of_parts kind ref
        simp [ref,Option.filter,pure,Except.pure] at ok
        refine .inl ⟨ok.symm,fun other stored same => ?_⟩
        cases same
        exact here
      · simp [ref,Option.filter,refElsewhere,refuse,bind,Except.bind] at ok
  | none =>
    cases bySession : store.bySession request.harness request.sessionId with
    | some found =>
      obtain ⟨owner,row⟩ := found
      obtain ⟨agent,kind⟩ := sessionAgent owner row bySession
      simp only [byRef,bySession,agent,kind] at ok
      by_cases ref : (ofLex owner).2 = request.sessionRef
      · have here : owner = request.key := key_eq_of_parts kind ref
        simp [ref,Option.filter,pure,Except.pure] at ok
        refine .inl ⟨ok.symm,fun other stored same => ?_⟩
        cases same
        exact here
      · simp [ref,Option.filter,pure,Except.pure] at ok
        refine .inr (.inl ⟨owner,row,rfl,?_,rfl,ok.symm⟩)
        rintro rfl
        exact ref rfl
    | none =>
      cases named : request.runner with
      | none =>
        simp [byRef,bySession,named,pure,Except.pure] at ok
        exact .inl ⟨ok.symm,nofun⟩
      | some runner =>
        cases looked : store.runnerSessionOwner runner request.sessionId with
        | none =>
          simp [byRef,bySession,named,looked,pure,Except.pure] at ok
          exact .inl ⟨ok.symm,nofun⟩
        | some found =>
          obtain ⟨owner,row⟩ := found
          simp only [byRef,bySession,named,looked] at ok
          by_cases change : row.agentId = request.agentId ∧ (ofLex owner).1 ≠ request.refKind
          · cases held : row.heldOn with
            | some machine => simp [change,held,onOtherMachine,refuse] at ok
            | none =>
              simp [change,held,pure,Except.pure] at ok
              exact .inr (.inr ⟨rfl,rfl,runner,owner,row,rfl,looked,change.1,change.2,held,ok.symm⟩)
          · simp [change,pure,Except.pure] at ok
            exact .inl ⟨ok.symm,nofun⟩

theorem checkRunner_ok (ok : checkRunner store request route = .ok ()) {runner : String}
    (left : request.runner = some runner ∨ request.runner = none ∧ ∃ row,
      store.bindings.get? (toLex (request.refKind,(ofLex route.previous).2)) = some row ∧
        row.runner = some runner)
    {owner : RefKey} (looked : store.runnerSessionOwner runner request.sessionId = some (owner,row)) :
    owner = route.previous := by
  unfold checkRunner at ok
  have same : (if owner ≠ route.previous then boundElsewhere owner row else .ok ()) = .ok () := by
    rcases left with named | ⟨unnamed,stored,found,recorded⟩
    · simpa only [named,looked] using ok
    · simpa only [unnamed,found,Option.bind_some,recorded,looked] using ok
  split at same
  next => cases same
  next here => exact not_not.mp here

theorem checkRemote_ok (ok : checkRemote store request = .ok ())
    (found : store.bindings.get? key = some row)
    (near : key = request.key ∨ hasSession request.harness request.sessionId row = true) :
    row.heldOn = none := by
  unfold checkRemote at ok
  split at ok
  next => cases ok
  next absent =>
    have clear := Table.find?_none.mp absent key row found
    cases held : row.heldOn with
    | none => rfl
    | some machine => rcases near with rfl | session <;> simp_all

theorem runnerSessionOwner_of (indexed : Indexed store.bindings) {runner sessionId : String}
    (found : store.bindings.get? key = some row) (recorded : row.runner = some runner)
    (session : row.sessionId = some sessionId) :
    store.runnerSessionOwner runner sessionId = some (key,row) := by
  cases looked : store.runnerSessionOwner runner sessionId with
  | none => simpa [recorded,session] using Table.find?_none.mp looked key row found
  | some other =>
    obtain ⟨owner,stored⟩ := other
    obtain ⟨present,same⟩ := Table.find?_some looked
    simp only [Bool.and_eq_true,beq_iff_eq] at same
    have here : owner = key := by
      by_contra different
      have apart := indexed owner key stored row present found different
      simp [SessionBinding.compatible,recorded,session,same.1,same.2] at apart
    subst here
    rw [Option.some.inj (present.symm.trans found)]

theorem bySession_of (indexed : Indexed store.bindings) {harness sessionId : String}
    (found : store.bindings.get? key = some row) (session : hasSession harness sessionId row = true) :
    store.bySession harness sessionId = some (key,row) := by
  cases looked : store.bySession harness sessionId with
  | none => simpa [session] using Table.find?_none.mp looked key row found
  | some other =>
    obtain ⟨owner,stored⟩ := other
    obtain ⟨present,same⟩ := bySession_some looked
    obtain rfl := indexed.same present found same session
    rw [Option.some.inj (present.symm.trans found)]

/-- A route past every check: all the bindings the registration is about are the
one it takes over, which is the agent's own and held by no other machine. -/
structure Routed (store : SessionStore) (request : SessionRegistration) (route : Route) : Prop where
  concerned : ∀ key row, store.bindings.get? key = some row → request.concerns key row = true →
    key = route.previous
  owned : ∀ row, store.bindings.get? route.previous = some row →
    request.concerns route.previous row = true ∧ row.agentId = request.agentId ∧ row.heldOn = none
  free : route.previous ≠ request.key → store.bindings.get? request.key = none
  moved : route.previous ≠ request.key → ∃ row, store.bindings.get? route.previous = some row ∧
    row.sessionId = some request.sessionId ∧
    (route.hostChange = false → row.harness = some request.harness)
  flags : (route.hostChange || route.rekeyed) = decide (route.previous ≠ request.key)
  runner : ∀ row runner, store.bindings.get? route.previous = some row →
    request.runner.or row.runner = some runner → ∀ other stored,
    store.bindings.get? other = some stored → stored.runner = some runner →
    stored.sessionId = some request.sessionId → other = route.previous
  named : ∀ runner, request.runner = some runner → ∀ other stored,
    store.bindings.get? other = some stored → stored.runner = some runner →
    stored.sessionId = some request.sessionId → other = route.previous

theorem routed (indexed : Indexed store.bindings) (remote : checkRemote store request = .ok ())
    (ok : routeOf store request = .ok route) (checked : checkRunner store request route = .ok ()) :
    Routed store request route := by
  obtain ⟨refAgent,sessionAgent⟩ := routeOf_agents ok
  have named : ∀ runner, request.runner = some runner → ∀ other stored,
      store.bindings.get? other = some stored → stored.runner = some runner →
      stored.sessionId = some request.sessionId → other = route.previous := by
    intro runner given other stored found recorded session
    exact checkRunner_ok checked (.inl given) (runnerSessionOwner_of indexed found recorded session)
  have byRunner : ∀ key row, store.bindings.get? key = some row →
      (request.runner.isSome && row.runner == request.runner &&
        row.sessionId == some request.sessionId) = true → key = route.previous := by
    intro key row found same
    simp only [Bool.and_eq_true,beq_iff_eq,Option.isSome_iff_exists] at same
    obtain ⟨⟨⟨runner,given⟩,recorded⟩,session⟩ := same
    exact named runner given key row found (recorded.trans given) session
  have stored : ∀ row runner, (ofLex route.previous).1 = request.refKind →
      store.bindings.get? route.previous = some row → request.runner.or row.runner = some runner →
      ∀ other stored, store.bindings.get? other = some stored → stored.runner = some runner →
      stored.sessionId = some request.sessionId → other = route.previous := by
    intro row runner kind found left other stored present recorded session
    cases given : request.runner with
    | some r =>
      rw [given] at left
      obtain rfl : r = runner := by simpa using left
      exact named r given other stored present recorded session
    | none =>
      rw [given,Option.none_or] at left
      have here : toLex (request.refKind,(ofLex route.previous).2) = route.previous := by
        rw [← kind]; rfl
      exact checkRunner_ok checked (.inr ⟨given,row,by rw [here]; exact found,left⟩)
        (runnerSessionOwner_of indexed present recorded session)
  rcases routeOf_cases ok with ⟨rfl,own⟩ | ⟨owner,taken,looked,away,free,rfl⟩ |
    ⟨fresh,free,runner,owner,taken,given,looked,agent,kind,unheld,rfl⟩
  · refine ⟨?_,?_,fun away => absurd rfl away,fun away => absurd rfl away,by simp,?_,named⟩
    · intro key row found about
      simp only [SessionRegistration.concerns,Bool.or_eq_true,beq_iff_eq] at about
      rcases about with (here | session) | runner
      · exact here
      · exact own key row (bySession_of indexed found session)
      · exact byRunner key row found (by simpa using runner)
    · exact fun row found => ⟨by simp [SessionRegistration.concerns],refAgent row found,
        checkRemote_ok remote found (.inl rfl)⟩
    · exact fun row runner => stored row runner rfl
  · obtain ⟨present,session⟩ := bySession_some looked
    obtain ⟨agent,kind⟩ := sessionAgent owner taken looked
    refine ⟨?_,?_,fun _ => free,fun _ => ⟨taken,present,?_⟩,by simp [away],?_,named⟩
    · intro key row found about
      simp only [SessionRegistration.concerns,Bool.or_eq_true,beq_iff_eq] at about
      rcases about with (here | same) | runner
      · rw [here,free] at found; cases found
      · exact indexed.same found present same session
      · exact byRunner key row found (by simpa using runner)
    · intro row found
      obtain rfl : taken = row := Option.some.inj (present.symm.trans found)
      exact ⟨by simp [SessionRegistration.concerns,session],agent,
        checkRemote_ok remote present (.inr session)⟩
    · simp only [hasSession,Bool.and_eq_true,beq_iff_eq] at session
      exact ⟨session.2,fun _ => session.1⟩
    · exact fun row runner => stored row runner kind
  · obtain ⟨present,same⟩ := Table.find?_some looked
    simp only [Bool.and_eq_true,beq_iff_eq] at same
    have away : owner ≠ request.key := by
      rintro rfl
      exact kind rfl
    refine ⟨?_,?_,fun _ => free,fun _ => ⟨taken,present,same.2,fun wrong => by cases wrong⟩,by simp [away],?_,named⟩
    · intro key row found about
      simp only [SessionRegistration.concerns,Bool.or_eq_true,beq_iff_eq] at about
      rcases about with (here | session) | runner
      · rw [here,free] at found; cases found
      · rw [bySession_of indexed found session] at fresh; cases fresh
      · exact byRunner key row found (by simpa using runner)
    · intro row found
      obtain rfl : taken = row := Option.some.inj (present.symm.trans found)
      exact ⟨by simp [SessionRegistration.concerns,given,same.1,same.2],agent,unheld⟩
    · intro row left found rest
      rw [given,Option.some_or] at rest
      obtain rfl : runner = left := by simpa using rest
      exact named runner given

/-- A row free of every other binding's sessions is stored. -/
theorem put_apart (apart : ∀ other stored, store.bindings.get? other = some stored → other ≠ key →
      row.compatible stored = true) :
    store.put key row = .ok { store with bindings := store.bindings.insert key row } := by
  unfold SessionStore.put
  rw [if_neg]
  intro clash
  obtain ⟨other,stored,found,clash⟩ := Table.any_eq_true.mp clash
  simp only [Bool.and_eq_true,bne_iff_ne,Bool.not_eq_true'] at clash
  rw [apart other stored found clash.1] at clash
  cases clash.2

/-- The store after the binding taken over stands under the registration's key:
its row keeps all but the harness, and its history moves with it. -/
structure Relocated (store moved : SessionStore) (previous key : RefKey) : Prop where
  row : ∀ row, store.bindings.get? previous = some row → ∃ harness,
    moved.bindings.get? key = some { row with harness := harness }
  absent : store.bindings.get? previous = none → moved.bindings.get? key = none
  others : ∀ other, other ≠ key →
    moved.bindings.get? other = if other = previous then none else store.bindings.get? other
  network : ∀ other, moved.network.get? other =
    if other = key then store.network.get? previous
    else if other = previous then none else store.network.get? other
  frame : moved = { store with bindings := moved.bindings, network := moved.network }

theorem Relocated.history {moved : SessionStore} {previous : RefKey}
    (relocated : Relocated store moved previous key) : moved.historyOf key = store.historyOf previous := by
  simp [SessionStore.historyOf,relocated.network]

/-- A binding moves to a key that is free, unless its new harness gives it the
session of another one. -/
theorem rekey_relocated (coherent : Coherent store) {previous : RefKey} {harness : Option String}
    (found : store.bindings.get? previous = some row) (free : store.bindings.get? key = none)
    (apart : ∀ other stored, store.bindings.get? other = some stored → other ≠ previous →
      ({ row with harness := harness } : SessionBinding).compatible stored = true) :
    ∃ moved, store.rekey previous key harness = .ok moved ∧ Relocated store moved previous key := by
  have away : key ≠ previous := by
    rintro rfl
    rw [free] at found
    cases found
  have quiet : store.network.get? key = none := by
    by_contra some
    have recorded : store.network.has key = true := Option.isSome_iff_ne_none.mpr some
    have bound := coherent.bound key recorded
    simp [Table.has,free] at bound
  have unbound : store.bindings.has key = false := by simp [Table.has,free]
  unfold SessionStore.rekey
  simp only [found,unbound,Bool.false_eq_true,if_false]
  rw [put_apart ?_]
  · refine ⟨_,rfl,⟨?_,fun gone => ?_,fun other different => by simp [different],?_,rfl⟩⟩
    · intro row' same
      obtain rfl : row = row' := Option.some.inj (found.symm.trans same)
      exact ⟨harness,by simp⟩
    · rw [found] at gone; cases gone
    · intro other
      cases recorded : store.network.get? previous with
      | none =>
        by_cases here : other = key
        · subst here; simp [away,quiet]
        · simp [here]
      | some entries => simp
  · intro other stored present different
    simp only [Table.get?_erase] at present
    split at present
    next => cases present
    next elsewhere => exact apart other stored present elsewhere

/-- The relocation of a routed registration succeeds. -/
theorem relocate_ok (coherent : Coherent store) (routes : Routed store request route) :
    ∃ moved, relocate store request route = .ok moved ∧
      Relocated store moved route.previous request.key := by
  by_cases away : route.previous ≠ request.key
  · obtain ⟨taken,found,session,hosted⟩ := routes.moved away
    have free := routes.free away
    have kept : ∀ other stored, store.bindings.get? other = some stored → other ≠ route.previous →
        ({ taken with harness := some request.harness } : SessionBinding).compatible stored = true := by
      intro other stored present different
      have apart := coherent.indexed _ _ _ _ found present different.symm
      have elsewhere : hasSession request.harness request.sessionId stored = false := by
        by_contra same
        exact different (routes.concerned other stored present
          (by simp [SessionRegistration.concerns,Bool.not_eq_false _ ▸ same]))
      simp only [SessionBinding.compatible,Bool.and_eq_true] at apart ⊢
      refine ⟨?_,apart.2⟩
      simp only [hasSession,Bool.and_eq_false_iff,beq_eq_false_iff_ne] at elsewhere
      simp only [session,Option.isSome_some,Bool.and_self,Bool.true_and,Bool.not_eq_true',
        Bool.and_eq_false_iff,beq_eq_false_iff_ne]
      exact elsewhere.imp Ne.symm Ne.symm
    unfold relocate
    have flags := routes.flags
    rw [decide_eq_true away] at flags
    cases host : route.hostChange with
    | true => simpa [host] using rekey_relocated coherent found free kept
    | false =>
      have rekeyed : route.rekeyed = true := by simpa [host] using flags
      have harness := hosted host
      simpa [host,rekeyed,found,harness] using rekey_relocated coherent found free kept
  · have here : route.previous = request.key := not_not.mp away
    have flags := routes.flags
    rw [decide_eq_false away,Bool.or_eq_false_iff] at flags
    refine ⟨store,by simp [relocate,flags],⟨fun row found => ⟨row.harness,?_⟩,?_,?_,?_,rfl⟩⟩
    · rw [← here,found]
    · rw [here]; exact id
    · intro other different
      rw [here,if_neg different]
    · intro other
      rw [here]
      split
      next same => rw [same]
      next => rfl

/-- What an accepted registration leaves, `previous` being the binding taken over. -/
structure Takes (store store' : SessionStore) (request : SessionRegistration) (previous : RefKey) :
    Prop where
  opened : ∃ row, store'.bindings.get? request.key = some row ∧ row.endedAtMs = none ∧
    row.heldOn = none ∧ row.harness = some request.harness ∧
    row.sessionId = some request.sessionId ∧ row.agentId = request.agentId ∧
    (row.registeredBy = request.registeredBy ∨ ∃ old, store.bindings.get? previous = some old ∧
      row.registeredBy = old.registeredBy)
  others : ∀ other, other ≠ request.key →
    store'.bindings.get? other = if other = previous then none else store.bindings.get? other
  network : ∀ other, other ≠ request.key →
    store'.network.get? other = if other = previous then none else store.network.get? other
  concerned : ∀ key row, store.bindings.get? key = some row → request.concerns key row = true →
    key = previous
  owned : ∀ row, store.bindings.get? previous = some row →
    request.concerns previous row = true ∧ row.agentId = request.agentId ∧ row.heldOn = none
  free : previous ≠ request.key → store.bindings.get? request.key = none
  present : previous ≠ request.key → store.bindings.has previous = true
  indexed : Indexed store'.bindings
  stamped : ∀ row, store'.bindings.get? request.key = some row → row.registeredAtMs = request.nowMs
  frame : store' = { store with bindings := store'.bindings, network := store'.network }

/-- The row of a routed registration is free of every other binding's sessions,
so its upsert succeeds. -/
theorem put_registered (coherent : Coherent store) (routes : Routed store request route)
    {moved : SessionStore} (relocated : Relocated store moved route.previous request.key)
    {registeredBy : String} (registrar : registeredBy = request.registeredBy ∨
      ∃ old, store.bindings.get? route.previous = some old ∧ registeredBy = old.registeredBy) :
    ∃ written, moved.put request.key
        (registered request registeredBy (moved.bindings.get? request.key)) = .ok written ∧
      Takes store written request route.previous ∧
      written.historyOf request.key = store.historyOf route.previous := by
  have others : ∀ other stored, moved.bindings.get? other = some stored → other ≠ request.key →
      store.bindings.get? other = some stored ∧ other ≠ route.previous := by
    intro other stored found different
    rw [relocated.others other different] at found
    split at found
    next => cases found
    next elsewhere => exact ⟨found,elsewhere⟩
  have apart : ∀ other stored, moved.bindings.get? other = some stored → other ≠ request.key →
      (registered request registeredBy (moved.bindings.get? request.key)).compatible stored = true := by
    intro other stored found different
    obtain ⟨present,elsewhere⟩ := others other stored found different
    have session : hasSession request.harness request.sessionId stored = false := by
      by_contra same
      exact elsewhere (routes.concerned other stored present
        (by simp [SessionRegistration.concerns,Bool.not_eq_false _ ▸ same]))
    have runner : ∀ r, request.runner.or ((moved.bindings.get? request.key).bind (·.runner)) = some r →
        stored.runner = some r → stored.sessionId = some request.sessionId → False := by
      intro r left recorded same
      cases taken : store.bindings.get? route.previous with
      | none =>
        rw [relocated.absent taken,Option.bind_none,Option.or_none] at left
        exact elsewhere (routes.named r left other stored present recorded same)
      | some row =>
        obtain ⟨harness,now⟩ := relocated.row row taken
        rw [now,Option.bind_some] at left
        exact elsewhere (routes.runner row r taken left other stored present recorded same)
    simp only [hasSession,Bool.and_eq_false_iff,beq_eq_false_iff_ne] at session
    simp only [SessionBinding.compatible,registered,Option.isSome_some,Bool.and_self,Bool.true_and,
      Bool.and_eq_true,Bool.not_eq_true',Bool.and_eq_false_iff,beq_eq_false_iff_ne]
    refine ⟨session.imp Ne.symm Ne.symm,?_⟩
    by_contra clash
    simp only [not_or,not_not,Bool.not_eq_false] at clash
    obtain ⟨⟨⟨some,-⟩,recorded⟩,same⟩ := clash
    obtain ⟨r,left⟩ := Option.isSome_iff_exists.mp some
    exact runner r left (recorded.symm.trans left) same.symm
  refine ⟨_,put_apart apart,⟨⟨registered request registeredBy (moved.bindings.get? request.key),
    ?_,rfl,?_,rfl,rfl,?_,registrar⟩,?_,?_,routes.concerned,routes.owned,routes.free,?_,?_,?_,?_⟩,?_⟩
  · rw [Table.get?_insert,if_pos rfl]
  · cases taken : store.bindings.get? route.previous with
    | none => simp [registered,relocated.absent taken]
    | some row =>
      obtain ⟨harness,now⟩ := relocated.row row taken
      simp [registered,now,(routes.owned row taken).2.2]
  · cases taken : store.bindings.get? route.previous with
    | none => simp [registered,relocated.absent taken]
    | some row =>
      obtain ⟨harness,now⟩ := relocated.row row taken
      simp [registered,now,(routes.owned row taken).2.1]
  · intro other different
    rw [Table.get?_insert,if_neg different]
    exact relocated.others other different
  · intro other different
    rw [relocated.network,if_neg different]
  · intro away
    obtain ⟨row,found,_⟩ := routes.moved away
    exact Table.has_iff.mpr ⟨row,found⟩
  · intro a b left right atA atB different
    simp only [Table.get?_insert] at atA atB
    split at atA <;> split at atB
    next sameA sameB => exact absurd (sameA.trans sameB.symm) different
    next sameA sameB => cases atA; exact apart b right atB sameB
    next sameA sameB => cases atB; rw [compatible_comm]; exact apart a left atA sameA
    next sameA sameB =>
      exact coherent.indexed a b left right (others a left atA sameA).1 (others b right atB sameB).1
        different
  · intro row found
    rw [Table.get?_insert,if_pos rfl] at found
    cases found
    rfl
  · rw [relocated.frame]
  · exact relocated.history

theorem Takes.coherent {previous : RefKey} (coherent : Coherent store)
    (takes : Takes store store' request previous) (rising : Rising (store'.historyOf request.key)) :
    Coherent store' := by
  obtain ⟨own,here,_,unheld,_⟩ := takes.opened
  refine ⟨takes.indexed,?_,?_,?_⟩
  · intro key row found held
    by_cases same : key = request.key
    · subst same
      obtain rfl : own = row := Option.some.inj (here.symm.trans found)
      rw [unheld] at held
      cases held
    · rw [takes.others key same] at found
      split at found
      next => cases found
      next => exact coherent.held key row found held
  · intro key recorded
    by_cases same : key = request.key
    · rw [same]
      exact Table.has_iff.mpr ⟨own,here⟩
    · rw [Table.has,takes.network key same] at recorded
      rw [Table.has,takes.others key same]
      split at recorded
      next => cases recorded
      next elsewhere =>
        rw [if_neg elsewhere]
        exact coherent.bound key recorded
  · intro key
    by_cases same : key = request.key
    · rw [same]; exact rising
    · have history : store'.historyOf key = if key = previous then [] else store.historyOf key := by
        simp only [SessionStore.historyOf,takes.network key same]
        split <;> rfl
      rw [history]
      split
      next => exact ⟨.nil,fun _ none => absurd none List.not_mem_nil⟩
      next => exact coherent.rising key

end Routes

section Network

variable {store store' : SessionStore} {key : RefKey} {network : String} {now : Int}

theorem Rising.last {history : List NetworkEntry} (rising : Rising history) {last : NetworkEntry}
    (newest : history.getLast? = some last) : ∀ entry ∈ history, entry.sinceMs ≤ last.sinceMs := by
  intro entry member
  obtain ⟨front,rfl⟩ := List.getLast?_eq_some_iff.mp newest
  rcases List.mem_append.mp member with earlier | here
  · have sorted := (List.pairwise_append.mp rising.1).2.2 entry earlier last (by simp)
    exact Int.le_of_lt sorted
  · rw [List.mem_singleton.mp here]

/-- An entry stamped after the newest one keeps the times rising, unless that
one has the last instant an `i64` can hold. -/
theorem Rising.append {history : List NetworkEntry} (rising : Rising history)
    (clock : now ≤ i64Max) (room : history.getLast?.map (·.sinceMs) ≠ some i64Max) :
    Rising (history ++ [⟨network,stampAfter (history.getLast?.map (·.sinceMs)) now⟩]) ∧
      ∀ old ∈ history, old.sinceMs < stampAfter (history.getLast?.map (·.sinceMs)) now := by
  have later : ∀ old ∈ history, old.sinceMs < stampAfter (history.getLast?.map (·.sinceMs)) now := by
    intro old member
    cases newest : history.getLast? with
    | none =>
      rw [List.getLast?_eq_none_iff.mp newest] at member
      cases member
    | some last =>
      have below := rising.last newest old member
      have inside : last ∈ history := List.mem_of_getLast? newest
      have bounded := rising.2 last inside
      have notLast : last.sinceMs ≠ i64Max := fun full => room (by rw [newest,Option.map_some,full])
      simp only [Option.map_some,stampAfter,saturatingSucc]
      omega
  refine ⟨⟨?_,?_⟩,later⟩
  · rw [List.pairwise_append]
    exact ⟨rising.1,List.pairwise_singleton _ _,fun old member entry same => by
      rw [List.mem_singleton.mp same]; exact later old member⟩
  · intro entry member
    rcases List.mem_append.mp member with old | new
    · exact rising.2 entry old
    · rw [List.mem_singleton.mp new]
      cases newest : history.getLast? with
      | none => simpa [stampAfter] using clock
      | some last =>
        simp only [Option.map_some,stampAfter,saturatingSucc]
        omega

/-- What planning a network value finds. -/
theorem planNetwork_cases (store : SessionStore) (key : RefKey) (network : String) :
    (∃ code message, planNetwork store key network = refuse code message [] ∧
      code ≠ "storage_error") ∨
    (∃ current, planNetwork store key network = .ok (.unchanged current)) ∨
    (planNetwork store key network =
      .ok (.append ((store.historyOf key).getLast?.map (·.sinceMs))) ∧ network ∈ networkValues ∧
      (store.historyOf key).length < networkHistoryMax) := by
  unfold planNetwork
  split
  next => exact .inl ⟨_,_,rfl,by decide⟩
  next known =>
    simp only
    split
    next current _ => exact .inr (.inl ⟨current,rfl⟩)
    next =>
      split
      next => exact .inl ⟨_,_,rfl,by decide⟩
      next room =>
        have listed : network ∈ networkValues :=
          List.contains_iff_mem.mp (by simpa only [Bool.not_eq_true',Bool.not_eq_false] using known)
        exact .inr (.inr ⟨rfl,listed,Nat.not_le.mp room⟩)

theorem le_stampAfter (previous : Option Int) (now : Int) : now ≤ stampAfter previous now := by
  cases previous with
  | none => exact le_refl now
  | some t => exact le_max_left now _

/-- Appending after the last instant breaks the primary key of the history;
any other append is recorded. -/
theorem applyNetworkPlan_append (rising : Rising (store.historyOf key)) (clock : now ≤ i64Max) :
    let previous := (store.historyOf key).getLast?.map (·.sinceMs)
    (previous = some i64Max →
      applyNetworkPlan store key network now (.append previous) = constraintFailed) ∧
    (previous ≠ some i64Max → ∃ entry : NetworkEntry, entry.network = network ∧ now ≤ entry.sinceMs ∧
      Rising (store.historyOf key ++ [entry]) ∧ applyNetworkPlan store key network now (.append previous) =
        .ok ({ store with network := store.network.insert key (store.historyOf key ++ [entry]) },
          .recorded entry)) := by
  intro previous
  constructor
  · intro full
    obtain ⟨last,newest,same⟩ := Option.map_eq_some_iff.mp full
    have stamp : stampAfter previous now = i64Max := by
      rw [full]
      simp only [stampAfter,saturatingSucc]
      omega
    have clash : (store.historyOf key).any (fun old => old.sinceMs == i64Max) = true :=
      List.any_eq_true.mpr ⟨last,List.mem_of_getLast? newest,by simp [same]⟩
    simp only [applyNetworkPlan,SessionStore.appendEntry,stamp,clash,if_true]
    rfl
  · intro room
    obtain ⟨rises,later⟩ := @Rising.append network _ _ rising clock room
    refine ⟨⟨network,stampAfter previous now⟩,rfl,le_stampAfter previous now,rises,?_⟩
    have fresh : ¬ (store.historyOf key).any
        (fun old => old.sinceMs == stampAfter previous now) = true := by
      intro clash
      obtain ⟨old,member,same⟩ := List.any_eq_true.mp clash
      exact absurd (beq_iff_eq.mp same) (ne_of_lt (later old member))
    simp only [applyNetworkPlan,SessionStore.appendEntry,fresh]
    rfl

end Network

section Accepted

variable {store store' : SessionStore} {request : SessionRegistration} {route : Route}
variable {plan : Option (String × NetworkPlan)} {commitMs : Int} {e : AgentMutationError}

theorem checkAgent_code (failed : checkAgent store request = .error e) : e.code ≠ "storage_error" := by
  unfold checkAgent at failed
  repeat' split at failed
  all_goals cases failed
  all_goals simp

theorem checkRemote_code (failed : checkRemote store request = .error e) :
    e.code ≠ "storage_error" := by
  unfold checkRemote at failed
  split at failed
  all_goals cases failed
  simp

theorem checkMoving_code (failed : checkMovingRegistration store request = .error e) :
    e.code ≠ "storage_error" := by
  unfold checkMovingRegistration at failed
  split at failed
  all_goals cases failed
  simp

theorem checkClaim_code (failed : checkRegistrationClaim store request.agentId = .error e) :
    e.code ≠ "storage_error" := by
  unfold checkRegistrationClaim at failed
  repeat' split at failed
  all_goals cases failed
  all_goals simp

theorem checkRunner_code (failed : checkRunner store request route = .error e) :
    e.code ≠ "storage_error" := by
  unfold checkRunner at failed
  simp only at failed
  repeat' split at failed
  all_goals cases failed
  all_goals simp

theorem routeOf_code (failed : routeOf store request = .error e) : e.code ≠ "storage_error" := by
  unfold routeOf at failed
  cases byRef : store.bindings.get? request.key <;>
    cases bySession : store.bySession request.harness request.sessionId <;>
    simp only [byRef,bySession] at failed <;> repeat' split at failed
  all_goals cases failed
  all_goals simp

/-- Every check of the registration passes, on this route and with this plan. -/
structure Passes (store : SessionStore) (request : SessionRegistration) (route : Route)
    (plan : Option (String × NetworkPlan)) : Prop where
  agent : checkAgent store request = .ok ()
  remote : checkRemote store request = .ok ()
  moving : checkMovingRegistration store request = .ok ()
  claim : checkRegistrationClaim store request.agentId = .ok ()
  routes : routeOf store request = .ok route
  runner : checkRunner store request route = .ok ()
  planned : requestedPlan store request route = .ok plan

theorem Passes.written (passes : Passes store request route plan) :
    registerSession store request commitMs = writeRegistration store request route plan commitMs := by
  simp [registerSession,passes.agent,passes.remote,passes.moving,passes.claim,passes.routes,
    passes.runner,passes.planned,bind,Except.bind]

theorem requestedPlan_cases (store : SessionStore) (request : SessionRegistration) (route : Route) :
    (∃ e, requestedPlan store request route = .error e ∧ e.code ≠ "storage_error") ∨
    requestedPlan store request route = .ok none ∨
    (∃ network current, requestedPlan store request route = .ok (some (network,.unchanged current))) ∨
    (∃ network, requestedPlan store request route = .ok (some (network,
      .append ((store.historyOf route.previous).getLast?.map (·.sinceMs)))) ∧
      network ∈ networkValues ∧ (store.historyOf route.previous).length < networkHistoryMax) := by
  unfold requestedPlan
  cases request.network with
  | none => exact .inr (.inl rfl)
  | some network =>
    rcases planNetwork_cases store route.previous network with
      ⟨code,message,refused,other⟩ | ⟨current,same⟩ | ⟨append,listed,room⟩
    · exact .inl ⟨_,by simp only [refused]; rfl,other⟩
    · exact .inr (.inr (.inl ⟨network,current,by simp only [same]; rfl⟩))
    · exact .inr (.inr (.inr ⟨network,by simp only [append]; rfl,listed,room⟩))

/-- A registration is refused by a check, before anything is written, or passes
them all. -/
theorem registerSession_cases (store : SessionStore) (request : SessionRegistration) (commitMs : Int) :
    (∃ e, registerSession store request commitMs = .error e ∧ e.code ≠ "storage_error") ∨
    ∃ route plan, Passes store request route plan := by
  cases agent : checkAgent store request with
  | error e => exact .inl ⟨e,by simp [registerSession,agent,bind,Except.bind],checkAgent_code agent⟩
  | ok =>
    cases remote : checkRemote store request with
    | error e =>
      exact .inl ⟨e,by simp [registerSession,agent,remote,bind,Except.bind],checkRemote_code remote⟩
    | ok =>
      cases moving : checkMovingRegistration store request with
      | error e =>
        exact .inl ⟨e,by simp [registerSession,agent,remote,moving,bind,Except.bind],
          checkMoving_code moving⟩
      | ok =>
        cases claim : checkRegistrationClaim store request.agentId with
        | error e =>
          exact .inl ⟨e,by simp [registerSession,agent,remote,moving,claim,bind,Except.bind],
            checkClaim_code claim⟩
        | ok =>
          cases routes : routeOf store request with
          | error e =>
            exact .inl ⟨e,by simp [registerSession,agent,remote,moving,claim,routes,bind,Except.bind],
              routeOf_code routes⟩
          | ok route =>
            cases runner : checkRunner store request route with
            | error e =>
              exact .inl ⟨e,by simp [registerSession,agent,remote,moving,claim,routes,runner,bind,
                Except.bind],checkRunner_code runner⟩
            | ok =>
              have passes : ∀ plan, requestedPlan store request route = .ok plan →
                  ∃ route plan, Passes store request route plan :=
                fun plan planned => ⟨route,plan,⟨agent,remote,moving,claim,routes,runner,planned⟩⟩
              rcases requestedPlan_cases store request route with
                ⟨e,failed,other⟩ | planned | ⟨network,current,planned⟩ | ⟨network,planned,_⟩
              · exact .inl ⟨e,by simp [registerSession,agent,remote,moving,claim,routes,runner,failed,
                  bind,Except.bind],other⟩
              · exact .inr (passes _ planned)
              · exact .inr (passes _ planned)
              · exact .inr (passes _ planned)

/-- The writes of a registration once its binding stands under its key. -/
theorem writeRegistration_put {moved written : SessionStore} {registeredBy : String}
    (relocates : relocate store request route = .ok moved)
    (by_ : registeredBy = if route.hostChange || route.rekeyed then
      ((store.bindings.get? route.previous).map (·.registeredBy)).getD request.registeredBy
      else request.registeredBy)
    (puts : moved.put request.key
      (registered request registeredBy (moved.bindings.get? request.key)) = .ok written) :
    (plan = none → writeRegistration store request route plan commitMs = .ok written) ∧
    ∀ network planned, plan = some (network,planned) →
      writeRegistration store request route plan commitMs =
        (applyNetworkPlan written request.key network commitMs planned).map Prod.fst := by
  subst by_
  constructor
  · rintro rfl
    simp only [writeRegistration,relocates,puts,bind,Except.bind]
    rfl
  · rintro network planned rfl
    simp only [writeRegistration,relocates,puts,bind,Except.bind]

/-- What one call may add to a history: nothing, or one entry where there is room,
stamped no earlier than the clock reads. -/
def Grows (now : Int) (before after : List NetworkEntry) : Prop :=
  after = before ∨ ∃ entry : NetworkEntry, after = before ++ [entry] ∧ entry.network ∈ networkValues ∧
    now ≤ entry.sinceMs ∧ before.length < networkHistoryMax

/-- A registration that passes its checks is written, its history grown by at
most one entry; only an entry after the last instant fails. -/
theorem Passes.takes (coherent : Coherent store) (clock : commitMs ≤ i64Max)
    (passes : Passes store request route plan) :
    (∃ network, plan = some (network,.append (some i64Max)) ∧
      registerSession store request commitMs = constraintFailed) ∨
    ((∀ network, plan ≠ some (network,.append (some i64Max))) ∧ ∃ store',
      registerSession store request commitMs = .ok store' ∧
      Takes store store' request route.previous ∧ Coherent store' ∧
      Grows commitMs (store.historyOf route.previous) (store'.historyOf request.key)) := by
  have routes := routed coherent.indexed passes.remote passes.routes passes.runner
  obtain ⟨moved,relocates,relocated⟩ := relocate_ok coherent routes
  rw [passes.written]
  have registrar : (if route.hostChange || route.rekeyed then
      ((store.bindings.get? route.previous).map (·.registeredBy)).getD request.registeredBy
      else request.registeredBy) = request.registeredBy ∨
      ∃ old, store.bindings.get? route.previous = some old ∧
        (if route.hostChange || route.rekeyed then
          ((store.bindings.get? route.previous).map (·.registeredBy)).getD request.registeredBy
        else request.registeredBy) = old.registeredBy := by
    split
    next =>
      cases taken : store.bindings.get? route.previous with
      | none => exact .inl rfl
      | some old => exact .inr ⟨old,rfl,rfl⟩
    next => exact .inl rfl
  obtain ⟨written,puts,takes,history⟩ := put_registered coherent routes relocated registrar
  have rising : Rising (written.historyOf request.key) := by
    rw [history]; exact coherent.rising _
  obtain ⟨bare,stamped⟩ := @writeRegistration_put _ _ _ plan commitMs _ _ _ relocates rfl puts
  have still : ∃ store', (Except.ok written : Except AgentMutationError SessionStore) = .ok store' ∧
      Takes store store' request route.previous ∧ Coherent store' ∧
      Grows commitMs (store.historyOf route.previous) (store'.historyOf request.key) :=
    ⟨written,rfl,takes,takes.coherent coherent rising,.inl history⟩
  rcases requestedPlan_cases store request route with
    ⟨e,failed,other⟩ | planned | ⟨network,current,planned⟩ | ⟨network,planned,listed,short⟩
  · rw [passes.planned] at failed; cases failed
  · have same := Except.ok.inj (passes.planned.symm.trans planned)
    rw [bare same,same]
    exact .inr ⟨nofun,still⟩
  · have same := Except.ok.inj (passes.planned.symm.trans planned)
    rw [stamped _ _ same,same]
    exact .inr ⟨nofun,still⟩
  · have same := Except.ok.inj (passes.planned.symm.trans planned)
    rw [stamped _ _ same,same]
    obtain ⟨full,room⟩ := @applyNetworkPlan_append _ _ network _ rising clock
    rw [← history]
    by_cases last : (written.historyOf request.key).getLast?.map (·.sinceMs) = some i64Max
    · refine .inl ⟨network,by rw [last],?_⟩
      simp only [full last]
      rfl
    · obtain ⟨entry,value,since,rises,recorded⟩ := room last
      have clear : ∀ other, some (network,NetworkPlan.append
          ((written.historyOf request.key).getLast?.map (·.sinceMs))) ≠
          some (other,.append (some i64Max)) := by
        intro other same
        simp only [Option.some.injEq,Prod.mk.injEq,NetworkPlan.append.injEq] at same
        exact last same.2
      refine .inr ⟨clear,_,by simp only [recorded]; rfl,?_⟩
      have appended : ∀ store'', store'' = { written with
          network := written.network.insert request.key (written.historyOf request.key ++ [entry]) } →
          Takes store store'' request route.previous ∧
          store''.historyOf request.key = written.historyOf request.key ++ [entry] := by
        rintro _ rfl
        refine ⟨⟨takes.opened,takes.others,?_,takes.concerned,takes.owned,takes.free,takes.present,
          takes.indexed,takes.stamped,?_⟩,by simp [SessionStore.historyOf]⟩
        · intro other different
          rw [Table.get?_insert,if_neg different]
          exact takes.network other different
        · rw [takes.frame]
      obtain ⟨taken,grown⟩ := appended _ rfl
      refine ⟨taken,taken.coherent coherent ?_,.inr ⟨entry,grown,?_,since,by rw [history]; exact short⟩⟩
      · rw [grown]
        exact rises
      · rw [value]; exact listed

end Accepted
end Entorhinal.Session
