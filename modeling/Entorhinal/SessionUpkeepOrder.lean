import Entorhinal.SessionUpkeep

/-! A gone report ends only the registration it observed. The stamp statement
compares neither times nor registrations, so the law needs that no registration
commits between a report and its stamp; the invariant carries, for each queued
report, that the registrations it has seen are not newer than its end time. -/
namespace Entorhinal.SessionUpkeep
open Session Transition

def Call.reading : Call → Int
  | .registering request => request.nowMs
  | .ending _ _ _ nowMs => nowMs
  | .pruning nowMs => nowMs

structure Sound (w : World) : Prop where
  indexed : Indexed w.store.bindings
  ends : ∀ key row t, w.store.bindings.get? key = some row → row.endedAtMs = some t →
    row.registeredAtMs ≤ t ∧ i64Min ≤ t
  clock : i64Min ≤ w.clock
  registered : ∀ key row, w.store.bindings.get? key = some row → row.registeredAtMs ≤ w.clock
  calls : ∀ id call, w.calls.get? id = some call → i64Min ≤ call.reading ∧ call.reading ≤ w.clock
  reports : ∀ report, report ∈ w.pending ∨ report ∈ w.writing →
    report.received < w.ticks ∧ i64Min ≤ report.stamp.endedAtMs ∧ Reported w report ∧
    ∀ key row, w.store.bindings.get? key = some row → w.registeredAt key ≤ report.received →
      row.registeredAtMs ≤ report.stamp.endedAtMs

theorem World.begin_ticks {w w' : World} {id : Nat} {call : Call} (begun : w.begin id call = some w') :
    w'.ticks = w.ticks := by
  unfold World.begin at begun
  split at begun
  · cases begun
  · cases begun; rfl

theorem World.commit_ticks (w : World) (id : Nat) (call : Call) : (w.commit id call).ticks = w.ticks := by
  cases call with
  | registering request => simp only [World.commit]; split <;> rfl
  | ending => rfl
  | pruning => rfl

namespace Sound

variable {w : World}

theorem tick (holds : Sound w) : Sound { w with ticks := w.ticks + 1 } :=
  ⟨holds.indexed,holds.ends,holds.clock,holds.registered,holds.calls,fun report member =>
    (holds.reports report member).imp_left fun earlier => earlier.trans (Nat.lt_succ_self _)⟩

theorem tick' (holds : Sound w) {ticks : Nat} (same : w.ticks = ticks) :
    Sound { w with ticks := ticks + 1 } := by
  subst same; exact holds.tick

/-- A transaction that registers nothing keeps what the reports have seen. -/
theorem restore (holds : Sound w) {store : SessionStore} (indexed : Indexed store.bindings)
    (kept : ∀ key row', store.bindings.get? key = some row' →
      ∃ row, w.store.bindings.get? key = some row ∧ row'.registeredAtMs = row.registeredAtMs)
    (ends : ∀ key row t, store.bindings.get? key = some row → row.endedAtMs = some t →
      row.registeredAtMs ≤ t ∧ i64Min ≤ t) : Sound { w with store := store } := by
  refine ⟨indexed,ends,holds.clock,?_,holds.calls,?_⟩
  · intro key row' found
    obtain ⟨row,before,same⟩ := kept key row' found
    rw [same]; exact holds.registered key row before
  · intro report member
    obtain ⟨earlier,bound,told,seen⟩ := holds.reports report member
    refine ⟨earlier,bound,told,fun key row' found known => ?_⟩
    obtain ⟨row,before,same⟩ := kept key row' found
    rw [same]; exact seen key row before known

theorem setCalls (holds : Sound w) {calls : Table Nat Call}
    (read : ∀ id call, calls.get? id = some call → i64Min ≤ call.reading ∧ call.reading ≤ w.clock) :
    Sound { w with calls := calls } :=
  ⟨holds.indexed,holds.ends,holds.clock,holds.registered,read,holds.reports⟩

theorem eraseCall (holds : Sound w) (id : Nat) : Sound { w with calls := w.calls.erase id } := by
  refine holds.setCalls fun other call found => ?_
  rw [Table.get?_erase] at found
  split at found
  · cases found
  · exact holds.calls other call found

theorem begin (holds : Sound w) {id : Nat} {call : Call} (now : call.reading = w.clock) {w' : World}
    (begun : w.begin id call = some w') : Sound w' ∧ w'.store = w.store := by
  unfold World.begin at begun
  split at begun
  next => cases begun
  next =>
    cases begun
    refine ⟨holds.setCalls fun other stored found => ?_,rfl⟩
    rw [Table.get?_insert] at found
    split at found
    · cases found; rw [now]; exact ⟨holds.clock,le_refl _⟩
    · exact holds.calls other stored found

theorem setReports (holds : Sound w) (pending writing : List Report)
    (member : ∀ report, report ∈ pending ∨ report ∈ writing → report ∈ w.pending ∨ report ∈ w.writing) :
    Sound { w with pending := pending, writing := writing } :=
  ⟨holds.indexed,holds.ends,holds.clock,holds.registered,holds.calls,
    fun report inside => holds.reports report (member report inside)⟩

theorem forward (holds : Sound w) {now : Int} (later : w.clock ≤ now) :
    Sound { w with clock := now } :=
  ⟨holds.indexed,holds.ends,holds.clock.trans later,
    fun key row found => (holds.registered key row found).trans later,
    fun id call found => (holds.calls id call found).imp_right fun before => before.trans later,
    holds.reports⟩

/-- A registration commits after every report queued so far was received. -/
theorem register (holds : Sound w) {request : SessionRegistration} {store : SessionStore}
    (registers : Registers w.store store request) (now : request.nowMs ≤ w.clock) :
    Sound { w with
      store := store
      registeredAt := Function.update w.registeredAt request.key w.ticks } := by
  obtain ⟨⟨row₀,present,isOpen,stamped,_,_⟩,⟨previous,others⟩,indexed⟩ := registers
  have cases_ : ∀ key row, store.bindings.get? key = some row →
      (key = request.key ∧ row = row₀) ∨
      (key ≠ request.key ∧ w.store.bindings.get? key = some row) := by
    intro key row found
    by_cases same : key = request.key
    · subst same; exact .inl ⟨rfl,Option.some.inj (found.symm.trans present)⟩
    · refine .inr ⟨same,?_⟩
      rw [others key same] at found
      split at found
      · cases found
      · exact found
  refine ⟨indexed holds.indexed,?_,holds.clock,?_,holds.calls,?_⟩
  · intro key row t found ended
    rcases cases_ key row found with ⟨_,rfl⟩ | ⟨_,before⟩
    · rw [isOpen] at ended; cases ended
    · exact holds.ends key row t before ended
  · intro key row found
    rcases cases_ key row found with ⟨_,rfl⟩ | ⟨_,before⟩
    · rw [stamped]; exact now
    · exact holds.registered key row before
  · intro report member
    obtain ⟨earlier,bound,told,seen⟩ := holds.reports report member
    refine ⟨earlier,bound,told,fun key row found known => ?_⟩
    rcases cases_ key row found with ⟨rfl,_⟩ | ⟨different,before⟩
    · simp only [Function.update_self] at known
      omega
    · simp only [Function.update_of_ne different] at known
      exact seen key row before known

/-- An end at a reading not older than the registration it meets. -/
theorem endSession (holds : Sound w) {harness sessionId : String} {runner : Option String}
    {nowMs : Int} (bound : i64Min ≤ nowMs)
    (after : ∀ key row, w.store.bindings.get? key = some row → hasSession harness sessionId row = true →
      row.endedAtMs = none → contradicts runner row.runner = false → row.registeredAtMs ≤ nowMs) :
    Sound { w with store := (Session.endSession w.store harness sessionId runner nowMs).1 } := by
  have touched : ∀ key row',
      (Session.endSession w.store harness sessionId runner nowMs).1.bindings.get? key = some row' → _ :=
    fun key row' found => endSession_get holds.indexed found
  refine holds.restore (endSession_indexed holds.indexed _ _ _ _) ?_ ?_
  · intro key row' found
    obtain ⟨row,before,change⟩ := touched key row' found
    refine ⟨row,before,?_⟩
    rcases change with rfl | ⟨_,_,_,_,rfl⟩ <;> rfl
  · intro key row' t found ended
    obtain ⟨row,before,change⟩ := touched key row' found
    rcases change with rfl | ⟨session,isOpen,agrees,_,rfl⟩
    · exact holds.ends key row' t before ended
    · cases ended
      exact ⟨after key row before session isOpen agrees,bound⟩

/-- Stamps that meet only registrations their reports have seen. -/
theorem stamp (holds : Sound w)
    (seen : ∀ report ∈ w.writing, ∀ key row, w.store.bindings.get? key = some row →
      report.stamp.covers row = true → w.registeredAt key ≤ report.received) :
    Sound { w with store := stampGoneSessions w.store (w.writing.map (·.stamp)) } := by
  have touched : ∀ key row',
      (stampGoneSessions w.store (w.writing.map (·.stamp))).bindings.get? key = some row' → _ :=
    fun key row' found => stampGoneSessions_get _ found
  refine holds.restore (holds.indexed.mono ?_) ?_ ?_
  · intro key row' found
    obtain ⟨row,before,change⟩ := touched key row' found
    refine ⟨row,before,?_⟩
    rcases change with rfl | ⟨_,_,_,rfl⟩ <;> exact ⟨rfl,rfl,rfl⟩
  · intro key row' found
    obtain ⟨row,before,change⟩ := touched key row' found
    refine ⟨row,before,?_⟩
    rcases change with rfl | ⟨_,_,_,rfl⟩ <;> rfl
  · intro key row' t found ended
    obtain ⟨row,before,change⟩ := touched key row' found
    rcases change with rfl | ⟨s,member,covered,rfl⟩
    · exact holds.ends key row' t before ended
    · obtain ⟨report,inside,rfl⟩ := List.mem_map.mp member
      cases ended
      obtain ⟨_,bound,_,known⟩ := holds.reports report (.inr inside)
      exact ⟨known key row before (seen report inside key row before covered),bound⟩

theorem prune (holds : Sound w) {nowMs : Int} {selected : List RefKey} {store : SessionStore}
    (pruned : pruneEndedSessions w.store nowMs selected = some store) :
    Sound { w with store := store } := by
  have kept : ∀ key row, store.bindings.get? key = some row → w.store.bindings.get? key = some row :=
    fun key row => (prune_ok pruned key).2 row
  exact holds.restore
    (holds.indexed.mono fun key row found => ⟨row,kept key row found,rfl,rfl,rfl⟩)
    (fun key row found => ⟨row,kept key row found,rfl⟩)
    (fun key row t found ended => holds.ends key row t (kept key row found) ended)

/-- New reports have seen every registration so far. -/
theorem receive (holds : Sound w) {batch : LivenessBatch} {route : Nat} {principal : String}
    {readings : List Int} {now : Int} (later : w.clock ≤ now)
    (between : ∀ r ∈ readings, w.clock ≤ r ∧ r ≤ now) :
    Sound { w.receive batch route principal readings now with ticks := w.ticks + 1 } := by
  have grown : ∀ report, Reported w report →
      Reported (w.receive batch route principal readings now) report := by
    rintro report ⟨entry,member,rest⟩
    refine ⟨entry,?_,rest⟩
    simp only [World.receive]
    split
    · exact List.mem_append_right _ member
    · exact member
  refine ⟨holds.indexed,holds.ends,holds.clock.trans later,
    fun key row found => (holds.registered key row found).trans later,
    fun id call found => (holds.calls id call found).imp_right fun before => before.trans later,?_⟩
  intro report member
  have old : report ∈ w.pending ∨ report ∈ w.writing →
      report.received < w.ticks + 1 ∧ i64Min ≤ report.stamp.endedAtMs ∧
        Reported (w.receive batch route principal readings now) report ∧
        ∀ key row, w.store.bindings.get? key = some row → w.registeredAt key ≤ report.received →
          row.registeredAtMs ≤ report.stamp.endedAtMs := by
    intro inside
    obtain ⟨earlier,bound,told,seen⟩ := holds.reports report inside
    exact ⟨earlier.trans (Nat.lt_succ_self _),bound,grown report told,seen⟩
  simp only [World.receive] at member
  rcases member with queued | writing
  · split at queued
    · exact old (.inl queued)
    · rcases List.mem_append.mp queued with before | new
      · exact old (.inl before)
      · obtain ⟨stamp,ended,rfl⟩ := List.mem_map.mp (List.mem_of_mem_take new)
        obtain ⟨applied,⟨i,reading⟩,session,inside,gone,harness,sessionId,runner⟩ :=
          sessionLiveness_ended ended
        have time : w.clock ≤ stamp.endedAtMs := by
          rw [reading]
          cases shown : readings[i]? with
          | none => exact later
          | some r => exact (between r (List.mem_of_getElem? shown)).1
        refine ⟨Nat.lt_succ_self _,holds.clock.trans time,⟨session,?_,gone,harness,sessionId,runner⟩,?_⟩
        · simp only [World.receive,applied,if_true]
          exact List.mem_append_left _ (List.mem_map.mpr ⟨session,inside,rfl⟩)
        · exact fun key row found _ => (holds.registered key row found).trans time
  · exact old (.inr writing)

/-- Observed ends keep the invariant. -/
theorem commit (holds : Sound w) {id : Nat} {call : Call} (found : w.calls.get? id = some call)
    (seen : Observed w (.commit id)) : Sound (w.commit id call) := by
  obtain ⟨bound,read⟩ := holds.calls id call found
  cases call with
  | registering request =>
    simp only [World.commit]
    split
    next => exact holds.eraseCall id
    next store ok => exact (holds.eraseCall id).register (registerSession_ok ok) read
  | ending harness sessionId runner nowMs =>
    refine (holds.eraseCall id).endSession bound fun key row stored session isOpen agrees => ?_
    simp only [Observed,observed,found,List.all_eq_true] at seen
    have met := seen (key,row) (Table.mem_rows.mpr stored)
    simpa [session,isOpen,agrees] using met
  | pruning nowMs => exact holds

theorem observed_stamp (seen : Observed w .stamp) : ∀ report ∈ w.writing, ∀ key row,
    w.store.bindings.get? key = some row → report.stamp.covers row = true →
      w.registeredAt key ≤ report.received := by
  intro report member key row found covered
  simp only [Observed,observed,List.all_eq_true] at seen
  have met := seen report member (key,row) (Table.mem_rows.mpr found)
  simpa [covered] using met

theorem step (holds : Sound w) {label : Label} {w' : World} (seen : Observed w label)
    (taken : next w label = some w') : Sound w' := by
  obtain ⟨acted,done,rfl⟩ := Option.map_eq_some_iff.mp taken
  cases label with
  | tick now =>
    simp only [World.act] at done
    split at done
    next later => cases done; exact (holds.forward later.1).tick
    next => cases done
  | routeLost => cases done; exact ⟨holds.indexed,holds.ends,holds.clock,holds.registered,holds.calls,holds.tick.reports⟩
  | liveness batch route principal readings now =>
    simp only [World.act] at done
    split at done
    next valid => cases done; exact holds.receive valid.1 valid.2.2.2
    next => cases done
  | take =>
    simp only [World.act] at done
    split at done
    next empty =>
      cases done
      exact (holds.setReports [] w.pending
        fun _ member => .inl (member.resolve_left (by simp))).tick
    next => cases done
  | stamp =>
    simp only [World.act] at done
    split at done
    next => cases done
    next =>
      cases done
      have stamped := holds.stamp (observed_stamp seen)
      exact (stamped.setReports w.pending []
        fun _ member => .inl (member.resolve_right (by simp))).tick
  | dropStamps =>
    cases done
    exact (holds.setReports w.pending []
      fun _ member => .inl (member.resolve_right (by simp))).tick
  | register id request => exact ((holds.begin rfl done).1).tick' (by rw [(World.begin_ticks done)])
  | endSession id harness sessionId runner =>
    exact ((holds.begin rfl done).1).tick' (by rw [(World.begin_ticks done)])
  | startPrune id => exact ((holds.begin rfl done).1).tick' (by rw [(World.begin_ticks done)])
  | commit id =>
    obtain ⟨call,found,rfl⟩ := Option.map_eq_some_iff.mp done
    exact (holds.commit found seen).tick' (by rw [World.commit_ticks])
  | prune id selected =>
    simp only [World.act] at done
    split at done
    next nowMs found =>
      obtain ⟨store,pruned,rfl⟩ := Option.map_eq_some_iff.mp done
      have kept := holds.prune pruned
      refine Sound.tick (kept.setCalls ?_)
      split
      · exact (kept.eraseCall id).calls
      · exact kept.calls
    next => cases done
  | outside cutOver agents moves claims self =>
    cases done
    exact ⟨holds.indexed,holds.ends,holds.clock,holds.registered,holds.calls,holds.tick.reports⟩

end Sound

/-- A step that changes no end and deletes nothing. -/
private theorem StepLaw.still {w w' : World} {label : Label}
    (same : w'.store.bindings = w.store.bindings) : StepLaw w label w' :=
  ⟨fun key row t found ended => ⟨row,by rwa [← same],.inl ended⟩,
    fun _ _ key row _ found gone => by rw [same,found] at gone; cases gone⟩

theorem Sound.commit_law {w : World} (holds : Sound w) {id : Nat} {call : Call}
    (found : w.calls.get? id = some call) : StepLaw w (.commit id) (w.commit id call) := by
  refine ⟨fun key row' t present ended => ?_,fun _ _ _ _ absurd => by cases absurd⟩
  cases call with
  | registering request =>
    simp only [World.commit] at present
    split at present
    next => exact ⟨row',present,.inl ended⟩
    next store ok =>
      obtain ⟨⟨row₀,stored,isOpen,_⟩,⟨previous,others⟩,_⟩ := registerSession_ok ok
      by_cases same : key = request.key
      · subst same
        obtain rfl := Option.some.inj (present.symm.trans stored)
        rw [isOpen] at ended; cases ended
      · replace present : store.bindings.get? key = some row' := present
        rw [others key same] at present
        split at present
        · cases present
        · exact ⟨row',present,.inl ended⟩
  | ending harness sessionId runner nowMs =>
    obtain ⟨row,before,change⟩ := endSession_get holds.indexed present
    refine ⟨row,before,?_⟩
    rcases change with rfl | ⟨session,isOpen,agrees,_,rfl⟩
    · exact .inl ended
    · cases ended
      exact .inr ⟨isOpen,.inl ⟨id,harness,sessionId,runner,rfl,found,session,agrees⟩⟩
  | pruning nowMs => exact ⟨row',present,.inl ended⟩

theorem Sound.law {w w' : World} (holds : Sound w) {label : Label} (seen : Observed w label)
    (taken : next w label = some w') : StepLaw w label w' := by
  obtain ⟨acted,done,rfl⟩ := Option.map_eq_some_iff.mp taken
  cases label with
  | tick now =>
    simp only [World.act] at done
    split at done
    next => cases done; exact .still rfl
    next => cases done
  | routeLost => cases done; exact .still rfl
  | liveness batch route principal readings now =>
    simp only [World.act] at done
    split at done
    next => cases done; exact .still rfl
    next => cases done
  | take =>
    simp only [World.act] at done
    split at done
    next => cases done; exact .still rfl
    next => cases done
  | stamp =>
    simp only [World.act] at done
    split at done
    next => cases done
    next =>
      cases done
      refine ⟨fun key row' t present ended => ?_,fun _ _ _ _ absurd => by cases absurd⟩
      obtain ⟨row,before,change⟩ := stampGoneSessions_get _ present
      refine ⟨row,before,?_⟩
      rcases change with rfl | ⟨stamp,member,covered,rfl⟩
      · exact .inl ended
      · obtain ⟨report,inside,rfl⟩ := List.mem_map.mp member
        cases ended
        have isOpen : row.endedAtMs = none := by
          simp only [GoneSession.covers,Bool.and_eq_true,Option.isNone_iff_eq_none] at covered
          exact covered.1.2
        exact .inr ⟨isOpen,.inr ⟨rfl,report,inside,(holds.reports report (.inr inside)).2.2.1,covered,
          rfl,Sound.observed_stamp seen report inside key row before covered⟩⟩
  | dropStamps => cases done; exact .still rfl
  | register id request => exact .still (congrArg _ (holds.begin rfl done).2)
  | endSession id harness sessionId runner => exact .still (congrArg _ (holds.begin rfl done).2)
  | startPrune id => exact .still (congrArg _ (holds.begin rfl done).2)
  | commit id =>
    obtain ⟨call,found,rfl⟩ := Option.map_eq_some_iff.mp done
    obtain ⟨ends,prunes⟩ := holds.commit_law found
    exact ⟨ends,prunes⟩
  | prune id selected =>
    simp only [World.act] at done
    split at done
    next nowMs found =>
      obtain ⟨store,pruned,rfl⟩ := Option.map_eq_some_iff.mp done
      constructor
      · intro key row t present ended
        exact ⟨row,(prune_ok pruned key).2 row present,.inl ended⟩
      · intro id' selected' key row same before gone
        cases same
        have due := (prune_ok pruned key).1 row before gone
        simp only [SessionStore.expired,Bool.and_eq_true,Bool.not_eq_true',Option.any_eq_true,
          decide_eq_true_eq] at due
        obtain ⟨⟨ended,stored,past⟩,free⟩ := due
        obtain ⟨after,bound⟩ := holds.ends key row ended before stored
        refine ⟨nowMs,ended,found,stored,after,?_,free⟩
        simp only [pruneCutoff] at past
        omega
    next => cases done
  | outside cutOver agents moves claims self => cases done; exact .still rfl

/-- A module whose queue is empty and whose stored bindings are in order. -/
structure Initial (w : World) : Prop where
  indexed : Indexed w.store.bindings
  ends : ∀ key row t, w.store.bindings.get? key = some row → row.endedAtMs = some t →
    row.registeredAtMs ≤ t ∧ i64Min ≤ t
  clock : i64Min ≤ w.clock
  registered : ∀ key row, w.store.bindings.get? key = some row → row.registeredAtMs ≤ w.clock
  idle : w.calls = ∅ ∧ w.pending = [] ∧ w.writing = []

theorem Initial.sound {w : World} (initial : Initial w) : Sound w := by
  obtain ⟨calls,pending,writing⟩ := initial.idle
  exact ⟨initial.indexed,initial.ends,initial.clock,initial.registered,by simp [calls],
    by simp [pending,writing]⟩

theorem sound_reach {w₀ w : World} (initial : Initial w₀) (reached : Reach next Observed w₀ w) :
    Sound w :=
  reached.invariant Sound initial.sound fun _ _ _ holds seen taken => holds.step seen taken

/-- In every run whose steps have observed what they end, every step keeps the
law of ends and every ended binding ended at or after its registration. -/
theorem gone_ends_observed {w₀ w w' : World} {label : Label} (initial : Initial w₀)
    (reached : Reach next Observed w₀ w) (seen : Observed w label)
    (taken : next w label = some w') :
    StepLaw w label w' ∧ EndsAfterRegistration w ∧ EndsAfterRegistration w' := by
  have holds := sound_reach initial reached
  have after := holds.step seen taken
  exact ⟨holds.law seen taken,fun key row t found ended => (holds.ends key row t found ended).1,
    fun key row t found ended => (after.ends key row t found ended).1⟩

namespace Reopened

/-- One agent, no session yet. -/
def fresh : World where
  store := {
    cutOver := true
    agents := Table.insert ∅ "agent_1" ⟨none⟩
    moves := ∅
    claims := ∅
    selfAuthor := none
    memberName := ∅
    bindings := ∅
    network := ∅ }
  mirror := .start
  foreign := false
  clock := 0
  pending := []
  writing := []
  calls := ∅
  ticks := 0
  registeredAt := fun _ => 0
  applied := []

theorem fresh_initial : Initial fresh := by
  constructor <;> simp [fresh,Indexed,i64Min]

def session : SessionRegistration :=
  ⟨"agent_1","session","s1","omp","s1",none,"host",none,none,0⟩

def goneBatch : LivenessBatch := ⟨1,true,[⟨"omp","s1","/work","gone",9,some "exit",none⟩]⟩

/-- The report of a registered session, drained before anything else happens. -/
def observedRun : List Label :=
  [.register 1 session,.commit 1,.liveness goneBatch 1 "host" [10] 10,.take]

/-- The session is registered again while its report waits. -/
def reopenedRun : List Label :=
  observedRun ++ [.tick 20,.register 2 session,.commit 2]

def endOf (w : World) : Option (Int × Option Int) :=
  (w.store.bindings.get? session.key).map fun row => (row.registeredAtMs,row.endedAtMs)

theorem observedRun_ends : ∃ w w', exec next fresh observedRun = some w ∧ next w .stamp = some w' ∧
    endOf w' = some (0,some 10) ∧ StepLaw w .stamp w' ∧ EndsAfterRegistration w ∧
    EndsAfterRegistration w' := by
  have run : ((exec next fresh observedRun).bind fun w => (next w .stamp).map fun w' =>
      (observed w .stamp,endOf w')) = some (true,some (0,some 10)) := by decide +kernel
  obtain ⟨w,done,rest⟩ := Option.bind_eq_some_iff.mp run
  obtain ⟨w',taken,shown⟩ := Option.map_eq_some_iff.mp rest
  obtain ⟨seen,ends⟩ := Prod.mk.injEq _ _ _ _ ▸ shown
  have reached := admits_reach observed done (by decide +kernel)
  exact ⟨w,w',done,taken,ends,gone_ends_observed fresh_initial reached seen taken⟩

/-- The stamp ends the registration of time 20 at the time 10 of a report it
never was part of. -/
theorem reopened_is_ended : ¬ ∀ w₀ w w' label, Initial w₀ → Reach next Free w₀ w →
    next w label = some w' →
    StepLaw w label w' ∧ EndsAfterRegistration w ∧ EndsAfterRegistration w' := by
  intro law
  have run : ((exec next fresh reopenedRun).bind fun w => (next w .stamp).map endOf) =
      some (some (20,some 10)) := by decide +kernel
  obtain ⟨w,done,rest⟩ := Option.bind_eq_some_iff.mp run
  obtain ⟨w',taken,shown⟩ := Option.map_eq_some_iff.mp rest
  obtain ⟨row,found,times⟩ := Option.map_eq_some_iff.mp shown
  obtain ⟨registered,ended⟩ := Prod.mk.injEq _ _ _ _ ▸ times
  have := (law fresh w w' .stamp fresh_initial (exec_reach done) taken).2.2 _ row 10 found ended
  omega

end Reopened

end Entorhinal.SessionUpkeep
