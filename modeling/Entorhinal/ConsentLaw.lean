import Entorhinal.ConsentRuns
import Mathlib.Data.List.Perm.Basic

/-! Consent over whole runs: a request ends once, everybody is told how, and the audit has one row for
each end. -/
namespace Entorhinal.Consent

open Transition (exec exec_admitted)

variable {F : Type}

section Rows
variable {κ ρ : Type} [LinearOrder κ]

/-- A fresh key adds one row. -/
theorem insert_perm (t : Table κ ρ) {key : κ} (row : ρ) (fresh : t.get? key = none) :
    (t.insert key row).rows.Perm ((key,row) :: t.rows) := by
  have once : ∀ t : Table κ ρ, t.rows.Nodup := fun t => t.sorted.imp fun less same => (same ▸ less).false
  have absent : (key,row) ∉ t.rows := by
    intro inside
    cases (Table.mem_rows.mp inside).symm.trans fresh
  refine (List.perm_ext_iff_of_nodup (once _) (List.nodup_cons.mpr ⟨absent,once t⟩)).mpr ?_
  rintro ⟨k,r⟩
  rw [Table.mem_rows,Table.get?_insert,List.mem_cons,Table.mem_rows,Prod.mk.injEq]
  by_cases same : k = key
  · subst same
    simp [fresh,eq_comm]
  · simp [same]

end Rows

def Key.agent (key : Key) : String := (ofLex key).1

def Key.tool (key : Key) : String := (ofLex (ofLex key).2).1

/-- What the audit and the requests both tell of an end. -/
structure End (F : Type) where
  agentId : String
  tool : String
  outcome : Option (Json F)

def AuditRow.end (row : AuditRow F) : End F := ⟨row.agentId,row.action,some row.outcome⟩

def requestEnd (x : Key × RequestRow F) : End F := ⟨Key.agent x.1,Key.tool x.1,x.2.outcome⟩

structure Consistent (w : World F) : Prop where
  audited : (w.store.audit.map AuditRow.end).Perm (w.store.finished.rows.map requestEnd)
  numbered : w.store.audit.map AuditRow.rowId = List.range' 1 w.store.audit.length
  told : ∀ t ∈ w.told, ∃ row, w.store.finished.get? t.identity.key = some row ∧ row.argsDigest = t.argsDigest ∧
    row.outcome = some t.outcome

theorem Consistent.start (directory : Directory) : Consistent (World.start (F := F) directory) where
  audited := .nil
  numbered := rfl
  told := by intro t inside; cases inside

/-- What a store never loses. -/
structure Grows (s s' : Store F) : Prop where
  finished : ∀ key row, s.finished.get? key = some row → s'.finished.get? key = some row
  audit : s.audit <+: s'.audit

theorem Grows.refl (s : Store F) : Grows s s := ⟨fun _ _ here => here,List.prefix_rfl⟩

theorem Grows.trans {a b c : Store F} (first : Grows a b) (second : Grows b c) : Grows a c :=
  ⟨fun key row here => second.finished key row (first.finished key row here),first.audit.trans second.audit⟩

theorem Quiet.grows {s s' : Store F} (quiet : Quiet s s') : Grows s s' := by
  refine ⟨fun key row here => ?_,?_⟩
  · rw [quiet.finished]
    exact here
  · rw [quiet.audit]

theorem Ends.grows {s s' : Store F} {identity : RequestIdentity} {digest tool : String} {outcome : Json F}
    (ends : Ends s s' identity digest tool outcome) : Grows s s' := by
  obtain ⟨row,_,_,finished⟩ := ends.row
  obtain ⟨_,_,_,audit⟩ := ends.audit
  refine ⟨fun key held here => ?_,audit ▸ List.prefix_append _ _⟩
  have other : key ≠ identity.key := by
    rintro rfl
    cases here.symm.trans ends.waited
  rw [finished,Table.get?_insert,if_neg other]
  exact here

theorem Ends.told {s s' : Store F} {identity : RequestIdentity} {digest tool : String} {outcome : Json F}
    (ends : Ends s s' identity digest tool outcome) :
    ∃ row, s'.finished.get? identity.key = some row ∧ row.argsDigest = digest ∧ row.outcome = some outcome := by
  obtain ⟨row,same,held,finished⟩ := ends.row
  exact ⟨row,by rw [finished,Table.get?_insert,if_pos rfl],same,held⟩

section Steps

/-- How a transaction moves the store, and what it may tell. -/
inductive Moves (s s' : Store F) (tx : Tx F) (answer : Answer F) : Prop
  | quiet (kept : Quiet s s') (replay : ∀ identity digest outcome, tx.asks = some (identity,digest) →
      answer.told = some outcome →
      ∃ row, s'.finished.get? identity.key = some row ∧ row.argsDigest = digest ∧ row.outcome = some outcome)
  | ends (identity : RequestIdentity) (digest tool : String) (outcome : Json F) (asked : tx.asks = some (identity,digest))
      (told : answer.told = some outcome) (ended : Ends s s' identity digest tool outcome)
      (named : ∀ w, Named w tx → tool = identity.tool)

theorem finished_of_outcome {s : Store F} {identity : RequestIdentity} {saved : ConsentRequest F} {outcome : Json F}
    (held : loadRequest s identity = some saved) (told : saved.outcome = some outcome) :
    ∃ row, s.finished.get? identity.key = some row ∧ row.argsDigest = saved.argsDigest ∧ row.outcome = some outcome := by
  obtain ⟨row,here,rfl⟩ := loadRequest_some.mp held
  have told : row.outcome = some outcome := told
  have ended : row.state ≠ .awaiting := by
    intro waiting
    cases told.symm.trans (row.ended.mp waiting)
  exact ⟨row,finished_some.mpr ⟨here,ended⟩,rfl,told⟩

theorem Moves.silent {s s' : Store F} {tx : Tx F} (kept : Quiet s s') : Moves s s' tx .done := by
  refine .quiet kept ?_
  intro _ _ _ _ told
  cases told

theorem Moves.grows {s s' : Store F} {tx : Tx F} {answer : Answer F} (moves : Moves s s' tx answer) : Grows s s' := by
  cases moves with
  | quiet kept _ => exact kept.grows
  | ends _ _ _ _ _ _ ended _ => exact ended.grows

theorem Ends.audited {s s' : Store F} {identity : RequestIdentity} {digest : String} {outcome : Json F}
    (ended : Ends s s' identity digest identity.tool outcome)
    (before : (s.audit.map AuditRow.end).Perm (s.finished.rows.map requestEnd)) :
    (s'.audit.map AuditRow.end).Perm (s'.finished.rows.map requestEnd) := by
  obtain ⟨row,_,held,finished⟩ := ended.row
  obtain ⟨timeMs,target,authorization,audit⟩ := ended.audit
  have one : requestEnd (identity.key,row) = ⟨identity.agentId,identity.tool,some outcome⟩ := by
    rw [requestEnd,held]
    rfl
  rw [audit,finished,List.map_append]
  have inserted := (insert_perm s.finished row ended.waited).map requestEnd
  rw [List.map_cons,one] at inserted
  exact (List.perm_append_singleton _ _).trans ((before.cons _).trans inserted.symm)

theorem mem_tells {tx : Tx F} {answer : Answer F} {t : Told F} :
    t ∈ tells tx answer ↔ tx.asks = some (t.identity,t.argsDigest) ∧ answer.told = some t.outcome := by
  cases t
  unfold tells
  split
  next asked told => simp [asked,told,and_assoc,eq_comm]
  next other =>
    refine iff_of_false (by intro inside; cases inside) ?_
    rintro ⟨asked,told⟩
    exact other _ _ _ asked told

variable [DecidableEq F]

theorem mutation_moves {site : Site} {s s' : Store F} {commit : ConsentCommit F}
    {result : Except AgentMutationError (Directory × Json F)} {outcome : Json F} {tx : Tx F}
    (asked : tx.asks = some (commit.request.identity,commit.request.argsDigest))
    (named : ∀ w, Named w tx → commit.action = commit.request.identity.tool)
    (ok : mutation site s commit result = .ok (outcome,s')) : Moves s s' tx (.outcome outcome) := by
  obtain ⟨saved,held,digest,told,rfl⟩ | ⟨_,directory,_,completed⟩ := mutation_cases ok
  · refine .quiet ⟨rfl,rfl⟩ ?_
    intro identity digest' outcome' same replied
    cases asked.symm.trans same
    cases replied
    rw [← digest]
    exact finished_of_outcome held told
  · have moved : Quiet s { s with directory := directory } := ⟨rfl,rfl⟩
    exact .ends _ _ _ outcome asked rfl (moved.ends (complete_ends completed)) named

theorem run_moves {site : Site} {s s' : Store F} {tx : Tx F} {answer : Answer F}
    (ok : run site s tx = .ok (answer,s')) : Moves s s' tx answer := by
  cases tx with
  | openRequest row plan =>
    obtain ⟨⟨saved,inserted,opened⟩,accepted,same⟩ := map_ok ok
    cases same
    obtain ⟨middle,begun,_,kept,_⟩ := openRequest_cases accepted
    refine .quiet ((beginRequest_quiet begun).trans kept) ?_
    intro identity digest outcome asked told
    cases asked
    obtain ⟨held,same,rfl⟩ | ⟨_,_,fresh,rfl,_⟩ := beginRequest_cases begun
    · rw [kept.finished,← same]
      exact finished_of_outcome held told
    · cases fresh.symm.trans told
  | setElicitation identity id =>
    cases ok
    exact .silent (setElicitation_quiet s identity id)
  | recordSettlement identity digest scopeRef epoch settlement =>
    cases ok
    exact .silent (recordSettlement_quiet s identity digest scopeRef epoch settlement)
  | savePage scopeRef epoch page cursor =>
    cases ok
    exact .silent (savePage_quiet s scopeRef epoch page cursor)
  | deleteAwaiting identity =>
    cases ok
    exact .silent (deleteAwaiting_quiet s identity)
  | refuseWrite row action target authorization error nowMs =>
    obtain ⟨⟨outcome,done⟩,accepted,same⟩ := map_ok ok
    cases same
    obtain ⟨saved,held,digest,told,rfl⟩ | ended := refuseWrite_cases accepted
    · refine .quiet ⟨rfl,rfl⟩ ?_
      intro identity digest' outcome' asked replied
      cases asked
      cases replied
      rw [← digest]
      exact finished_of_outcome held told
    · exact .ends _ _ _ outcome rfl rfl ended fun _ named => named
  | applyConsentWrite plan commit result =>
    obtain ⟨⟨outcome,done⟩,accepted,same⟩ := map_ok ok
    cases same
    obtain ⟨_,checked,written⟩ := bind_ok accepted
    have matched := reject_ok checked
    simp only [mismatched,Bool.or_eq_false_iff,bne_eq_false_iff_eq] at matched
    exact mutation_moves rfl (fun _ _ => matched.1.1.trans matched.1.2.symm) (mapError_ok written)
  | catalogInstall commit result =>
    obtain ⟨⟨outcome,done⟩,accepted,same⟩ := map_ok ok
    cases same
    exact mutation_moves rfl (fun _ named => named) accepted
  | revokeGrant id now =>
    cases ok
    exact .silent ⟨rfl,rfl⟩
  | setProjectHireCap project cap =>
    obtain ⟨done,accepted,same⟩ := map_ok ok
    cases same
    obtain rfl := setProjectHireCap_ok accepted
    exact .silent ⟨rfl,rfl⟩
  | elsewhere directory =>
    cases ok
    exact .silent ⟨rfl,rfl⟩

/-- One transaction, accepted or rolled back. -/
theorem next_cases {site : Site} {w w' : World F} {tx : Tx F} (taken : next site w tx = some w') :
    w' = w ∨ ∃ answer, Moves w.store w'.store tx answer ∧ w'.told = tells tx answer ++ w.told := by
  unfold next at taken
  split at taken
  next answer s ok =>
    cases taken
    exact .inr ⟨answer,run_moves ok,rfl⟩
  next => cases taken; exact .inl rfl

theorem Consistent.step {site : Site} {w w' : World F} {tx : Tx F} (holds : Consistent w) (named : Named w tx)
    (taken : next site w tx = some w') : Consistent w' := by
  obtain rfl | ⟨answer,moves,told⟩ := next_cases taken
  · exact holds
  have older : ∀ t ∈ w.told, ∃ row, w'.store.finished.get? t.identity.key = some row ∧
      row.argsDigest = t.argsDigest ∧ row.outcome = some t.outcome := by
    intro t inside
    obtain ⟨row,here,rest⟩ := holds.told t inside
    exact ⟨row,moves.grows.finished _ _ here,rest⟩
  cases moves with
  | quiet kept replay =>
    refine ⟨?_,?_,?_⟩
    · rw [kept.audit,kept.finished]
      exact holds.audited
    · rw [kept.audit]
      exact holds.numbered
    · intro t inside
      rw [told] at inside
      rcases List.mem_append.mp inside with new | old
      · have ⟨asked,replied⟩ := mem_tells.mp new
        exact replay _ _ _ asked replied
      · exact older t old
  | ends identity digest tool outcome asked replied ended names =>
    cases names w named
    refine ⟨ended.audited holds.audited,?_,?_⟩
    · obtain ⟨timeMs,target,authorization,audit⟩ := ended.audit
      rw [audit,List.map_append,holds.numbered,List.length_append,List.length_singleton,List.range'_1_concat,
        Nat.add_comm 1]
      rfl
    · intro t inside
      rw [told] at inside
      rcases List.mem_append.mp inside with new | old
      · have ⟨asked',replied'⟩ := mem_tells.mp new
        cases asked.symm.trans asked'
        cases replied.symm.trans replied'
        exact ended.told
      · exact older t old

theorem reached_consistent {site : Site} {directory : Directory} {w : World F}
    (reached : Reached site directory w) : Consistent w :=
  reached.invariant Consistent (.start directory) fun _ _ _ holds named taken => holds.step named taken

theorem reach_grows {site : Site} {w w' : World F} (run : Transition.Reach (next site) Named w w') :
    Grows w.store w'.store := by
  refine run.invariant (fun w' => Grows w.store w'.store) (.refl _) ?_
  intro middle tx last sofar _ taken
  obtain rfl | ⟨answer,moves,_⟩ := next_cases taken
  · exact sofar
  · exact sofar.trans moves.grows

/-- Whoever asks for one request, in whatever order, is told one outcome, and it is the one that was
committed with it; no later step takes it back. -/
theorem request_ends_once {site : Site} {directory : Directory} {w w' : World F}
    (reached : Reached site directory w) (later : Transition.Reach (next site) Named w w') :
    (∀ a ∈ w.told, ∀ b ∈ w'.told, a.identity = b.identity → a.argsDigest = b.argsDigest ∧ a.outcome = b.outcome) ∧
    (∀ t ∈ w.told, ∃ row, w'.store.requests.get? t.identity.key = some row ∧ row.argsDigest = t.argsDigest ∧
      row.state ≠ .awaiting ∧ row.outcome = some t.outcome) := by
  have first := reached_consistent reached
  have last : Consistent w' := reached_consistent (reached.trans later)
  have grows := reach_grows later
  refine ⟨?_,?_⟩
  · intro a asked b asked' same
    obtain ⟨row,here,digest,outcome⟩ := first.told a asked
    obtain ⟨row',there,digest',outcome'⟩ := last.told b asked'
    have here := grows.finished _ _ here
    rw [same,there] at here
    cases here
    exact ⟨digest.symm.trans digest',Option.some.inj (outcome.symm.trans outcome')⟩
  · intro t asked
    obtain ⟨row,here,digest,outcome⟩ := first.told t asked
    obtain ⟨here,ended⟩ := finished_some.mp (grows.finished _ _ here)
    exact ⟨row,here,digest,ended,outcome⟩

/-- The audit only grows, its rows count up from one, and they are those of the ended requests, one for each. -/
theorem audit_of_ends {site : Site} {directory : Directory} {w w' : World F}
    (reached : Reached site directory w) (later : Transition.Reach (next site) Named w w') :
    w.store.audit <+: w'.store.audit ∧
    w'.store.audit.map AuditRow.rowId = List.range' 1 w'.store.audit.length ∧
    (w'.store.audit.map AuditRow.end).Perm (w'.store.finished.rows.map requestEnd) := by
  have last : Consistent w' := reached_consistent (reached.trans later)
  exact ⟨(reach_grows later).audit,last.numbered,last.audited⟩

/-! A project is registered under a card that approves it for good. -/
namespace Registered

def agent : String := "agent_0123abcd"

def site : Site := ⟨fun _ => List.replicate 16 0,.ok⟩

def assistant : Agents.AgentRow := ⟨agent,"Ada",1,"a",[],"assistant",none,none,"live",none,none,0,none,1⟩

def directory : Directory :=
  ⟨true,(∅ : Table String Agents.AgentRow).insert agent assistant,
    { Registry.Tables.empty with workspaces := (∅ : Table String String).insert "ws" "Work" }⟩

def arguments : Json Empty :=
  .objectOf [("name",.string "shop"),("dir",.string "/shop"),("workspace_id",.string "ws")]

def plan : ConsentWrite Empty :=
  ⟨"projects_register",arguments,.objectOf [("kind",.string "project"),("label",.string "shop"),("dir",.string "/shop"),
    ("workspace_id",.string "ws"),("workspace_label",.string "Work"),("domain",.null)],some .registerProject,some "ws"⟩

def identity : RequestIdentity := ⟨agent,"projects_register","first"⟩

def row : ConsentRequest Empty := ⟨identity,"d1","scope",1,5,none,none,.awaiting,none⟩

def answer : RecordedSettlement := ⟨"answered",some "approve_always_workspace","card",9⟩

def commit : ConsentCommit Empty :=
  ⟨row,.card "card" "approve_always_workspace","projects_register",plan,
    some ⟨"grant:1",agent,.registerProject,"ws",11,"card",none⟩,12⟩

def outcome : Json Empty := .objectOf [("project_id",.string "p")]

def asked : List (Tx Empty) := [.openRequest row (some plan),.recordSettlement identity "d1" "scope" 1 answer]

def write : Tx Empty := .applyConsentWrite plan commit (.ok (directory,outcome))

theorem named (labels : List (Tx Empty)) (few : ∀ tx ∈ labels, tx ∈ asked ++ [write,.openRequest row none]) :
    ∀ tx ∈ labels, ∀ w, Named w tx := by
  intro tx inside w
  have known := few tx inside
  simp only [asked,List.cons_append,List.nil_append,List.mem_cons,List.not_mem_nil,or_false] at known
  rcases known with rfl | rfl | rfl | rfl <;> trivial

theorem asked_reached {w : World Empty} (ran : exec (next site) (World.start directory) (asked ++ [write]) = some w) :
    Reached site directory w :=
  exec_admitted ran <| named _ fun tx inside => by
    rcases List.mem_append.mp inside with old | new
    · exact List.mem_append_left _ old
    · rw [List.mem_singleton.mp new]
      exact List.mem_append_right _ List.mem_cons_self

/-- The write is told of once more. -/
theorem outcome_repeated : ∃ w w', exec (next site) (World.start directory) (asked ++ [write]) = some w ∧
    exec (next site) w [.openRequest row none] = some w' ∧ w'.told.length = 2 ∧
    ∀ b ∈ w'.told, b.identity = identity → b.outcome = outcome := by
  have runs : (exec (next site) (World.start directory) (asked ++ [write])).any (fun w =>
      (exec (next site) w [.openRequest row none]).any fun w' => decide (w'.told.length = 2) &&
        w.told.any fun a => decide (a.identity = identity ∧ a.outcome = outcome)) = true := by decide +kernel
  obtain ⟨w,ran,runs⟩ := (Option.any_eq_true _ _).mp runs
  obtain ⟨w',ran',runs⟩ := (Option.any_eq_true _ _).mp runs
  obtain ⟨twice,told⟩ := Bool.and_eq_true_iff.mp runs
  obtain ⟨a,inside,told⟩ := List.any_eq_true.mp told
  obtain ⟨first,same⟩ := of_decide_eq_true told
  refine ⟨w,w',ran,ran',of_decide_eq_true twice,fun b inside' second => ?_⟩
  have later : Transition.Reach (next site) Named w w' :=
    exec_admitted ran' (named _ fun tx inside => List.mem_append_right _ (List.mem_cons_of_mem _ inside))
  have agree := (request_ends_once (asked_reached ran) later).1 a inside b inside' (first.trans second.symm)
  exact agree.2.symm.trans same

theorem write_audited : ∃ w, exec (next site) (World.start directory) (asked ++ [write]) = some w ∧
    w.store.audit.length = 1 ∧ (w.store.audit.map AuditRow.end).Perm (w.store.finished.rows.map requestEnd) := by
  have runs : (exec (next site) (World.start directory) (asked ++ [write])).any (fun w =>
      decide (w.store.audit.length = 1)) = true := by decide +kernel
  obtain ⟨w,ran,once⟩ := (Option.any_eq_true _ _).mp runs
  exact ⟨w,ran,of_decide_eq_true once,(audit_of_ends (asked_reached ran) .refl).2.2⟩

end Registered

end Steps

end Entorhinal.Consent
