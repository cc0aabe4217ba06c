import Entorhinal.ConsentCalls

/-! What a call learns of its request, function by function: an answer that approves was said of the request. -/
namespace Entorhinal.Consent

open Remote (asI64)

variable {F π : Type} [DecidableEq F]

/-- The answer kept with a request was said of it. -/
def RowOk (said : List (Json F)) (row : ConsentRequest F) : Prop :=
  ∀ answer, row.settlement = some answer → Evidence said row.identity row.argsDigest answer

/-- An approval was said of the request. -/
def DecisionOk (said : List (Json F)) (identity : RequestIdentity) : Decision F → Prop
  | .approved answer => (∃ digest, Evidence said identity digest answer) ∧ answer.state = "answered"
  | _ => True

def RecordOk (said : List (Json F)) (identity : RequestIdentity) : RecordDecision F → Prop
  | .settled decision => DecisionOk said identity decision
  | _ => True

theorem RowOk.mono {said said' : List (Json F)} {row : ConsentRequest F} (grown : said ⊆ said') (ok : RowOk said row) :
    RowOk said' row := fun answer told => (ok answer told).mono grown

theorem DecisionOk.mono {said said' : List (Json F)} {identity : RequestIdentity} {decision : Decision F}
    (grown : said ⊆ said') (ok : DecisionOk said identity decision) : DecisionOk said' identity decision := by
  cases decision with
  | approved answer =>
    obtain ⟨⟨digest,told⟩,state⟩ := ok
    exact ⟨⟨digest,told.mono grown⟩,state⟩
  | _ => trivial

theorem lasts_row (row : ConsentRequest F) : Lasts fun m : Machine F π => RowOk m.said row :=
  fun _ _ ok grow => ok.mono grow.said

theorem lasts_decision (identity : RequestIdentity) (decision : Decision F) :
    Lasts fun m : Machine F π => DecisionOk m.said identity decision := fun _ _ ok grow => ok.mono grow.said

theorem lasts_evidence (identity : RequestIdentity) (digest : String) (answer : RecordedSettlement) :
    Lasts fun m : Machine F π => Evidence m.said identity digest answer := fun _ _ ok grow => ok.mono grow.said

omit [DecidableEq F] in
theorem lasts_said (record : Json F) : Lasts fun m : Machine F π => record ∈ m.said :=
  fun _ _ inside grow => grow.said inside

omit [DecidableEq F] in
theorem lasts_pure (p : Prop) : Lasts fun _ : Machine F π => p := fun _ _ holds _ => holds

theorem settledDecision_ok {said : List (Json F)} {identity : RequestIdentity} {digest : String}
    {answer : RecordedSettlement} {now : Int} (told : Evidence said identity digest answer) :
    DecisionOk said identity (settledDecision answer now) := by
  unfold settledDecision
  split
  next => trivial
  next =>
    split
    next answered =>
      split
      next =>
        split
        next => exact ⟨⟨digest,told⟩,answered⟩
        next => split <;> trivial
      next => trivial
    next => split <;> trivial

theorem recordedDecision_ok {said : List (Json F)} {row : ConsentRequest F} {now : Int} {decision : Decision F}
    (ok : RowOk said row) (decided : recordedDecision row now = some decision) : DecisionOk said row.identity decision := by
  obtain ⟨answer,settled,rfl⟩ := Option.map_eq_some_iff.mp decided
  exact settledDecision_ok (ok answer settled)

theorem unresolved_ok (said : List (Json F)) (identity : RequestIdentity) (row : ConsentRequest F) (now : Int) :
    DecisionOk said identity (unresolved row now) := by
  unfold unresolved
  split <;> trivial

omit [DecidableEq F] in
/-- A binding that was written is read as itself. -/
theorem read_json (binding : Binding) : Binding.read (binding.json : Json F) = some binding := by
  obtain ⟨⟨agentId,tool,requestKey⟩,argsDigest⟩ := binding
  have written : (Binding.json ⟨⟨agentId,tool,requestKey⟩,argsDigest⟩ : Json F) = .object
      [("agent_id",.string agentId),("args_digest",.string argsDigest),("request_key",.string requestKey),
        ("tool",.string tool)] := by
    have first : ¬"tool" < "agent_id" := by decide
    have second : ¬"request_key" < "agent_id" := by decide
    have third : "request_key" < "tool" := by decide
    have fourth : ¬"args_digest" < "agent_id" := by decide
    have fifth : "args_digest" < "request_key" := by decide
    simp [Binding.json,Json.objectOf,Json.set,Table.insertRow,first,second,third,fourth,fifth]
  rw [written]
  simp [Binding.read,Json.members,Json.field,Json.get?,Table.lookup,Json.asStr,Binding.fields]

theorem settlings_ok {said records : List (Json F)} (heard : ∀ record ∈ records, record ∈ said) :
    ∀ settling ∈ settlings records, Evidence said settling.identity settling.argsDigest settling.answer := by
  intro settling inside
  obtain ⟨record,listed,made⟩ := List.mem_filterMap.mp inside
  obtain ⟨answer,told,made⟩ := Option.bind_eq_some_iff.mp made
  obtain ⟨binding,read,made⟩ := Option.bind_eq_some_iff.mp made
  split at made
  next => cases made; exact ⟨record,heard record listed,told,read⟩
  next => cases made

section Functions
variable {site : Site} {directory : Directory} {provider : Provider F} {asked : π → Call F} {p : π} {P : Machine F π → Prop}

/-- A request that is read from the store has what was told of it. -/
theorem does_loaded (stable : Stable p P) (identity : RequestIdentity) :
    Does site directory provider asked p P (perform (.loadRequest identity)) fun read m => P m ∧
      ∀ saved, read = .ok (some saved) → RowOk m.said saved ∧ saved.identity = identity := by
  refine does_look (e := .loadRequest identity) stable ?_ ?_
  · exact fun m choice answer m' taken => (reads_same taken).1
  · intro m choice answer inv holds taken
    refine ⟨holds,?_⟩
    rintro saved rfl
    have value := (reads_same taken).2 _ rfl
    obtain ⟨_,_,loaded⟩ := map_ok value
    obtain ⟨row,here,rfl⟩ := loadRequest_some.mp loaded
    exact ⟨fun answer told => inv.settled identity row answer here told,rfl⟩

theorem does_request (stable : Stable p P) (identity : RequestIdentity) :
    Does site directory provider asked p P (readRequest identity) fun answer m => P m ∧
      ∀ saved, answer = some saved → RowOk m.said saved ∧ saved.identity = identity :=
  Framed.bind (does_loaded stable identity) fun _ =>
    does_lift fun answer m same holds => ⟨holds.1,fun saved is => holds.2 saved (by rw [same,is])⟩

theorem does_saved (stable : Stable p P) (identity : RequestIdentity) :
    Does site directory provider asked p P (readSaved identity) fun answer m => P m ∧
      ∀ saved, answer = some saved → RowOk m.said saved ∧ saved.identity = identity :=
  Framed.bind (does_loaded stable identity) fun _ =>
    does_lift fun answer m same holds => ⟨holds.1,fun saved is => holds.2 saved (by rw [mapError_ok same,is])⟩

theorem does_inspectSettled {row : ConsentRequest F} {answer : RecordedSettlement} {now : Int} :
    Does site directory provider asked p (fun m => Evidence m.said row.identity row.argsDigest answer)
      (inspectSettled row answer now) fun decision m => RecordOk m.said row.identity decision := by
  refine Framed.bind (does_sql (lasts_evidence _ _ _) ?_ rfl) fun _ => ?_
  · exact fun m told => ⟨told,(by intro commit writes; cases writes),fun _ => trivial⟩
  refine Framed.bind (does_request (lasts_evidence _ _ _).stable row.identity) fun read => ?_
  cases read with
  | none => exact Framed.fail fun _ _ _ => trivial
  | some saved =>
    refine Framed.pure fun _ m holds => ?_
    obtain ⟨ok,same⟩ := holds.2 saved rfl
    show DecisionOk m.said row.identity _
    cases decided : recordedDecision saved now with
    | none => trivial
    | some decision =>
      rw [← same]
      exact recordedDecision_ok ok decided

/-- A record that counts was said of this request. -/
theorem evidence_of {said : List (Json F)} {row : ConsentRequest F} {record : Json F} {answer : RecordedSettlement}
    (inside : record ∈ said) (matches' : mismatches row record = false) (told : settlement record = some answer) :
    Evidence said row.identity row.argsDigest answer := by
  rw [mismatches,Bool.or_eq_false_iff,bne_eq_false_iff_eq] at matches'
  refine ⟨record,inside,told,?_⟩
  rw [Json.field,matches'.1]
  exact read_json _

theorem does_inspect {row : ConsentRequest F} {record : Json F} :
    Does site directory provider asked p (fun m => record ∈ m.said) (inspectRecord row record)
      fun decision m => RecordOk m.said row.identity decision := by
  refine Framed.bind (does_clock (lasts_said record).stable) fun now => ?_
  split
  next => exact Framed.pure fun _ _ _ => trivial
  next matched =>
    split
    next => exact Framed.pure fun _ _ _ => trivial
    next =>
      split
      next answer told =>
        exact does_before does_inspectSettled fun m inside => evidence_of inside (by simpa using matched) told
      next => split <;> exact Framed.pure fun _ _ _ => trivial

theorem does_leave {row : ConsentRequest F} {identity : RequestIdentity} :
    Does site directory provider asked p (fun _ => True) (leaveUnresolved row) fun decision m => DecisionOk m.said identity decision :=
  Framed.bind (does_clock (lasts_pure True).stable) fun now => Framed.pure fun _ m _ => unresolved_ok m.said identity row now

/-- A record that a message brought. -/
def Heard (reply : Reply F) (m : Machine F π) : Prop := ∀ json, reply = .ok json → json ∈ m.said

omit [DecidableEq F] in
theorem recordsOf_self (json : Json F) : json ∈ recordsOf json := List.mem_cons_self

theorem does_ask {e : Effect F} (is : e.Result = Reply F)
    (hears : ∀ m choice answer m', act site p m e choice = some (answer,m') → hear m choice = some (is ▸ answer,m')) :
    Does site directory provider asked p (fun _ => True) (perform e) (fun answer m => Heard (is ▸ answer) m) := by
  refine (does_hear is (lasts_pure True).stable hears).consequence (fun _ _ => id) ?_ fun _ _ _ => id
  exact fun answer _ m holds json same => holds.2 json same json (recordsOf_self json)

theorem does_detach {current : ConsentRequest F} {id : String} :
    Does site directory provider asked p (fun _ => True) (detachCard current id)
      fun decision m => DecisionOk m.said current.identity decision := by
  refine Framed.bind (does_ask (e := .detach id) rfl fun _ _ _ _ taken => taken) fun reply => ?_
  cases reply with
  | error e => exact Framed.pure fun _ _ _ => trivial
  | ok record =>
    refine Framed.bind (does_before does_inspect fun m heard => heard record rfl) fun decision => ?_
    cases decision with
    | settled decision => exact Framed.pure fun _ _ ok => ok
    | _ => exact Framed.pure fun _ _ _ => trivial

theorem does_await {current : ConsentRequest F} {id : String} :
    Does site directory provider asked p (fun _ => True) (awaitCard current id)
      fun decision m => DecisionOk m.said current.identity decision := by
  refine Framed.bind (does_ask (e := .await id) rfl fun _ _ _ _ taken => taken) fun reply => ?_
  cases reply with
  | error e => exact does_before does_detach fun _ _ => trivial
  | ok record =>
    refine Framed.bind (does_before does_inspect fun m heard => heard record rfl) fun decision => ?_
    cases decision with
    | settled decision => exact Framed.pure fun _ _ ok => ok
    | mismatch => exact Framed.pure fun _ _ _ => trivial
    | pending => exact does_before does_detach fun _ _ => trivial

theorem does_resume {current : ConsentRequest F} {id : String} :
    Does site directory provider asked p (fun _ => True) (resumeCard current id)
      fun decision m => DecisionOk m.said current.identity decision := by
  refine Framed.bind (does_ask (e := .get id) rfl fun _ _ _ _ taken => taken) fun reply => ?_
  cases reply with
  | error e =>
    cases e with
    | refused code =>
      show Does site directory provider asked p _ (if code = "elicitation_not_found" ∨ code = "elicitation_not_owner" then _ else _) _
      split <;> exact Framed.pure fun _ _ _ => trivial
    | _ => exact Framed.pure fun _ _ _ => trivial
  | ok record =>
    refine Framed.bind (does_before does_inspect fun m heard => heard record rfl) fun decision => ?_
    cases decision with
    | settled decision => exact Framed.pure fun _ _ ok => ok
    | mismatch => exact Framed.pure fun _ _ _ => trivial
    | pending => exact does_before does_await fun _ _ => trivial

theorem does_savePage {owner : Owner} {records : List (Json F)} {next : Int} :
    Does site directory provider asked p (fun m => ∀ record ∈ records, record ∈ m.said)
      (perform (.tx (.savePage owner.scopeRef owner.epoch (settlings records) next)))
      fun result m => ∀ answer, result = .ok answer → ∃ page ∈ m.saved, page.owner = owner ∧ page.cursor = next := by
  refine does_tx_after ?_ ?_ (by intro m _ identity other; cases other) ?_ (by intro e m answer same; cases same)
  · exact fun m m' holds relied record inside => relied.grow.said (holds record inside)
  · exact fun m holds => ⟨settlings_ok holds,(by intro commit writes; cases writes),fun _ => trivial⟩
  · exact fun m answer s' _ _ _ _ _ => ⟨_,List.mem_cons_self,rfl,rfl⟩

theorem does_ack {owner : Owner} {cursor : Int} :
    Does site directory provider asked p (fun m => ∃ page ∈ m.saved, page.owner = owner ∧ page.cursor = cursor)
      (perform (.ack owner cursor)) fun _ _ => True := by
  refine does_effect (e := .ack owner cursor) ?_ ?_
  · rintro m m' ⟨page,inside,same⟩ relied
    exact ⟨page,relied.grow.saved inside,same⟩
  · intro m choice answer m' inv saved heard
    have marked : Inv site provider directory { m with acked := (owner,cursor) :: m.acked } := by
      refine { inv with acked := ?_ }
      intro x listed
      rcases List.mem_cons.mp listed with rfl | listed
      · exact saved
      · exact inv.acked x listed
    obtain ⟨inv',grow,relied,_⟩ := hear_inv marked heard
    exact ⟨inv',⟨grow.said,grow.saved⟩,fun q _ => ⟨⟨grow.said,grow.saved⟩,(relied q).held⟩,trivial⟩

omit [DecidableEq F] in
theorem records_heard {page : Json F} {records : List (Json F)} {said : List (Json F)}
    (listed : (page.field "records").asArray = some records) (heard : ∀ record ∈ recordsOf page, record ∈ said) :
    ∀ record ∈ records, record ∈ said := by
  intro record inside
  refine heard record (List.mem_cons_of_mem _ ?_)
  rw [listed]
  exact inside

/-- By induction on the pages that can still be read. -/
theorem does_pages {owner : Owner} (turns : Nat) (cursor : Int) :
    Does site directory provider asked p (fun _ => True) (capturePages owner turns cursor) fun _ _ => True := by
  induction turns generalizing cursor with
  | zero => exact Framed.pure fun _ _ _ => trivial
  | succ turns ih =>
    refine Framed.bind (does_hear (e := .answers owner cursor) rfl (lasts_pure True).stable fun _ _ _ _ taken => taken)
      fun reply => ?_
    cases reply with
    | error e => exact Framed.pure fun _ _ _ => trivial
    | ok page =>
      cases listed : (page.field "records").asArray with
      | none =>
        simp only [listed]
        exact Framed.pure fun _ _ _ => trivial
      | some records =>
        cases at' : (asI64 (page.field "cursor")).filter (decide <| cursor ≤ ·) with
        | none =>
          simp only [listed,at']
          exact Framed.pure fun _ _ _ => trivial
        | some next =>
          simp only [listed,at']
          split
          next => exact Framed.pure fun _ _ _ => trivial
          next =>
            refine Framed.bind (does_before does_savePage fun m heard => records_heard listed (heard.2 page rfl)) fun result => ?_
            cases result with
            | error e => exact Framed.pure fun _ _ _ => trivial
            | ok answer =>
              refine Framed.bind (does_before does_ack fun m saved => saved answer rfl) fun reply => ?_
              cases reply with
              | error e => exact Framed.pure fun _ _ _ => trivial
              | ok reply =>
                show Does site directory provider asked p _ (if reply.field "ok" ≠ .bool true then _ else _) _
                split
                next => exact Framed.pure fun _ _ _ => trivial
                next =>
                  split
                  next => exact Framed.pure fun _ _ _ => trivial
                  next => exact ih next

theorem does_feed {owner : Owner} {turns : Nat} :
    Does site directory provider asked p (fun _ => True) (captureFeed owner turns) fun _ _ => True := by
  refine Framed.bind (does_look (e := .feedCursor owner) (lasts_pure True).stable
    (fun _ _ _ _ taken => (reads_same taken).1) fun _ _ _ _ holds _ => holds) fun read => ?_
  cases read with
  | error e => exact Framed.pure fun _ _ _ => trivial
  | ok cursor => exact does_pages turns cursor

theorem does_fromFeed {row : ConsentRequest F} {owner : Owner} {turns : Nat} :
    Does site directory provider asked p (fun _ => True) (fromFeed row owner turns)
      fun decision m => DecisionOk m.said row.identity decision := by
  refine Framed.bind does_feed fun capture => ?_
  split
  next => exact does_leave
  next =>
    refine Framed.bind (does_request (lasts_pure True).stable row.identity) fun read => ?_
    cases read with
    | none => exact Framed.fail fun _ _ _ => trivial
    | some saved =>
      have stable : Stable p fun m : Machine F π => RowOk m.said saved ∧ saved.identity = row.identity :=
        fun m m' holds relied => ⟨holds.1.mono relied.grow.said,holds.2⟩
      refine Framed.bind (does_before (does_clock stable) fun m holds => holds.2 saved rfl) fun now => ?_
      split
      next decision decided =>
        refine Framed.pure fun _ m holds => ?_
        rw [← holds.2]
        exact recordedDecision_ok holds.1 decided
      next => exact does_before does_leave fun _ _ => trivial

/-- The call that opened a request holds its card. -/
def Holds (p : π) (row : ConsentRequest F) (m : Machine F π) : Prop :=
  m.cards.get? row.identity.key = some (.held p row.argsDigest)

theorem does_giveUp {row : ConsentRequest F} :
    Does site directory provider asked p (Holds p row) (giveUp row) fun decision m => DecisionOk m.said row.identity decision := by
  refine Framed.bind (Q := fun _ _ _ => True) ?_ fun _ => Framed.pure fun _ _ _ => trivial
  refine Framed.bind (Q := fun _ _ _ => True) ?_ fun _ => does_lift fun _ _ _ _ => trivial
  refine does_tx_after ?_ ?_ ?_ (fun _ _ _ _ _ _ => trivial) fun _ _ => trivial
  · exact fun m m' held relied => relied.held _ _ held
  · exact fun m _ => ⟨trivial,(by intro commit writes; cases writes),fun _ => trivial⟩
  · intro m held identity deletes
    cases deletes
    exact ⟨_,held⟩

omit [DecidableEq F] in
theorem holds_stable (row : ConsentRequest F) : Stable p (Holds (F := F) p row) :=
  fun _ _ held relied => relied.held _ _ held

theorem does_setElicitation {identity : RequestIdentity} {id : String} :
    Does site directory provider asked p (fun _ => True) (sql (.setElicitation identity id)) fun _ _ => True :=
  does_sql (lasts_pure True) (fun m _ => ⟨trivial,(by intro commit writes; cases writes),fun _ => trivial⟩) rfl

/-- The request is sent on under the right to show its card; only a refusal keeps that right. -/
theorem does_send {row : ConsentRequest F} {card : Json F} :
    Does site directory provider asked p (Holds p row) (perform (.request (.forRequest row) card))
      fun reply m => ∀ code, reply = .error (.refused code) → code ≠ "cancelled" → Holds p row m := by
  refine does_effect (e := .request (.forRequest row) card) (holds_stable row) ?_
  intro m choice answer m' inv held taken
  replace taken : hear (if refusedCard choice then m else showTo m (.forRequest row)) choice = some (answer,m') := taken
  by_cases refused : refusedCard choice = true
  · rw [if_pos refused] at taken
    obtain ⟨inv',grow,relied,cards,_⟩ := hear_inv inv taken
    refine ⟨inv',grow,fun q _ => relied q,fun _ _ _ => ?_⟩
    show m'.cards.get? _ = _
    rw [cards]
    exact held
  · rw [if_neg refused] at taken
    have own : m.cards.get? (Binding.forRequest row).identity.key = some (.held p (Binding.forRequest row).argsDigest) := held
    obtain ⟨shown,grow,relied⟩ := showTo_inv inv own
    obtain ⟨inv',grow',relied',_⟩ := hear_inv shown taken
    refine ⟨inv',grow.trans grow',fun q other => (relied q other).trans (relied' q),?_⟩
    rintro code rfl other
    refine absurd ?_ refused
    unfold hear at taken
    split at taken
    next => split at taken <;> cases taken
    next e =>
      cases taken
      simpa [refusedCard] using other
    next => cases taken

theorem does_showCard {row : ConsentRequest F} {card : Json F} :
    Does site directory provider asked p (Holds p row) (showCard row card) fun decision m => DecisionOk m.said row.identity decision := by
  refine Framed.bind does_send fun reply => ?_
  cases reply with
  | ok reply =>
    cases named : (reply.field "elicitation_id").asStr.filter (· != "") with
    | none =>
      simp only [named]
      exact does_before does_leave fun _ _ => trivial
    | some id =>
      simp only [named]
      exact Framed.bind (does_before does_setElicitation fun _ _ => trivial) fun _ =>
        does_await
  | error e =>
    cases e with
    | refused code =>
      show Does site directory provider asked p _ (if code ≠ "cancelled" then giveUp row else leaveUnresolved row) _
      split
      next other => exact does_before does_giveUp fun m kept => kept code rfl other
      next => exact does_before does_leave fun _ _ => trivial
    | _ => exact does_before does_leave fun _ _ => trivial

theorem does_resolve {owner : Owner} {turns : Nat} {row : ConsentRequest F} {card : Json F} {inserted : Bool} :
    Does site directory provider asked p (fun m => RowOk m.said row ∧ (inserted = true → Holds p row m))
      (resolve owner turns row card inserted) fun decision m => DecisionOk m.said row.identity decision := by
  have stable : Stable p fun m : Machine F π => RowOk m.said row ∧ (inserted = true → Holds p row m) :=
    fun m m' holds relied => ⟨holds.1.mono relied.grow.said,fun new => holds_stable row m m' (holds.2 new) relied⟩
  unfold resolve
  split
  next =>
    split
    next => exact Framed.pure fun _ _ _ => trivial
    next => exact Framed.fail fun _ _ _ => trivial
  next =>
    split
    next => exact Framed.pure fun _ _ _ => trivial
    next =>
      refine Framed.bind (does_clock stable) fun now => ?_
      split
      next decision decided => exact Framed.pure fun _ m holds => recordedDecision_ok holds.1 decided
      next =>
        refine Framed.bind (does_look (e := .connect) stable ?_ fun _ _ _ _ holds _ => holds) fun connected => ?_
        · intro m choice answer m' taken
          cases choice with
          | flag value => exact (congrArg Prod.snd (Option.some.inj taken)).symm
          | _ => cases taken
        · cases inserted with
          | true =>
            cases connected with
            | true => exact does_before does_showCard fun m holds => holds.2 rfl
            | false => exact does_before does_giveUp fun m holds => holds.2 rfl
          | false =>
            cases connected with
            | false => exact does_before does_leave fun _ _ => trivial
            | true =>
              cases id : row.elicitationId with
              | none =>
                simp only [resolveOnRoute,id]
                exact does_before does_fromFeed fun _ _ => trivial
              | some id =>
                simp only [resolveOnRoute,id]
                exact does_before does_resume fun _ _ => trivial

/-- A fresh request carries no answer yet. -/
theorem does_obtainLeased {owner : Owner} {turns : Nat} {row : ConsentRequest F} {card : Json F}
    {plan : Option (ConsentWrite F)} (fresh : row.settlement = none) :
    Does site directory provider asked p (fun _ => True) (obtainLeased owner turns row card plan)
      fun decision m => DecisionOk m.said row.identity decision := by
  have brought : ∀ m : Machine F π, Brought provider m.said (.openRequest row plan) := fun m =>
    ⟨(by intro answer told; cases fresh.symm.trans told),(by intro commit writes; cases writes),fun _ => trivial⟩
  refine Framed.bind (Q := fun answer _ m => ∀ saved inserted, answer = .opened saved inserted →
      saved.identity = row.identity ∧ RowOk m.said saved ∧ (inserted = true → Holds p saved m)) ?_ fun answer => ?_
  · refine Framed.bind (Q := fun result _ m => ∀ saved inserted, result = .ok (.opened saved inserted) →
      saved.identity = row.identity ∧ RowOk m.said saved ∧ (inserted = true → Holds p saved m)) ?_ fun result => ?_
    · refine does_tx_after (lasts_pure True).stable (fun m _ => brought m) (by intro m _ identity other; cases other) ?_ ?_
      · rintro m answer s' inv _ ok saved inserted same
        cases same
        obtain ⟨identity,digest,⟨held,here,settled,same,rfl⟩ | ⟨absent,rfl,rfl,_⟩⟩ := opened_ok ok
        · refine ⟨identity,?_,by intro other; cases other⟩
          intro answer told
          rw [identity,digest,← same]
          exact inv.settled row.identity held answer here (settled.symm.trans told)
        · refine ⟨rfl,?_,fun _ => ?_⟩
          · intro answer told
            cases fresh.symm.trans told
          · show (Table.insert _ _ _).get? _ = _
            rw [Table.get?_insert,if_pos rfl]
      · intro e m saved inserted same
        cases same
    · exact does_lift fun answer m same holds saved inserted is => holds saved inserted (by rw [same,is])
  · cases answer with
    | opened saved inserted =>
      refine Framed.known (p := saved.identity = row.identity) (fun _ m holds => (holds saved inserted rfl).1) fun same => ?_
      rw [← same]
      exact does_before does_resolve fun m holds => (holds saved inserted rfl).2
    | _ => exact Framed.fail fun _ _ _ => trivial

end Functions

end Entorhinal.Consent
