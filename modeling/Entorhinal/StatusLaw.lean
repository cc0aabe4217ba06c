import Entorhinal.JcsLaw
import Entorhinal.Traverse
import Entorhinal.Status

/-! What is held of a package version never goes back, whatever feeds are applied: not its
sequence and time, not its final states, not its signer. -/
namespace Entorhinal.Package

open Json (Floats)

section
variable {F : Type} [Floats F]

theorem parseSigned_value {text : String} {value : Json F} {keys : List String}
    (parsed : Json.parseSigned text = some (value,keys)) : value.Sorted ∧ value.nesting < Json.depthLimit := by
  unfold Json.parseSigned at parsed
  split at parsed
  next =>
    obtain ⟨tree,read,same⟩ := Option.map_eq_some_iff.mp parsed
    obtain ⟨rfl,_⟩ := Prod.mk.inj same
    have nesting := Json.parse_nesting (Option.filter_eq_some_iff.mp read).1
    exact ⟨Json.ordered_sorted tree,lt_of_le_of_lt (Json.nesting_ordered tree) nesting⟩
  next => cases parsed

theorem signedFields_iff {fields : List (String × Json F)} :
    Json.signedFields fields = true ↔ ∀ f ∈ fields, f.2.signedNumbers = true := by
  induction fields with
  | nil => simp [Json.signedFields]
  | cons f fields ih =>
    obtain ⟨key,value⟩ := f
    simp [Json.signedFields,ih]

/-- What the shape of a document says: it is read as an object of its schema with exact integers for numbers. -/
theorem shape_object {text domain : String} {fields optional : List String} {code : RefusalCode} {s : Json F}
    (shaped : shape text domain fields optional code = .ok s) : ∃ members keys, s = .object members ∧
      Json.parseSigned text = some (s,keys) ∧ (s.field "schema").asStr = some domain ∧ s.signedNumbers = true := by
  unfold shape at shaped
  split at shaped
  next members keys parsed =>
    split at shaped
    next => cases shaped
    next =>
      split at shaped
      next => cases shaped
      next =>
        split_ifs at shaped with schema
        split at shaped
        next => cases shaped
        next signed =>
          obtain rfl := Except.ok.inj shaped
          refine ⟨members,keys,rfl,parsed,not_not.mp schema,signedFields_iff.mpr fun f member => ?_⟩
          have safe := List.find?_eq_none.mp signed f member
          simpa using safe
  next => cases shaped

/-- A document of the right shape is an ordered object with exact integers for numbers. -/
theorem shape_ok {text domain : String} {fields optional : List String} {code : RefusalCode} {s : Json F}
    (shaped : shape text domain fields optional code = .ok s) :
    s.Sorted ∧ s.nesting < Json.depthLimit ∧ s.signedNumbers = true := by
  obtain ⟨_,_,_,parsed,_,signed⟩ := shape_object shaped
  obtain ⟨sorted,shallow⟩ := parseSigned_value parsed
  exact ⟨sorted,shallow,signed⟩

omit [Floats F] in
theorem sortKeys_keys {α : Type} (fields : List (String × α)) :
    ((Json.sortKeys fields).map Prod.fst).Perm (fields.map Prod.fst) :=
  (Json.sortKeys_perm fields).map Prod.fst

/-- The fields of a canonical tree are read as those of the value. -/
theorem structGet_canonical {value : Json F} (sorted : value.Sorted) (names : List String) :
    value.canonical.structGet names =
      (value.structGet names).map fun get key => (get key).map Json.canonical := by
  cases value with
  | object fields =>
    have keys : (Json.canonicalFields fields).map Prod.fst = fields.map Prod.fst := by
      rw [Json.canonicalFields_map,List.map_map]
      rfl
    have perm : ((Json.sortKeys (Json.canonicalFields fields)).map Prod.fst).Perm (fields.map Prod.fst) :=
      keys ▸ sortKeys_keys _
    have nodup : (fields.map Prod.fst).Nodup :=
      List.pairwise_map.mpr (sorted.1.imp fun less same => less.ne same)
    have conditions : (((Json.sortKeys (Json.canonicalFields fields)).map Prod.fst).all (names.contains ·) ∧
        ((Json.sortKeys (Json.canonicalFields fields)).map Prod.fst).Nodup) ↔
          ((fields.map Prod.fst).all (names.contains ·) ∧ (fields.map Prod.fst).Nodup) := by
      rw [perm.nodup_iff,perm.all_eq]
    rw [Json.canonical,Json.structGet,Json.structGet]
    simp only [conditions]
    split
    next =>
      congr 1
      funext key
      exact @Json.get?_canonical F _ (.object fields) sorted key
    next => rfl
  | array items =>
    have items_map : ∀ items : List (Json F), Json.canonicalItems items = items.map Json.canonical := by
      intro items
      induction items with
      | nil => rfl
      | cons item items ih => rw [Json.canonicalItems,ih,List.map_cons]
    rw [Json.canonical,Json.structGet,Json.structGet,items_map,List.length_map]
    split
    next =>
      have zipped : names.zip (items.map Json.canonical) =
          (names.zip items).map fun f => (f.1,f.2.canonical) := by
        rw [List.zip_map_right]
        rfl
      congr 1
      funext key
      rw [zipped,← Json.canonicalFields_map,Json.lookup_canonicalFields]
    next => rfl
  | _ => rfl

omit [Floats F] in
theorem variant_many {α : Type} {named : String → Option α} {fields : List (String × Json F)}
    (many : 2 ≤ fields.length) : (Json.object fields).variant named = none := by
  unfold Json.variant
  split
  next same => cases same
  next same =>
    rw [Json.object.inj same] at many
    exact absurd (Nat.le_of_succ_le_succ many) (Nat.not_succ_le_zero 0)
  next => rfl

theorem variant_canonical {α : Type} (named : String → Option α) (value : Json F) :
    value.canonical.variant named = value.variant named := by
  cases value with
  | object fields =>
    match fields with
    | [] => rfl
    | [(name,inner)] => cases inner <;> rfl
    | f :: g :: rest =>
      have length : (Json.sortKeys (Json.canonicalFields (f :: g :: rest))).length = rest.length + 2 := by
        rw [(Json.sortKeys_perm _).length_eq,Json.canonicalFields_map,List.length_map]
        rfl
      rw [Json.canonical,variant_many (by omega),variant_many (show 2 ≤ (f :: g :: rest).length from Nat.le_add_left 2 rest.length)]
  | _ => rfl

theorem positive_canonical {value : Json F} : positive value.canonical = positive value := by
  cases value with
  | number n =>
    show positive (.number (Json.canonicalNumber n)) = _
    rw [positive,positive]
    cases safe : n.safe with
    | some k => rw [Json.canonicalNumber_safe safe]
    | none =>
      have same : Json.canonicalNumber n = n := by
        rw [Json.canonicalNumber,safe]
      rw [same,safe]
  | _ => rfl

theorem optionalStr_canonical (value : Json F) : optionalStr value.canonical = optionalStr value := by
  cases value <;> rfl

theorem getD_canonical (value : Option (Json F)) :
    (value.map Json.canonical).getD .null = (value.getD .null).canonical := by
  cases value <;> rfl

theorem bind_canonical {α : Type} {read : Json F → Option α} (blind : ∀ v, read v.canonical = read v)
    (value : Option (Json F)) : (value.map Json.canonical).bind read = value.bind read := by
  cases value with
  | none => rfl
  | some value => exact blind value

theorem readStatus_canonical {s : Json F} (sorted : s.Sorted) (sequence : Nat) :
    readStatus s.canonical sequence = readStatus s sequence := by
  unfold readStatus
  rw [structGet_canonical sorted]
  cases s.structGet statusFields with
  | none => rfl
  | some get =>
    have str : (fun key => ((get key).map Json.canonical).bind Json.asStr) = fun key => (get key).bind Json.asStr :=
      funext fun key => bind_canonical Json.asStr_canonical (get key)
    simp only [Option.map_some,Option.bind_some,getD_canonical,optionalStr_canonical,str,
      bind_canonical (variant_canonical State.ofText)]

/-- A status text gives its record and its canonical text through one document. -/
theorem parseStatus_ok {text : String} {record : StatusRecord} {canonical : String}
    (parsed : parseStatus F text = .ok (record,canonical)) :
    ∃ s : Json F, s.Sorted ∧ s.nesting < Json.depthLimit ∧ s.signedNumbers = true ∧ canonical = s.jcsText ∧
      ∃ sequence, positive (s.field "sequence") = some sequence ∧ readStatus s sequence = some record := by
  obtain ⟨s,shaped,parsed⟩ := bind_ok parsed
  obtain ⟨sorted,shallow,signed⟩ := shape_ok shaped
  split at parsed
  next => cases parsed
  next =>
    split at parsed
    next => cases parsed
    next sequence number =>
      obtain ⟨_,_,parsed⟩ := bind_ok parsed
      split at parsed
      next => cases parsed
      next found read =>
        obtain ⟨rfl,rfl⟩ := Prod.mk.inj (Except.ok.inj parsed)
        exact ⟨s,sorted,shallow,signed,rfl,sequence,number,read⟩

/-- The canonical text of a status determines its record. -/
theorem record_of_canonical {text text' : String} {record record' : StatusRecord} {canonical : String}
    (parsed : parseStatus F text = .ok (record,canonical))
    (parsed' : parseStatus F text' = .ok (record',canonical)) : record = record' := by
  obtain ⟨s,sorted,shallow,signed,written,sequence,number,read⟩ := parseStatus_ok parsed
  obtain ⟨s',sorted',shallow',signed',written',sequence',number',read'⟩ := parseStatus_ok parsed'
  have same : s.canonical = s'.canonical := by
    apply Json.jcs_inj signed signed' shallow shallow'
    exact String.ofList_injective (written.symm.trans written')
  have sequences : sequence = sequence' := by
    rw [← positive_canonical,← Json.field_canonical sorted,same,Json.field_canonical sorted',positive_canonical,
      number'] at number
    exact (Option.some.inj number).symm
  rw [← readStatus_canonical sorted,same,readStatus_canonical sorted',sequences,read'] at read
  exact (Option.some.inj read).symm

theorem HeldStatus.record_eq {a b : HeldStatus F} (same : a.canonical = b.canonical) : a.record = b.record := by
  obtain ⟨text,parsed⟩ := a.parsed
  obtain ⟨text',parsed'⟩ := b.parsed
  exact record_of_canonical (same ▸ parsed) parsed'

/-- One status may stand in the place of another: what the client promises of them. -/
structure HeldStatus.Follows (prior next : HeldStatus F) : Prop where
  sequence : prior.record.sequence ≤ next.record.sequence
  changed_at : prior.record.changedAt ≤ next.record.changedAt
  same_bytes : next.record.sequence = prior.record.sequence → next.canonical = prior.canonical
  state : prior.record.state.permits next.record.state = true
  signer : prior.bundleAttested = false → next.bundleAttested = false ∧ prior.signerIndex ≤ next.signerIndex

omit [Floats F] in
theorem State.permits_self (state : State) : state.permits state = true := by
  cases state <;> rfl

omit [Floats F] in
theorem State.permits_trans {a b c : State} (first : a.permits b = true) (second : b.permits c = true) :
    a.permits c = true := by
  revert first second
  cases a <;> cases b <;> cases c <;> decide

theorem HeldStatus.Follows.refl (held : HeldStatus F) : held.Follows held :=
  ⟨Nat.le_refl _,le_refl _,fun _ => rfl,State.permits_self _,fun own => ⟨own,Nat.le_refl _⟩⟩

theorem HeldStatus.Follows.trans {a b c : HeldStatus F} (first : a.Follows b) (second : b.Follows c) :
    a.Follows c where
  sequence := Nat.le_trans first.sequence second.sequence
  changed_at := le_trans first.changed_at second.changed_at
  same_bytes equal := by
    have up := first.sequence
    have higher := second.sequence
    rw [second.same_bytes (by omega),first.same_bytes (by omega)]
  state := State.permits_trans first.state second.state
  signer own := by
    obtain ⟨middle,up⟩ := first.signer own
    obtain ⟨last,higher⟩ := second.signer middle
    exact ⟨last,Nat.le_trans up higher⟩

/-- A status with the bytes of the held one follows it, if its signer does. -/
theorem HeldStatus.Follows.of_same {prior next : HeldStatus F} (same : next.canonical = prior.canonical)
    (signer : prior.bundleAttested = false → next.bundleAttested = false ∧ prior.signerIndex ≤ next.signerIndex) :
    prior.Follows next where
  sequence := by rw [HeldStatus.record_eq same]
  changed_at := by rw [HeldStatus.record_eq same]
  same_bytes _ := same
  state := by rw [HeldStatus.record_eq same]; exact State.permits_self _
  signer := signer

/-- What the comparison with a held status lets through. -/
theorem compareStatus_ok {prior next : HeldStatus F} {result : Apply}
    (compared : compareStatus (some prior) next = .ok result) :
    (result = .duplicate ∧ next.canonical = prior.canonical) ∨ (result = .applied ∧ prior.Follows next) := by
  simp only [compareStatus] at compared
  split at compared
  next => cases compared
  next not_lower =>
    split at compared
    next =>
      split at compared
      next same => exact .inl ⟨(Except.ok.inj compared).symm,same⟩
      next => cases compared
    next other =>
      split at compared
      next => cases compared
      next not_earlier =>
        split at compared
        next => cases compared
        next registry =>
          split at compared
          next => cases compared
          next epoch =>
            split at compared
            next => cases compared
            next permitted =>
              refine .inr ⟨(Except.ok.inj compared).symm,?_⟩
              exact {
                sequence := by omega
                changed_at := not_lt.mp not_earlier
                same_bytes := fun same => absurd same other
                state := not_not.mp permitted
                signer := fun own => by
                  rw [own] at epoch
                  exact ⟨by simpa using registry,by simpa using epoch⟩ }

/-- A status that is applied over a held one follows it. -/
theorem applyStatus_follows {scheme : Scheme} {prior : HeldStatus F} {text sig : String}
    {chain : List StatusKey} {pin : Pin} {applied : AppliedStatus F}
    (done : applyStatus scheme (some prior) text sig chain pin = .ok applied) : prior.Follows applied.held := by
  unfold applyStatus at done
  split at done
  next => cases done
  next record canonical parsed =>
    split at done
    next => cases done
    next index _ =>
      dsimp only at done
      split at done
      next => cases done
      next compared =>
        obtain rfl := Except.ok.inj done
        rcases compareStatus_ok compared with ⟨other,_⟩ | ⟨_,follows⟩
        · cases other
        · exact follows
      next compared =>
        obtain rfl := Except.ok.inj done
        rcases compareStatus_ok compared with ⟨_,same⟩ | ⟨other,_⟩
        · -- a duplicate only takes the place of what a bundle attested
          dsimp only
          split
          next attested =>
            exact .of_same same fun own => by
              rw [attested] at own
              cases own
          next => exact .refl prior
        · cases other

/-- Every status held before is held on, itself or one that follows it. -/
def Kept (before after : Table String (HeldStatus F)) : Prop :=
  ∀ key prior, before.get? key = some prior → ∃ next, after.get? key = some next ∧ prior.Follows next

theorem Kept.refl (held : Table String (HeldStatus F)) : Kept held held :=
  fun _ prior found => ⟨prior,found,.refl prior⟩

theorem Kept.trans {a b c : Table String (HeldStatus F)} (first : Kept a b) (second : Kept b c) : Kept a c := by
  intro key prior found
  obtain ⟨middle,there,follows⟩ := first key prior found
  obtain ⟨last,kept,on⟩ := second key middle there
  exact ⟨last,kept,follows.trans on⟩

theorem feedRecord_kept (scheme : Scheme) (chain : List StatusKey) (pins : Table String Pin)
    (held : Table String (HeldStatus F)) (r : FeedRecord) : Kept held (feedRecord scheme chain pins held r).1 := by
  unfold feedRecord
  split
  next => exact .refl held
  next record _ _ =>
    dsimp only
    split
    next => exact .refl held
    next pin _ =>
      split
      next => exact .refl held
      next applied done =>
        intro key prior found
        by_cases same : key = record.name ++ "@" ++ record.version
        · subst same
          rw [found] at done
          exact ⟨applied.held,by rw [Table.get?_insert,if_pos rfl],applyStatus_follows done⟩
        · exact ⟨prior,by rw [Table.get?_insert,if_neg same,found],.refl prior⟩

theorem feedRecords_kept (scheme : Scheme) (chain : List StatusKey) (pins : Table String Pin)
    (held : Table String (HeldStatus F)) (records : List FeedRecord) :
    Kept held (feedRecords scheme chain pins held records).1 := by
  induction records generalizing held with
  | nil => exact .refl held
  | cons r records ih => exact (feedRecord_kept scheme chain pins held r).trans (ih _)

/-- A later place in the feed, or none. -/
def SeqKept (before after : Option Nat) : Prop := ∀ n, before = some n → ∃ m, after = some m ∧ n ≤ m

structure FeedCall where
  mode : FeedMode
  reply : FeedReply
  chain : List StatusKey
  pins : Table String Pin

def runFeeds (scheme : Scheme) (state : FeedState F) (calls : List FeedCall) : FeedState F :=
  calls.foldl (fun state call => (applyFeed scheme state call.mode call.reply call.chain call.pins).nextState) state

/-- One call keeps what is held and the place in the feed. -/
theorem applyFeed_kept (scheme : Scheme) (state : FeedState F) (call : FeedCall) :
    Kept state.held (applyFeed scheme state call.mode call.reply call.chain call.pins).nextState.held ∧
      SeqKept state.feedSeq (applyFeed scheme state call.mode call.reply call.chain call.pins).nextState.feedSeq := by
  unfold applyFeed
  split
  next => exact ⟨.refl _,fun n found => ⟨n,found,Nat.le_refl n⟩⟩
  next seq records _ =>
    split
    next => exact ⟨.refl _,fun n found => ⟨n,found,Nat.le_refl n⟩⟩
    next forward =>
      refine ⟨feedRecords_kept scheme call.chain call.pins state.held records,?_⟩
      intro n found
      rw [found] at forward
      dsimp only
      split
      next => exact ⟨seq,rfl,by simpa using forward⟩
      next => exact ⟨n,found,Nat.le_refl n⟩

theorem runFeeds_kept (scheme : Scheme) (state : FeedState F) (calls : List FeedCall) :
    Kept state.held (runFeeds scheme state calls).held ∧
      SeqKept state.feedSeq (runFeeds scheme state calls).feedSeq := by
  induction calls generalizing state with
  | nil => exact ⟨.refl _,fun n found => ⟨n,found,Nat.le_refl n⟩⟩
  | cons call calls ih =>
    obtain ⟨held,seq⟩ := applyFeed_kept scheme state call
    obtain ⟨rest,later⟩ := ih (applyFeed scheme state call.mode call.reply call.chain call.pins).nextState
    refine ⟨held.trans rest,fun n found => ?_⟩
    obtain ⟨m,there,up⟩ := seq n found
    obtain ⟨last,kept,on⟩ := later m there
    exact ⟨last,kept,Nat.le_trans up on⟩

/-- Over any run of feeds, between any two of its states: what is held of a version is
followed by what is held later, the place in the feed goes forward and moves only on a reply
whose records all applied or were held, and a reply refused as a whole changes nothing. -/
theorem statuses_never_regress (scheme : Scheme) (state : FeedState F) (earlier later : List FeedCall)
    (call : FeedCall) :
    (∀ key prior, (runFeeds scheme state earlier).held.get? key = some prior →
      ∃ next, (runFeeds scheme state (earlier ++ later)).held.get? key = some next ∧
        prior.record.sequence ≤ next.record.sequence ∧
        prior.record.changedAt ≤ next.record.changedAt ∧
        (next.record.sequence = prior.record.sequence → next.canonical = prior.canonical) ∧
        (prior.record.state = .tombstoned → next.record.state = .tombstoned) ∧
        (prior.record.state = .revoked → next.record.state = .revoked ∨ next.record.state = .tombstoned) ∧
        (prior.bundleAttested = false → next.bundleAttested = false ∧ prior.signerIndex ≤ next.signerIndex)) ∧
    (∀ n, (runFeeds scheme state earlier).feedSeq = some n →
      ∃ m, (runFeeds scheme state (earlier ++ later)).feedSeq = some m ∧ n ≤ m) ∧
    let before := runFeeds scheme state earlier
    let outcome := applyFeed scheme before call.mode call.reply call.chain call.pins
    (outcome.nextState.feedSeq ≠ before.feedSeq → outcome.records.all (fun r => isAccepted r.2) = true ∧
      ∃ seq records, call.reply = .records seq records ∧ outcome.nextState.feedSeq = some seq) ∧
    (outcome.refusal.isSome → outcome.records = [] → outcome.nextState = before) := by
  have split : runFeeds scheme state (earlier ++ later) = runFeeds scheme (runFeeds scheme state earlier) later :=
    List.foldl_append
  obtain ⟨held,seq⟩ := runFeeds_kept scheme (runFeeds scheme state earlier) later
  refine ⟨?_,?_,?_,?_⟩
  · intro key prior found
    obtain ⟨next,kept,follows⟩ := held key prior found
    refine ⟨next,by rw [split,kept],follows.sequence,follows.changed_at,follows.same_bytes,?_,?_,follows.signer⟩
    · intro final
      have permitted := follows.state
      rw [final] at permitted
      exact eq_of_beq permitted
    · intro revoked
      have permitted := follows.state
      rw [revoked,State.permits,Bool.or_eq_true,beq_iff_eq,beq_iff_eq] at permitted
      exact permitted
  · rw [split]
    exact seq
  · generalize runFeeds scheme state earlier = before
    intro moved
    unfold applyFeed at moved ⊢
    split at moved
    next => exact absurd rfl moved
    next seq records replied =>
      split at moved
      next => exact absurd rfl moved
      next forward =>
        dsimp only at moved
        rw [replied]
        dsimp only
        rw [if_neg forward]
        split at moved
        next all => exact ⟨all,seq,records,rfl,if_pos all⟩
        next => exact absurd rfl moved
  · generalize runFeeds scheme state earlier = before
    intro refused none_taken
    unfold applyFeed at refused none_taken ⊢
    split
    next => rfl
    next seq records replied =>
      rw [replied] at refused none_taken
      dsimp only at refused none_taken
      split
      next => rfl
      next forward =>
        rw [if_neg forward] at refused none_taken
        dsimp only at refused none_taken
        rw [none_taken] at refused
        cases refused

end

end Entorhinal.Package
