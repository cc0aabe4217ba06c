import Mathlib.Data.List.Forall2
import Mathlib.Data.List.Induction
import Entorhinal.StatusLaw

/-! The registry's chain of keys. Each key after the first was signed in by the one before it, and at
every time the windows that statuses are checked against admit one key, the chain's active one. -/
namespace Entorhinal.KeyChain

open Json (Floats)
open Package

section Model

structure RegistryKey where
  keyId : String
  publicKey : String
  statement : Option String
deriving DecidableEq, Repr

structure RegistryChain where
  registry : String
  keys : List RegistryKey
deriving DecidableEq, Repr

structure RegistryKeyStatement where
  schema : String
  registry : String
  keyId : String
  publicKey : String
  validFrom : String
deriving DecidableEq, Repr

inductive KeyApply
  | accepted
  | duplicate
deriving DecidableEq, Repr

def registryKeyFields : List String := ["schema","registry","key_id","public_key","valid_from"]

variable {F : Type}

def readStatement (s : Json F) : Option RegistryKeyStatement :=
  (s.structGet registryKeyFields).bind fun get => do
    let str (key : String) : Option String := (get key).bind Json.asStr
    return {
      schema := ← str "schema"
      registry := ← str "registry"
      keyId := ← str "key_id"
      publicKey := ← str "public_key"
      validFrom := ← str "valid_from" }

variable (F) [Floats F]

def RegistryKey.activeAt (k : RegistryKey) (at_ : String) : Bool :=
  k.statement.all fun s => ((Json.parseStrict (F := F) s).bind fun v => (v.field "valid_from").asStr).any fun x =>
    decide (x ≤ at_)

/-- The last key that is valid from the time or before. -/
def RegistryChain.activeEpoch (chain : RegistryChain) (at_ : String) : Option Nat :=
  (chain.keys.zipIdx.reverse.find? fun k => k.1.activeAt F at_).map Prod.snd

/-- The document of a statement, with the checks of its form, for the registry of the chain. -/
def checkRegistryKey (registry text : String) : Except Refusal (Json F) :=
  (shape text "ck-registry-key/v1" registryKeyFields [] .statementInvalid).bind fun s =>
    if (s.field "registry").asStr.all String.isEmpty then .error (.at .statementInvalid "registry")
    else if (s.field "key_id").asStr.all String.isEmpty then .error (.at .statementInvalid "key_id")
    else if ¬ someStr (s.field "public_key") (isHex · 64) then .error (.at .statementInvalid "public_key")
    else if ¬ someStr (s.field "valid_from") time then .error (.at .statementInvalid "valid_from")
    else if (s.field "registry").asStr ≠ some registry then .error (.at .recordMismatch "registry")
    else .ok s

variable {F}

/-- What a checked statement adds to the keys; nothing if it is one of them. -/
def linkOf (scheme : Scheme) (keys : List RegistryKey) (s : Json F) (sig : String) : Except Refusal (Option RegistryKey) :=
  let bytes := s.jcsText
  match keys.find? fun k => (s.field "key_id").asStr == some k.keyId with
  | some k =>
    if k.statement = some bytes ∨ (k.statement = none ∧ (s.field "public_key").asStr = some k.publicKey) then .ok none
    else .error (.at .keyConflict "key_id")
  | none =>
    if keys.any fun k => (s.field "public_key").asStr == some k.publicKey then .error (.at .keyConflict "public_key")
    else match keys.getLast? with
      | none => .error (.new .keyUnknown)
      | some k =>
        if ¬ scheme.verifySignature k.publicKey "ck-registry-key/v1" bytes sig then .error (.new .signatureInvalid)
        else match readStatement s with
          | none => .error (.at .statementInvalid "json")
          | some statement => .ok (some ⟨statement.keyId,statement.publicKey,some bytes⟩)

variable (F)

/-- The result, and the chain after it. -/
def applyRegistryKey (scheme : Scheme) (pin : RegistryChain) (text sig : String) : Except Refusal KeyApply × RegistryChain :=
  match (checkRegistryKey F pin.registry text).bind fun s => linkOf scheme pin.keys s sig with
  | .error e => (.error e,pin)
  | .ok none => (.ok .duplicate,pin)
  | .ok (some link) => (.ok .accepted,{ pin with keys := pin.keys ++ [link] })

/-- The status key kept beside an accepted link, from the statement of its text. -/
def statusKeyOf (text : String) : Option StatusKey :=
  ((Json.parseSigned (F := F) text).bind fun parsed => readStatement parsed.1).map fun statement =>
    ⟨statement.keyId,statement.publicKey,some statement.validFrom⟩

def keep (keys : List StatusKey) (text : String) : Except Refusal KeyApply → List StatusKey
  | .ok .accepted => keys ++ (statusKeyOf F text).toList
  | _ => keys

/-- A chain built from a first key without a statement, and the status keys kept beside it. -/
inductive ChainRun (scheme : Scheme) : RegistryChain → List StatusKey → Prop
  | first (registry keyId publicKey : String) :
      ChainRun scheme ⟨registry,[⟨keyId,publicKey,none⟩]⟩ [⟨keyId,publicKey,none⟩]
  | apply {chain : RegistryChain} {keys : List StatusKey} (run : ChainRun scheme chain keys) (text sig : String) :
      ChainRun scheme (applyRegistryKey F scheme chain text sig).2 (keep F keys text (applyRegistryKey F scheme chain text sig).1)

/-- The window that a status signed by a key is checked against. -/
def WindowAdmits (keys : List StatusKey) (at_ : String) (index : Nat) : Prop :=
  ∃ key, keys[index]? = some key ∧ (∀ start, key.validFrom = some start → start ≤ at_) ∧
    ∀ retirement, ((keys.drop (index + 1)).filterMap (·.validFrom)).min? = some retirement → at_ < retirement

end Model

section Canonical
variable {F : Type} [Floats F]

omit [Floats F] in
theorem distinctFields_iff {fields : List (String × Json F)} :
    Json.distinctFields fields = true ↔ ∀ f ∈ fields, f.2.distinct = true := by
  induction fields with
  | nil => exact ⟨fun _ _ member => absurd member List.not_mem_nil,fun _ => rfl⟩
  | cons f fields ih =>
    obtain ⟨key,value⟩ := f
    rw [Json.distinctFields,Bool.and_eq_true,ih,List.forall_mem_cons]

mutual
theorem canonical_distinct : ∀ {value : Json F}, value.Sorted → value.canonical.distinct = true
  | .null,_ | .bool _,_ | .number _,_ | .string _,_ => rfl
  | .array _,sorted => canonicalItems_distinct sorted
  | .object fields,sorted => by
    have keys : (Json.canonicalFields fields).map Prod.fst = fields.map Prod.fst := by
      rw [Json.canonicalFields_map,List.map_map]
      rfl
    have nodup : (fields.map Prod.fst).Nodup := List.pairwise_map.mpr (sorted.1.imp fun less same => less.ne same)
    have apart : ((Json.sortKeys (Json.canonicalFields fields)).map Prod.fst).Nodup := by
      rw [((Json.sortKeys_perm _).map Prod.fst).nodup_iff,keys]
      exact nodup
    rw [Json.canonical,Json.distinct,decide_eq_true apart,Bool.true_and]
    exact distinctFields_iff.mpr fun f member =>
      distinctFields_iff.mp (canonicalFields_distinct sorted.2) f ((Json.sortKeys_perm _).mem_iff.mp member)

theorem canonicalItems_distinct : ∀ {items : List (Json F)}, Json.SortedItems items →
    Json.distinctItems (Json.canonicalItems items) = true
  | [],_ => rfl
  | _ :: _,sorted => by
    rw [Json.canonicalItems,Json.distinctItems,canonical_distinct sorted.1,canonicalItems_distinct sorted.2]
    rfl

theorem canonicalFields_distinct : ∀ {fields : List (String × Json F)}, Json.SortedFields fields →
    Json.distinctFields (Json.canonicalFields fields) = true
  | [],_ => rfl
  | (_,_) :: _,sorted => by
    rw [Json.canonicalFields,Json.distinctFields,canonical_distinct sorted.1,canonicalFields_distinct sorted.2]
    rfl
end

/-- A text of the canonical form of a signed document has its fields. -/
theorem strict_field {text domain : String} {fields optional : List String} {code : RefusalCode} {s : Json F}
    (shaped : shape text domain fields optional code = .ok s) (key : String) :
    ((Json.parseStrict (F := F) s.jcsText).bind fun v => (v.field key).asStr) = (s.field key).asStr := by
  obtain ⟨sorted,shallow,signed⟩ := shape_ok shaped
  obtain ⟨members,keys,rfl,_⟩ := shape_object shaped
  have apart := canonical_distinct sorted
  have read : Json.parseStrict (F := F) (Json.object members).jcsText = some (Json.object members).canonical.ordered := by
    rw [Json.parseStrict,Json.jcsText,String.toList_ofList,Json.jcs_canonical signed,Json.parseDistinct,
      Json.parse_emit (lt_of_le_of_lt (Json.nesting_canonical _) shallow),Option.filter_some_pos apart]
    rfl
  have nodup : ((Json.sortKeys (Json.canonicalFields members)).map Prod.fst).Nodup := by
    rw [Json.canonical,Json.distinct,Bool.and_eq_true,decide_eq_true_eq] at apart
    exact apart.1
  have found : (Json.object members).canonical.ordered.get? key =
      (((Json.object members).get? key).map Json.canonical).map Json.ordered := by
    rw [← Json.get?_canonical sorted]
    exact Json.get?_ordered nodup
  rw [read,Option.bind_some,Json.field,Json.field,found]
  cases (Json.object members).get? key with
  | none => rfl
  | some value => cases value <;> rfl

end Canonical

section Apply
variable {F : Type} [Floats F] {scheme : Scheme}

omit [Floats F] in
/-- What the statement of a document says, read as its fields. -/
theorem readStatement_fields {members : List (String × Json F)} {statement : RegistryKeyStatement}
    (read : readStatement (.object members) = some statement) :
    ((Json.object members).field "key_id").asStr = some statement.keyId ∧
    ((Json.object members).field "public_key").asStr = some statement.publicKey ∧
    ((Json.object members).field "valid_from").asStr = some statement.validFrom := by
  have field (key text : String) (is : (Table.lookup members key).bind Json.asStr = some text) :
      ((Json.object members).field key).asStr = some text := by
    obtain ⟨value,found,text_⟩ := Option.bind_eq_some_iff.mp is
    show ((Table.lookup members key).getD .null).asStr = some text
    rw [found]
    exact text_
  unfold readStatement at read
  obtain ⟨get,fields,read⟩ := Option.bind_eq_some_iff.mp read
  obtain rfl := Json.structGet_object fields
  simp only [Option.pure_def,Option.bind_eq_bind,Option.bind_eq_some_iff,Option.some.injEq] at read
  obtain ⟨_,_,_,_,keyId,third,publicKey,fourth,validFrom,fifth,rfl⟩ := read
  exact ⟨field _ _ (Option.bind_eq_some_iff.mpr third),field _ _ (Option.bind_eq_some_iff.mpr fourth),
    field _ _ (Option.bind_eq_some_iff.mpr fifth)⟩

/-- A link and the status key beside it. -/
structure Agrees (F : Type) [Floats F] (link : RegistryKey) (key : StatusKey) : Prop where
  keyId : key.keyId = link.keyId
  publicKey : key.publicKey = link.publicKey
  active : ∀ t, link.activeAt F t = key.validFrom.all fun x => decide (x ≤ t)

/-- What an accepted link is. -/
structure Signed (F : Type) [Floats F] (scheme : Scheme) (keys : List RegistryKey) (text sig : String) (link : RegistryKey) : Prop where
  /-- It verified under the key that was last. -/
  verified : ∃ last bytes, keys.getLast? = some last ∧ link.statement = some bytes ∧
    scheme.verifySignature last.publicKey "ck-registry-key/v1" bytes sig = true
  fresh : ∀ k ∈ keys, k.keyId ≠ link.keyId ∧ k.publicKey ≠ link.publicKey
  key : ∃ key start, statusKeyOf F text = some key ∧ key.validFrom = some start ∧ Agrees F link key

theorem checkRegistryKey_ok {registry text : String} {s : Json F} (ok : checkRegistryKey F registry text = .ok s) :
    shape text "ck-registry-key/v1" registryKeyFields [] .statementInvalid = .ok s := by
  unfold checkRegistryKey at ok
  cases shaped : shape (F := F) text "ck-registry-key/v1" registryKeyFields [] .statementInvalid with
  | error e =>
    rw [shaped] at ok
    cases ok
  | ok s' =>
    rw [shaped] at ok
    change (if _ then _ else _ : Except Refusal (Json F)) = _ at ok
    split_ifs at ok
    rw [Except.ok.inj ok]

theorem linkOf_some {keys : List RegistryKey} {registry text sig : String} {s : Json F} {link : RegistryKey}
    (checked : checkRegistryKey F registry text = .ok s) (linked : linkOf scheme keys s sig = .ok (some link)) :
    Signed F scheme keys text sig link := by
  have shaped := checkRegistryKey_ok checked
  obtain ⟨members,source,rfl,parsed,_⟩ := shape_object shaped
  unfold linkOf at linked
  dsimp only at linked
  split at linked
  next =>
    split_ifs at linked
    cases linked
  next unknown =>
    split_ifs at linked with reused
    split at linked
    next => cases linked
    next last isLast =>
      split_ifs at linked with unsigned
      split at linked
      next => cases linked
      next statement read =>
        obtain rfl := Option.some.inj (Except.ok.inj linked)
        obtain ⟨keyId,publicKey,validFrom⟩ := readStatement_fields read
        refine ⟨⟨last,_,isLast,rfl,Bool.not_eq_false _ ▸ unsigned⟩,fun k member => ⟨fun same => ?_,fun same => ?_⟩,
          ⟨statement.keyId,statement.publicKey,some statement.validFrom⟩,statement.validFrom,?_,rfl,rfl,rfl,fun t => ?_⟩
        · refine List.find?_eq_none.mp unknown k member (beq_iff_eq.mpr ?_)
          rw [keyId,same]
        · refine reused (List.any_eq_true.mpr ⟨k,member,beq_iff_eq.mpr ?_⟩)
          rw [publicKey,same]
        · rw [statusKeyOf,parsed,Option.bind_some,read]
          rfl
        · show (Option.any _ _ : Bool) = _
          rw [strict_field shaped,validFrom]
          rfl

theorem apply_cases (scheme : Scheme) (chain : RegistryChain) (text sig : String) :
    ((applyRegistryKey F scheme chain text sig).1 ≠ .ok .accepted ∧ (applyRegistryKey F scheme chain text sig).2 = chain) ∨
    ((applyRegistryKey F scheme chain text sig).1 = .ok .accepted ∧ ∃ link, Signed F scheme chain.keys text sig link ∧
      (applyRegistryKey F scheme chain text sig).2 = { chain with keys := chain.keys ++ [link] }) := by
  unfold applyRegistryKey
  split
  next => exact .inl ⟨nofun,rfl⟩
  next => exact .inl ⟨nofun,rfl⟩
  next link linked =>
    cases checked : checkRegistryKey F chain.registry text with
    | error e =>
      rw [checked] at linked
      cases linked
    | ok s =>
      rw [checked] at linked
      exact .inr ⟨rfl,link,linkOf_some checked linked,rfl⟩

end Apply

section Windows

theorem concat_get {α : Type} (items : List α) (x a : α) (i : Nat) :
    (items ++ [x])[i]? = some a ↔ items[i]? = some a ∨ (i = items.length ∧ x = a) := by
  rcases lt_trichotomy i items.length with less | rfl | more
  · rw [List.getElem?_append_left less]
    exact ⟨.inl,fun either => either.resolve_right fun wrong => less.ne wrong.1⟩
  · rw [List.getElem?_concat_length,List.getElem?_eq_none (le_refl _)]
    exact ⟨fun is => .inr ⟨rfl,Option.some.inj is⟩,fun either => either.elim nofun fun is => congrArg some is.2⟩
  · rw [List.getElem?_eq_none (by rw [List.length_append,List.length_singleton]; omega),List.getElem?_eq_none more.le]
    exact ⟨nofun,fun either => either.elim nofun fun wrong => absurd wrong.1 more.ne'⟩

/-- The search from the end finds the last that holds. -/
theorem last_index {α : Type} (p : α → Bool) (items : List α) (i : Nat) :
    (items.zipIdx.reverse.find? fun k => p k.1).map Prod.snd = some i ↔
      (items.map p)[i]? = some true ∧ ∀ j, i < j → (items.map p)[j]? ≠ some true := by
  induction items using List.reverseRecOn with
  | nil => exact iff_of_false nofun fun wrong => nomatch wrong.1
  | append_singleton items x ih =>
    have shape : (items ++ [x]).zipIdx.reverse = (x,items.length) :: items.zipIdx.reverse := by
      rw [List.zipIdx_append,List.reverse_append]
      simp
    have length : (items.map p).length = items.length := List.length_map _
    rw [shape,List.find?_cons,List.map_append,List.map_singleton]
    simp only [ne_eq,concat_get,length]
    cases holds : p x with
    | true =>
      dsimp only
      rw [Option.map_some,Option.some.injEq]
      constructor
      · rintro rfl
        refine ⟨.inr ⟨rfl,rfl⟩,fun j later => ?_⟩
        rw [List.getElem?_eq_none (by omega)]
        rintro (wrong | ⟨same,_⟩)
        · cases wrong
        · exact later.ne' same
      · rintro ⟨found | ⟨same,_⟩,none_⟩
        · obtain ⟨within,_⟩ := List.getElem?_eq_some_iff.mp found
          exact absurd (.inr ⟨rfl,rfl⟩) (none_ items.length (length ▸ within))
        · exact same.symm
    | false =>
      dsimp only
      simp only [ih,Bool.false_eq_true,and_false,or_false,ne_eq]

theorem min?_above {starts : List String} {t : String} :
    (∀ first, starts.min? = some first → t < first) ↔ ∀ start ∈ starts, t < start := by
  constructor
  · intro below start member
    obtain ⟨first,is⟩ := Option.isSome_iff_exists.mp (List.isSome_min?_of_mem member)
    exact (below first is).trans_le ((List.min?_eq_some_iff.mp is).2 start member)
  · exact fun all first is => all first (List.min?_eq_some_iff.mp is).1

/-- The status keys beside a chain: the first is valid from the start, each other from a time. -/
structure Keyed (keys : List StatusKey) : Prop where
  first : ∃ key, keys[0]? = some key ∧ key.validFrom = none
  later : ∀ i key, 0 < i → keys[i]? = some key → ∃ start, key.validFrom = some start

def startsBy (t : String) (key : StatusKey) : Bool := key.validFrom.all fun x => decide (x ≤ t)

theorem windowAdmits_iff {keys : List StatusKey} (keyed : Keyed keys) (t : String) (i : Nat) :
    WindowAdmits keys t i ↔ (keys.map (startsBy t))[i]? = some true ∧ ∀ j, i < j → (keys.map (startsBy t))[j]? ≠ some true := by
  have started (key : StatusKey) : startsBy t key = true ↔ ∀ start, key.validFrom = some start → start ≤ t := by
    unfold startsBy
    cases key.validFrom with
    | none => exact iff_of_true rfl nofun
    | some start => exact ⟨fun holds x is => Option.some.inj is ▸ of_decide_eq_true holds,fun all => decide_eq_true (all start rfl)⟩
  have after : (∀ retirement, ((keys.drop (i + 1)).filterMap (·.validFrom)).min? = some retirement → t < retirement) ↔
      ∀ j, i < j → (keys.map (startsBy t))[j]? ≠ some true := by
    rw [min?_above]
    constructor
    · intro all j later found
      rw [List.getElem?_map] at found
      obtain ⟨key,is,holds⟩ := Option.map_eq_some_iff.mp found
      obtain ⟨start,from_⟩ := keyed.later j key (Nat.zero_lt_of_lt later) is
      refine absurd ((started key).mp holds start from_) (not_le.mpr (all start (List.mem_filterMap.mpr ⟨key,?_,from_⟩)))
      refine List.mem_of_getElem? (i := j - (i + 1)) ?_
      rw [List.getElem?_drop,Nat.add_sub_cancel' later]
      exact is
    · intro none_ start member
      obtain ⟨key,inside,from_⟩ := List.mem_filterMap.mp member
      obtain ⟨j,is⟩ := List.getElem?_of_mem inside
      rw [List.getElem?_drop] at is
      by_contra early
      refine none_ (i + 1 + j) (by omega) ?_
      rw [List.getElem?_map,is,Option.map_some]
      exact congrArg some ((started key).mpr fun x same => Option.some.inj (from_.symm.trans same) ▸ not_lt.mp early)
  unfold WindowAdmits
  rw [List.getElem?_map,← after]
  constructor
  · rintro ⟨key,is,starts,ends⟩
    rw [is,Option.map_some]
    exact ⟨congrArg some ((started key).mpr starts),ends⟩
  · rintro ⟨holds,ends⟩
    obtain ⟨key,is,starts⟩ := Option.map_eq_some_iff.mp holds
    exact ⟨key,is,(started key).mp starts,ends⟩

end Windows

section Runs
variable {F : Type} [Floats F] {scheme : Scheme}

/-- What holds of every chain that was built. -/
structure Sound (F : Type) [Floats F] (chain : RegistryChain) (keys : List StatusKey) : Prop where
  agree : List.Forall₂ (Agrees F) chain.keys keys
  keyed : Keyed keys
  ids : (chain.keys.map (·.keyId)).Nodup
  publicKeys : (chain.keys.map (·.publicKey)).Nodup

theorem nodup_push {α β : Type} {f : α → β} {items : List α} {x : α} (distinct : (items.map f).Nodup)
    (fresh : ∀ y ∈ items, f y ≠ f x) : ((items ++ [x]).map f).Nodup := by
  rw [List.map_append,List.map_singleton,List.nodup_append]
  refine ⟨distinct,List.nodup_singleton _,fun a member b single => ?_⟩
  obtain ⟨y,inside,rfl⟩ := List.mem_map.mp member
  rw [List.mem_singleton.mp single]
  exact fresh y inside

/-- An accepted link keeps it, with a status key that is valid from its statement's time. -/
theorem push_sound {chain : RegistryChain} {keys : List StatusKey} (sound : Sound F chain keys) {text sig : String} {link : RegistryKey}
    (signed : Signed F scheme chain.keys text sig link) :
    Sound F { chain with keys := chain.keys ++ [link] } (keys ++ (statusKeyOf F text).toList) := by
  obtain ⟨key,start,kept,from_,agrees⟩ := signed.key
  rw [kept]
  have length := sound.agree.length_eq
  refine ⟨List.rel_append sound.agree (.cons agrees .nil),⟨?_,fun i other pos found => ?_⟩,
    nodup_push sound.ids fun k member => (signed.fresh k member).1,nodup_push sound.publicKeys fun k member => (signed.fresh k member).2⟩
  · obtain ⟨first,found,none_⟩ := sound.keyed.first
    exact ⟨first,(concat_get _ _ _ _).mpr (.inl found),none_⟩
  · rcases (concat_get _ _ _ _).mp found with old | ⟨_,rfl⟩
    · exact sound.keyed.later i other pos old
    · exact ⟨start,from_⟩

theorem keep_other {keys : List StatusKey} {text : String} {result : Except Refusal KeyApply} (other : result ≠ .ok .accepted) :
    keep F keys text result = keys := by
  unfold keep
  split
  next => exact absurd rfl other
  next => rfl

theorem run_sound {chain : RegistryChain} {keys : List StatusKey} (run : ChainRun F scheme chain keys) : Sound F chain keys := by
  induction run with
  | first registry keyId publicKey =>
    refine ⟨.cons ⟨rfl,rfl,fun _ => rfl⟩ .nil,⟨⟨_,rfl,rfl⟩,fun i key pos found => ?_⟩,List.nodup_singleton _,
      List.nodup_singleton _⟩
    rw [List.getElem?_eq_none (by exact pos)] at found
    cases found
  | apply run text sig ih =>
    rename_i chain keys
    rcases apply_cases (F := F) scheme chain text sig with ⟨other,same⟩ | ⟨accepted,link,signed,grown⟩
    · rw [same,keep_other other]
      exact ih
    · rw [grown,accepted]
      exact push_sound ih signed

theorem activeEpoch_iff {chain : RegistryChain} {keys : List StatusKey} (sound : Sound F chain keys) (t : String) (i : Nat) :
    chain.activeEpoch F t = some i ↔ WindowAdmits keys t i := by
  have same : chain.keys.map (fun k => k.activeAt F t) = keys.map (startsBy t) := by
    have agree := sound.agree
    generalize chain.keys = links at agree
    have keyed := sound.keyed
    clear keyed sound
    induction agree with
    | nil => rfl
    | cons first _ ih => rw [List.map_cons,List.map_cons,ih,first.active t]; rfl
  rw [windowAdmits_iff sound.keyed,← same]
  exact last_index (fun k => k.activeAt F t) chain.keys i

theorem activeEpoch_some {chain : RegistryChain} {keys : List StatusKey} (sound : Sound F chain keys) (t : String) :
    ∃ i, chain.activeEpoch F t = some i := by
  obtain ⟨first,found,none_⟩ := sound.keyed.first
  have agree := sound.agree
  unfold RegistryChain.activeEpoch
  generalize chain.keys = links at agree
  cases agree with
  | nil => cases found
  | cons agrees rest =>
    rename_i link key links keys
    obtain rfl := Option.some.inj found
    have holds : link.activeAt F t = true := by
      rw [agrees.active,none_]
      rfl
    refine Option.isSome_iff_exists.mp ?_
    rw [Option.isSome_map,List.find?_isSome]
    exact ⟨(link,0),List.mem_reverse.mpr (List.mem_iff_getElem?.mpr ⟨0,rfl⟩),holds⟩

/-- A status that verifies under a key was changed within the key's window. -/
theorem authenticStatus_admits {record : StatusRecord} {canonical sig : String} {keys : List StatusKey} {pin : Pin} {index : Nat}
    (ok : authenticStatus scheme record canonical sig keys pin = .ok index) : WindowAdmits keys record.changedAt index := by
  unfold authenticStatus at ok
  split at ok
  next => cases ok
  next i found =>
    dsimp only at ok
    split_ifs at ok with _ early late _
    obtain rfl := Except.ok.inj ok
    obtain ⟨within,_⟩ := List.findIdx?_eq_some_iff_getElem.mp found
    have is : keys[i]? = some (keys.getD i ⟨"","",none⟩) := by
      rw [List.getD_eq_getElem?_getD,List.getElem?_eq_getElem within]
      rfl
    refine ⟨_,is,fun start from_ => ?_,fun retirement first => ?_⟩
    · rw [from_,Option.any_some,decide_eq_true_eq] at early
      exact not_lt.mp early
    · rw [first,Option.any_some,decide_eq_true_eq] at late
      exact not_le.mp late

end Runs

end Entorhinal.KeyChain
