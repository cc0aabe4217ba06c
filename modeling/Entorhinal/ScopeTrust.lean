import Mathlib.Data.List.Forall2
import Mathlib.Data.List.Perm.Basic
import Entorhinal.Bundle
import Entorhinal.Traverse
import Entorhinal.Rooted
import Entorhinal.StatusLaw

/-! The keys of a scope that a registry's reply is trusted for: those that need no rotation, and whatever
they rotated to. -/
namespace Entorhinal.ScopeTrust

open Json (Floats)
open Package

section Model

inductive CatalogError
  | refused (refusal : Refusal)
  | new (code message : String)
deriving DecidableEq, Repr

/-- The calendar that times are read and written with. -/
structure Calendar where
  parseFromRfc3339 : String → Option Int
  toRfc3339Secs : Int → String

def Calendar.wholeSecond (calendar : Calendar) (text : String) : Bool :=
  match calendar.parseFromRfc3339 text with
  | none => false
  | some parsed => (Utf8.asBytes text).length == 20 && text.toList.getLast? == some 'Z' && calendar.toRfc3339Secs parsed == text

structure KeyRotation where
  schema : String
  scope : String
  oldKey : String
  newKey : String
deriving DecidableEq, Repr

structure ScopeEntry (F : Type) where
  publicKey : String
  fingerprint : String
  validFrom : String
  validUntil : Option String
  revocation : Option Revocation
  rotation : Option (Json F)
  cert : Option (Json F)

variable {F : Type}

def ScopeEntry.key (e : ScopeEntry F) : ScopeKey := ⟨e.publicKey,e.validFrom,e.validUntil,e.revocation⟩

/-- The fields of a record by name, others left aside, or of an array in their order. -/
def fieldsOf (names : List String) : Json F → Option (String → Option (Json F))
  | .object fields => some (Table.lookup fields)
  | value => value.structGet names

def optionalValue : Option (Json F) → Option (Json F)
  | none | some .null => none
  | some value => some value

def readRevocation : Option (Json F) → Option (Option Revocation)
  | none | some .null => some none
  | some value => (fieldsOf ["reason","compromise_from"] value).bind fun get => do
    return some ⟨← (get "reason").bind Json.asStr,← (get "compromise_from").bind Json.asStr⟩

def readScopeEntry (value : Json F) : Option (ScopeEntry F) :=
  (fieldsOf ["public_key","fingerprint","valid_from","valid_until","revocation","rotation","cert"] value).bind fun get => do
    return {
      publicKey := ← (get "public_key").bind Json.asStr
      fingerprint := ← (get "fingerprint").bind Json.asStr
      validFrom := ← (get "valid_from").bind Json.asStr
      validUntil := ← optionalStr ((get "valid_until").getD .null)
      revocation := ← readRevocation (get "revocation")
      rotation := optionalValue (get "rotation")
      cert := optionalValue (get "cert") }

def readRotation (s : Json F) : Option KeyRotation := do
  return ⟨← (s.get? "schema").bind Json.asStr,← (s.get? "scope").bind Json.asStr,
    ← (s.get? "old_key").bind Json.asStr,← (s.get? "new_key").bind Json.asStr⟩

/-- The key of a statement is known, and neither revoked nor retired. -/
def currentKey (keys : List ScopeKey) (publicKey : String) : Except Refusal Unit :=
  match keys.find? fun k => k.publicKey == publicKey with
  | none => .error (.new .keyUnknown)
  | some k =>
    if k.revocation.isSome then .error (.new .keyRevoked)
    else if k.validUntil.isSome then .error (.new .keyNotValid)
    else .ok ()

def isScope (text : String) : Bool := isPart text.toList && decide (text.toList.length ≤ scopeMax)

variable (F) [Floats F]

def verifyKeyRotation (scheme : Scheme) (text oldSig newSig scope : String) (keys : List ScopeKey) (ever : List String) :
    Except Refusal KeyRotation :=
  (shape text "ck-key-rotation/v1" ["schema","scope","old_key","new_key"] [] .statementInvalid).bind fun (s : Json F) =>
  (statementString s "scope").bind fun named =>
  if isScope named = false then .error (invalidStatement "scope")
  else (statementKey s "old_key").bind fun old => (statementKey s "new_key").bind fun new =>
    if new = old then .error (invalidStatement "new_key")
    else if named ≠ scope then .error (mismatch "scope")
    else if ¬ scheme.verifySignature old "ck-key-rotation/v1" s.jcsText oldSig then .error (.at .signatureInvalid "old_signature")
    else if ¬ scheme.verifySignature new "ck-key-rotation/v1" s.jcsText newSig then .error (.at .signatureInvalid "new_signature")
    else (currentKey keys old).bind fun _ =>
      if ever.contains new then .error (.new .keyReused)
      else match readRotation s with
        | none => .error (invalidStatement "json")
        | some rotation => .ok rotation

variable {F} (scheme : Scheme) (calendar : Calendar) (scope : String) (root : Option String)

def signatureOf (value : Json F) (key : String) : String := (value.field key).asStr.getD ""

/-- The root's certificate of a key of its own scope; other scopes have none. -/
def certify (e : ScopeEntry F) : Except CatalogError (Option KeyCert) :=
  if scope = "cortexkit" then
    match e.cert with
    | none => .error (.new "key_unknown" "cortexkit key lacks a root cert")
    | some cert =>
      match verifyKeyCert F scheme (cert.field "statement").jcsText (signatureOf cert "signature") (root.getD "") with
      | .error refusal => .error (.refused refusal)
      | .ok certified => .ok (some certified)
  else .ok none

def ScopeEntry.times (e : ScopeEntry F) : List String :=
  e.validFrom :: (e.validUntil.toList ++ (e.revocation.map Revocation.compromiseFrom).toList)

/-- The key of an entry after those seen, and the rotation it waits for. -/
def admitEntry (seen : List String) (e : ScopeEntry F) : Except CatalogError (ScopeKey × Option (Json F)) :=
  (certify scheme scope root e).bind fun certified =>
    if e.publicKey ∈ seen ∨ scheme.keyFingerprint e.publicKey ≠ some e.fingerprint then .error (.refused (mismatch "fingerprint"))
    else if e.times.all calendar.wholeSecond = false then
      .error (.new "statement_invalid" "invalid scope key timestamp")
    else if (e.validUntil.any fun last => decide (last ≤ e.validFrom)) || (e.revocation.any fun r => r.reason.isEmpty) then
      .error (.new "statement_invalid" "invalid scope key window or revocation")
    else match certified with
      | some cert =>
        if cert.publicKey ≠ e.publicKey ∨ cert.validFrom ≠ e.validFrom ∨ cert.validUntil ≠ e.validUntil then
          .error (.refused (mismatch "cert"))
        else .ok (e.key,none)
      | none => if e.cert.isSome then .error (.refused (mismatch "cert")) else .ok (e.key,e.rotation)

def admitEntries : List String → List (ScopeEntry F) → Except CatalogError (List (ScopeKey × Option (Json F)))
  | _,[] => .ok []
  | seen,e :: rest =>
    (admitEntry scheme calendar scope root seen e).bind fun first =>
      (admitEntries (e.publicKey :: seen) rest).map fun others => first :: others

def statementOf (rotation : Json F) : Json F := rotation.field "statement"

def namesOld (old : ScopeKey) (c : ScopeKey × Json F) : Bool := ((statementOf c.2).field "old_key").asStr == some old.publicKey

/-- The old key signed the entry's key in while it was not known to be compromised. -/
def rotates (old : ScopeKey) (c : ScopeKey × Json F) : Bool :=
  let validation := { old with
    validUntil := none
    revocation := old.revocation.filter fun r => !decide (c.1.validFrom < r.compromiseFrom) }
  match verifyKeyRotation F scheme (statementOf c.2).jcsText (signatureOf c.2 "old_signature") (signatureOf c.2 "new_signature")
      scope [validation] [] with
  | .ok rotation => rotation.newKey == c.1.publicKey
  | .error _ => false

def plainOf (admitted : List (ScopeKey × Option (Json F))) : List ScopeKey :=
  admitted.filterMap fun a => if a.2.isNone then some a.1 else none

def pendingOf (admitted : List (ScopeKey × Option (Json F))) : List (ScopeKey × Json F) :=
  admitted.filterMap fun a => a.2.map fun rotation => (a.1,rotation)

def scopeKeys (reply : Json F) : Except CatalogError (List ScopeKey) :=
  if (reply.field "scope").asStr ≠ some scope then .error (.refused (mismatch "scope"))
  else if scope = "cortexkit" ∧ root = none then .ok []
  else match (reply.field "keys").asArray.bind (·.mapM readScopeEntry) with
    | none => .error (.new "invalid_reply" "invalid scope keys")
    | some entries => (admitEntries scheme calendar scope root [] entries).map fun admitted =>
      Rooted.settle Prod.fst namesOld (rotates scheme scope) (plainOf admitted) (pendingOf admitted)

end Model

section Rotation
variable {F : Type} [Floats F] {scheme : Scheme} {scope : String}

theorem bind_ok_iff {ε α β : Type} {x : Except ε α} {f : α → Except ε β} {b : β} :
    x.bind f = .ok b ↔ ∃ a, x = .ok a ∧ f a = .ok b := by
  cases x with
  | error e => exact ⟨nofun,fun ⟨_,wrong,_⟩ => nomatch wrong⟩
  | ok a => exact ⟨fun is => ⟨a,rfl,is⟩,fun ⟨_,same,is⟩ => Except.ok.inj same ▸ is⟩

omit [Floats F] in
theorem statementString_iff {s : Json F} {field text : String} :
    statementString s field = .ok text ↔ (s.field field).asStr = some text := by
  unfold statementString
  cases (s.field field).asStr with
  | none => exact ⟨nofun,nofun⟩
  | some t => exact ⟨fun is => congrArg some (Except.ok.inj is),fun is => congrArg Except.ok (Option.some.inj is)⟩

omit [Floats F] in
theorem statementKey_iff {s : Json F} {field text : String} :
    statementKey s field = .ok text ↔ (s.field field).asStr = some text ∧ isHex text 64 = true := by
  have unfolded : statementKey s field = (statementString s field).bind fun k =>
      (require (isHex k 64) (invalidStatement field)).bind fun _ => .ok k := rfl
  rw [unfolded,bind_ok_iff]
  constructor
  · rintro ⟨k,is,rest⟩
    obtain ⟨_,hex,same⟩ := bind_ok_iff.mp rest
    obtain rfl := Except.ok.inj same
    refine ⟨statementString_iff.mp is,?_⟩
    by_contra other
    rw [require,if_neg other] at hex
    cases hex
  · rintro ⟨is,hex⟩
    refine ⟨text,statementString_iff.mpr is,bind_ok_iff.mpr ⟨(),?_,rfl⟩⟩
    rw [require,if_pos hex]

theorem currentKey_single {k : ScopeKey} {publicKey : String} :
    currentKey [k] publicKey = .ok () ↔ k.publicKey = publicKey ∧ k.revocation = none ∧ k.validUntil = none := by
  unfold currentKey
  rw [List.find?_cons]
  cases same : k.publicKey == publicKey with
  | false => exact iff_of_false nofun fun wrong => Bool.false_ne_true (same.symm.trans (beq_iff_eq.mpr wrong.1))
  | true =>
    dsimp only
    rw [← Option.isNone_iff_eq_none,← Option.isNone_iff_eq_none,Option.isNone_iff_eq_none]
    cases k.revocation with
    | some r => exact iff_of_false nofun fun wrong => nomatch wrong.2.1
    | none =>
      cases k.validUntil with
      | some r => exact iff_of_false nofun fun wrong => nomatch wrong.2.2
      | none => exact iff_of_true rfl ⟨beq_iff_eq.mp same,rfl,rfl⟩

omit [Floats F] in
theorem field_str {s : Json F} {key text : String} : (s.get? key).bind Json.asStr = some text ↔ (s.field key).asStr = some text := by
  unfold Json.field
  cases s.get? key with
  | none => exact ⟨nofun,nofun⟩
  | some value => rfl

/-- What the rotation of an entry's key says: the old key and the entry's own both signed it for the scope, and
the old key was not compromised when the entry's became valid. -/
structure Rotates (F : Type) [Floats F] (scheme : Scheme) (scope : String) (old key : ScopeKey) (rotation : Json F) : Prop where
  statement : ∃ s : Json F, shape (statementOf rotation).jcsText "ck-key-rotation/v1" ["schema","scope","old_key","new_key"] []
      .statementInvalid = .ok s ∧
    (s.field "scope").asStr = some scope ∧ isScope scope = true ∧
    (s.field "old_key").asStr = some old.publicKey ∧ isHex old.publicKey 64 = true ∧
    (s.field "new_key").asStr = some key.publicKey ∧ isHex key.publicKey 64 = true ∧ key.publicKey ≠ old.publicKey ∧
    scheme.verifySignature old.publicKey "ck-key-rotation/v1" s.jcsText (signatureOf rotation "old_signature") = true ∧
    scheme.verifySignature key.publicKey "ck-key-rotation/v1" s.jcsText (signatureOf rotation "new_signature") = true
  uncompromised : ∀ r, old.revocation = some r → key.validFrom < r.compromiseFrom

theorem verifyKeyRotation_iff {text oldSig newSig newKey : String} {k : ScopeKey} :
    (∃ r, verifyKeyRotation F scheme text oldSig newSig scope [k] [] = .ok r ∧ r.newKey = newKey) ↔
      ∃ s : Json F, shape text "ck-key-rotation/v1" ["schema","scope","old_key","new_key"] [] .statementInvalid = .ok s ∧
        (s.field "scope").asStr = some scope ∧ isScope scope = true ∧
        (s.field "old_key").asStr = some k.publicKey ∧ isHex k.publicKey 64 = true ∧
        (s.field "new_key").asStr = some newKey ∧ isHex newKey 64 = true ∧ newKey ≠ k.publicKey ∧
        scheme.verifySignature k.publicKey "ck-key-rotation/v1" s.jcsText oldSig = true ∧
        scheme.verifySignature newKey "ck-key-rotation/v1" s.jcsText newSig = true ∧ k.revocation = none ∧ k.validUntil = none := by
  unfold verifyKeyRotation
  constructor
  · rintro ⟨r,ok,own⟩
    obtain ⟨s,shaped,ok⟩ := bind_ok_iff.mp ok
    obtain ⟨named,scope_,ok⟩ := bind_ok_iff.mp ok
    by_cases part : isScope named = false
    · rw [if_pos part] at ok
      cases ok
    rw [if_neg part] at ok
    obtain ⟨old,old_,ok⟩ := bind_ok_iff.mp ok
    obtain ⟨new,new_,ok⟩ := bind_ok_iff.mp ok
    by_cases other : new = old
    · rw [if_pos other] at ok
      cases ok
    rw [if_neg other] at ok
    split_ifs at ok with same left right reused
    · cases reused
    obtain ⟨_,current,ok⟩ := bind_ok_iff.mp ok
    split at ok
    next => cases ok
    next rotation read =>
      obtain rfl := Except.ok.inj ok
      obtain ⟨rfl,unrevoked,open_⟩ := currentKey_single.mp current
      obtain ⟨old_,oldHex⟩ := statementKey_iff.mp old_
      obtain ⟨new_,newHex⟩ := statementKey_iff.mp new_
      have newKey_ : (s.field "new_key").asStr = some rotation.newKey := by
        unfold readRotation at read
        simp only [Option.pure_def,Option.bind_eq_bind,Option.bind_eq_some_iff,Option.some.injEq] at read
        obtain ⟨_,_,_,_,_,_,newKey,found,rfl⟩ := read
        exact field_str.mp (Option.bind_eq_some_iff.mpr found)
      rw [newKey_] at new_
      obtain rfl := Option.some.inj new_
      subst own
      obtain rfl := not_not.mp same
      exact ⟨s,shaped,statementString_iff.mp scope_,Bool.not_eq_false _ ▸ part,old_,oldHex,newKey_,newHex,other,left,right,unrevoked,open_⟩
  · rintro ⟨s,shaped,scope_,part,old_,oldHex,new_,newHex,other,left,right,unrevoked,open_⟩
    obtain ⟨_,_,_,_,schema,_⟩ := shape_object shaped
    have read : readRotation s = some ⟨"ck-key-rotation/v1",scope,k.publicKey,newKey⟩ := by
      unfold readRotation
      rw [field_str.mpr schema,field_str.mpr scope_,field_str.mpr old_,field_str.mpr new_]
      rfl
    refine ⟨⟨"ck-key-rotation/v1",scope,k.publicKey,newKey⟩,bind_ok_iff.mpr ⟨s,shaped,bind_ok_iff.mpr ⟨scope,
      statementString_iff.mpr scope_,?_⟩⟩,rfl⟩
    rw [if_neg (by rw [part]; exact Bool.false_ne_true.symm)]
    refine bind_ok_iff.mpr ⟨_,statementKey_iff.mpr ⟨old_,oldHex⟩,bind_ok_iff.mpr ⟨_,statementKey_iff.mpr ⟨new_,newHex⟩,?_⟩⟩
    rw [if_neg other,if_neg (not_not.mpr rfl),if_neg (not_not.mpr left),if_neg (not_not.mpr right)]
    refine bind_ok_iff.mpr ⟨(),currentKey_single.mpr ⟨rfl,unrevoked,open_⟩,?_⟩
    rw [read]
    rfl

theorem filter_none {r : Option Revocation} {validFrom : String} :
    (r.filter fun r => !decide (validFrom < r.compromiseFrom)) = none ↔ ∀ x, r = some x → validFrom < x.compromiseFrom := by
  cases r with
  | none => exact iff_of_true rfl nofun
  | some x =>
    rw [Option.filter_some]
    by_cases later : validFrom < x.compromiseFrom
    · rw [decide_eq_true later]
      exact iff_of_true rfl fun y is => Option.some.inj is ▸ later
    · rw [decide_eq_false later]
      exact iff_of_false nofun fun all => later (all x rfl)

/-- The check of a rotation is what the closure asks of it. -/
theorem rotates_iff {old : ScopeKey} {c : ScopeKey × Json F} : rotates scheme scope old c = true ↔ Rotates F scheme scope old c.1 c.2 := by
  have ok : rotates scheme scope old c = true ↔ ∃ r, verifyKeyRotation F scheme (statementOf c.2).jcsText
      (signatureOf c.2 "old_signature") (signatureOf c.2 "new_signature") scope [{ old with
        validUntil := none
        revocation := old.revocation.filter fun r => !decide (c.1.validFrom < r.compromiseFrom) }] [] = .ok r ∧
          r.newKey = c.1.publicKey := by
    unfold rotates
    dsimp only
    split
    next r is =>
      rw [is,beq_iff_eq]
      exact ⟨fun same => ⟨r,rfl,same⟩,fun ⟨_,same,own⟩ => Except.ok.inj same ▸ own⟩
    next e is =>
      rw [is]
      exact iff_of_false nofun fun ⟨_,wrong,_⟩ => nomatch wrong
  rw [ok,verifyKeyRotation_iff]
  constructor
  · rintro ⟨s,shaped,scope_,part,old_,oldHex,new_,newHex,other,left,right,unrevoked,_⟩
    exact ⟨⟨s,shaped,scope_,part,old_,oldHex,new_,newHex,other,left,right⟩,filter_none.mp unrevoked⟩
  · rintro ⟨⟨s,shaped,scope_,part,old_,oldHex,new_,newHex,other,left,right⟩,uncompromised⟩
    exact ⟨s,shaped,scope_,part,old_,oldHex,new_,newHex,other,left,right,filter_none.mpr uncompromised,rfl⟩

end Rotation

section Entries
variable {F : Type} [Floats F] {scheme : Scheme} {calendar : Calendar} {scope : String} {root : Option String}

theorem unless_ok {ε α : Type} {p : Prop} [Decidable p] {e : ε} {x : Except ε α} {a : α} :
    (if p then .error e else x) = .ok a ↔ ¬ p ∧ x = .ok a := by
  by_cases holds : p
  · rw [if_pos holds]
    exact iff_of_false nofun fun wrong => wrong.1 holds
  · rw [if_neg holds]
    exact (and_iff_right holds).symm

/-- What an entry is admitted for, of keys that were not seen before it. -/
theorem admitEntry_iff {seen : List String} {e : ScopeEntry F} {out : ScopeKey × Option (Json F)} :
    admitEntry scheme calendar scope root seen e = .ok out ↔
      e.publicKey ∉ seen ∧ admitEntry scheme calendar scope root [] e = .ok out := by
  unfold admitEntry
  rw [bind_ok_iff,bind_ok_iff]
  constructor
  · rintro ⟨certified,is,ok⟩
    by_cases known : e.publicKey ∈ seen
    · rw [if_pos (.inl known)] at ok
      cases ok
    · refine ⟨known,certified,is,?_⟩
      simpa only [known,List.not_mem_nil,false_or] using ok
  · rintro ⟨known,certified,is,ok⟩
    refine ⟨certified,is,?_⟩
    simpa only [known,List.not_mem_nil,false_or] using ok

theorem admitEntry_key {e : ScopeEntry F} {out : ScopeKey × Option (Json F)}
    (ok : admitEntry scheme calendar scope root [] e = .ok out) :
    out.1 = e.key ∧ ((scope = "cortexkit" ∧ out.2 = none ∧ ∃ cert certified, e.cert = some cert ∧
        verifyKeyCert F scheme (cert.field "statement").jcsText (signatureOf cert "signature") (root.getD "") = .ok certified ∧
        certified.publicKey = e.publicKey ∧ certified.validFrom = e.validFrom ∧ certified.validUntil = e.validUntil) ∨
      (scope ≠ "cortexkit" ∧ e.cert = none ∧ out.2 = e.rotation)) := by
  obtain ⟨certified,is,ok⟩ := bind_ok_iff.mp ok
  unfold certify at is
  by_cases own : scope = "cortexkit"
  · rw [if_pos own] at is
    split at is
    next => cases is
    next cert found =>
      split at is
      next => cases is
      next certified' verified =>
        obtain rfl := Except.ok.inj is
        obtain ⟨_,ok⟩ := unless_ok.mp ok
        obtain ⟨_,ok⟩ := unless_ok.mp ok
        obtain ⟨_,ok⟩ := unless_ok.mp ok
        obtain ⟨differs,ok⟩ := unless_ok.mp ok
        obtain rfl := Except.ok.inj ok
        simp only [not_or,not_not] at differs
        exact ⟨rfl,.inl ⟨own,rfl,cert,certified',found,verified,differs⟩⟩
  · rw [if_neg own] at is
    obtain rfl := Except.ok.inj is
    obtain ⟨_,ok⟩ := unless_ok.mp ok
    obtain ⟨_,ok⟩ := unless_ok.mp ok
    obtain ⟨_,ok⟩ := unless_ok.mp ok
    obtain ⟨certified_,ok⟩ := unless_ok.mp ok
    obtain rfl := Except.ok.inj ok
    exact ⟨rfl,.inr ⟨own,Option.not_isSome_iff_eq_none.mp certified_,rfl⟩⟩

/-- The entries of a reply are admitted each for itself, with no key twice. -/
theorem admitEntries_iff {seen : List String} {entries : List (ScopeEntry F)} {admitted : List (ScopeKey × Option (Json F))} :
    admitEntries scheme calendar scope root seen entries = .ok admitted ↔
      List.Forall₂ (fun e out => admitEntry scheme calendar scope root [] e = .ok out) entries admitted ∧
      (∀ e ∈ entries, e.publicKey ∉ seen) ∧ (entries.map ScopeEntry.publicKey).Nodup := by
  induction entries generalizing seen admitted with
  | nil =>
    constructor
    · intro ok
      obtain rfl := Except.ok.inj ok
      exact ⟨.nil,fun _ member => absurd member List.not_mem_nil,.nil⟩
    · rintro ⟨pairs,_⟩
      cases pairs
      rfl
  | cons e rest ih =>
    rw [admitEntries,bind_ok_iff]
    constructor
    · rintro ⟨first,is,ok⟩
      obtain ⟨others,later,rfl⟩ := map_ok ok
      obtain ⟨fresh,is⟩ := admitEntry_iff.mp is
      obtain ⟨pairs,unseen,distinct⟩ := ih.mp later
      refine ⟨.cons is pairs,List.forall_mem_cons.mpr ⟨fresh,fun x member known => unseen x member (List.mem_cons_of_mem _ known)⟩,
        List.nodup_cons.mpr ⟨fun again => ?_,distinct⟩⟩
      obtain ⟨x,member,same⟩ := List.mem_map.mp again
      exact unseen x member (same ▸ List.mem_cons_self)
    · rintro ⟨pairs,unseen,distinct⟩
      cases pairs with
      | cons is pairs =>
        rename_i first others
        obtain ⟨fresh,later⟩ := List.forall_mem_cons.mp unseen
        obtain ⟨once,distinct⟩ := List.nodup_cons.mp distinct
        refine ⟨first,admitEntry_iff.mpr ⟨fresh,is⟩,?_⟩
        rw [ih.mpr ⟨pairs,fun x member known => ?_,distinct⟩]
        · rfl
        · rcases List.mem_cons.mp known with same | before
          · exact once (List.mem_map.mpr ⟨x,member,same⟩)
          · exact later x member before

end Entries

section Closure
variable {F : Type} [Floats F] {scheme : Scheme} {calendar : Calendar} {scope : String} {root : Option String}

/-- An entry that needs no rotation: of the root's own scope, one that its certificate names with the window. -/
def Plain (scheme : Scheme) (scope : String) (root : Option String) (item : Json F) (key : ScopeKey) : Prop :=
  ∃ e, readScopeEntry item = some e ∧ key = e.key ∧
    if scope = "cortexkit" then ∃ r cert certified, root = some r ∧ e.cert = some cert ∧
      verifyKeyCert F scheme (cert.field "statement").jcsText (signatureOf cert "signature") r = .ok certified ∧
      certified.publicKey = e.publicKey ∧ certified.validFrom = e.validFrom ∧ certified.validUntil = e.validUntil
    else e.cert = none ∧ e.rotation = none

def Pending (item : Json F) (key : ScopeKey) (rotation : Json F) : Prop :=
  ∃ e, readScopeEntry item = some e ∧ key = e.key ∧ e.rotation = some rotation

def NamesOld (rotation : Json F) (old : ScopeKey) : Prop := ((statementOf rotation).field "old_key").asStr = some old.publicKey

/-- The least set with the entries that need no rotation and those rotated to from it. -/
inductive InClosure (scheme : Scheme) (scope : String) (root : Option String) (items : List (Json F)) : ScopeKey → Prop
  | plain {item : Json F} {key : ScopeKey} (listed : item ∈ items) (own : Plain scheme scope root item key) :
      InClosure scheme scope root items key
  | rotated {item rotation : Json F} {old key : ScopeKey} (listed : item ∈ items) (pending : Pending item key rotation)
      (held : InClosure scheme scope root items old) (named : NamesOld rotation old)
      (signed : Rotates F scheme scope old key rotation) : InClosure scheme scope root items key

theorem InClosure.mono {items items' : List (Json F)} (inside : items ⊆ items') {key : ScopeKey}
    (closed : InClosure scheme scope root items key) : InClosure scheme scope root items' key := by
  induction closed with
  | plain listed own => exact .plain (inside listed) own
  | rotated listed pending _ named signed ih => exact .rotated (inside listed) pending ih named signed

def itemsOf (reply : Json F) : List (Json F) := (reply.field "keys").asArray.getD []

/-- A reply's entries, each admitted. -/
structure Admitted (scheme : Scheme) (calendar : Calendar) (scope : String) (root : Option String) (items : List (Json F))
    (admitted : List (ScopeKey × Option (Json F))) : Prop where
  each : ∃ entries, List.Forall₂ (fun item e => readScopeEntry item = some e) items entries ∧
    List.Forall₂ (fun e out => admitEntry scheme calendar scope root [] e = .ok out) entries admitted ∧
    (entries.map ScopeEntry.publicKey).Nodup

omit [Floats F] in
theorem mem_plainOf {admitted : List (ScopeKey × Option (Json F))} {key : ScopeKey} :
    key ∈ plainOf admitted ↔ (key,none) ∈ admitted := by
  unfold plainOf
  rw [List.mem_filterMap]
  constructor
  · rintro ⟨⟨k,rotation⟩,member,is⟩
    cases rotation with
    | none => exact Option.some.inj is ▸ member
    | some rotation => cases is
  · exact fun member => ⟨_,member,rfl⟩

omit [Floats F] in
theorem mem_pendingOf {admitted : List (ScopeKey × Option (Json F))} {c : ScopeKey × Json F} :
    c ∈ pendingOf admitted ↔ (c.1,some c.2) ∈ admitted := by
  unfold pendingOf
  rw [List.mem_filterMap]
  constructor
  · rintro ⟨⟨k,rotation⟩,member,is⟩
    cases rotation with
    | none => cases is
    | some rotation => exact Option.some.inj is ▸ member
  · exact fun member => ⟨_,member,rfl⟩

omit [Floats F] in
theorem split_perm (admitted : List (ScopeKey × Option (Json F))) :
    (plainOf admitted ++ (pendingOf admitted).map Prod.fst).Perm (admitted.map Prod.fst) := by
  induction admitted with
  | nil => exact .nil
  | cons a rest ih =>
    obtain ⟨key,rotation⟩ := a
    cases rotation with
    | none => exact ih.cons key
    | some rotation => exact List.perm_middle.trans (ih.cons key)

theorem Admitted.distinct {items : List (Json F)} {admitted : List (ScopeKey × Option (Json F))}
    (taken : Admitted scheme calendar scope root items admitted) : ((admitted.map Prod.fst).map ScopeKey.publicKey).Nodup := by
  obtain ⟨entries,read,pairs,distinct⟩ := taken.each
  have same : (admitted.map Prod.fst).map ScopeKey.publicKey = entries.map ScopeEntry.publicKey := by
    clear distinct taken read
    induction pairs with
    | nil => rfl
    | cons first _ ih => rw [List.map_cons,List.map_cons,List.map_cons,ih,(admitEntry_key first).1]; rfl
  rw [same]
  exact distinct

theorem Admitted.out {items : List (Json F)} {admitted : List (ScopeKey × Option (Json F))}
    (taken : Admitted scheme calendar scope root items admitted) {out : ScopeKey × Option (Json F)} (member : out ∈ admitted) :
    ∃ item ∈ items, ∃ e, readScopeEntry item = some e ∧ admitEntry scheme calendar scope root [] e = .ok out := by
  obtain ⟨entries,read,pairs,_⟩ := taken.each
  obtain ⟨e,inside,ok⟩ := pair_right pairs member
  obtain ⟨item,listed,is⟩ := pair_right read inside
  exact ⟨item,listed,e,is,ok⟩

theorem Admitted.item {items : List (Json F)} {admitted : List (ScopeKey × Option (Json F))}
    (taken : Admitted scheme calendar scope root items admitted) {item : Json F} (listed : item ∈ items) {e : ScopeEntry F}
    (is : readScopeEntry item = some e) : ∃ out ∈ admitted, admitEntry scheme calendar scope root [] e = .ok out := by
  obtain ⟨entries,read,pairs,_⟩ := taken.each
  obtain ⟨e',inside,is'⟩ := pair_left read listed
  obtain rfl := Option.some.inj (is.symm.trans is')
  exact pair_left pairs inside

/-- Growing from the plain keys through the pending ones is the closure over the reply's entries. -/
theorem grown_iff {items : List (Json F)} {admitted : List (ScopeKey × Option (Json F))}
    (taken : Admitted scheme calendar scope root items admitted) (given : ¬ (scope = "cortexkit" ∧ root = none)) {key : ScopeKey} :
    Rooted.Grown Prod.fst namesOld (rotates scheme scope) (plainOf admitted) (pendingOf admitted) key ↔
      InClosure scheme scope root items key := by
  constructor
  · intro grown
    induction grown with
    | root listed =>
      obtain ⟨item,inside,e,is,ok⟩ := taken.out (mem_plainOf.mp listed)
      obtain ⟨same,⟨own,_,cert,certified,found,verified,names⟩ | ⟨other,uncertified,rotation⟩⟩ := admitEntry_key ok
      · obtain ⟨r,rfl⟩ := Option.ne_none_iff_exists'.mp fun none_ => given ⟨own,none_⟩
        refine .plain inside ⟨e,is,same,?_⟩
        rw [if_pos own]
        exact ⟨r,cert,certified,rfl,found,verified,names⟩
      · refine .plain inside ⟨e,is,same,?_⟩
        rw [if_neg other]
        exact ⟨uncertified,rotation.symm⟩
    | @next old c listed _ named fits ih =>
      obtain ⟨item,inside,e,is,ok⟩ := taken.out (mem_pendingOf.mp listed)
      obtain ⟨same,⟨_,wrong,_⟩ | ⟨_,_,rotation⟩⟩ := admitEntry_key ok
      · cases wrong
      · exact .rotated inside ⟨e,is,same,rotation.symm⟩ ih (beq_iff_eq.mp named) (rotates_iff.mp fits)
  · intro closed
    induction closed with
    | plain listed own =>
      obtain ⟨e,is,rfl,plain⟩ := own
      obtain ⟨⟨key,rotation⟩,member,ok⟩ := taken.item listed is
      obtain ⟨same,⟨_,none_,_⟩ | ⟨other,_,rotation_⟩⟩ := admitEntry_key ok
      · cases same
        cases none_
        exact .root (mem_plainOf.mpr member)
      · rw [if_neg other] at plain
        cases same
        cases rotation_.trans plain.2
        exact .root (mem_plainOf.mpr member)
    | @rotated item rotation old _ listed pending _ named signed ih =>
      obtain ⟨e,is,rfl,waits⟩ := pending
      obtain ⟨⟨key,rotation'⟩,member,ok⟩ := taken.item listed is
      obtain ⟨same,⟨_,none_,_⟩ | ⟨_,_,rotation_⟩⟩ := admitEntry_key ok
      · cases same
        cases none_
        exact .root (mem_plainOf.mpr member)
      · cases same
        cases rotation_.trans waits
        exact .next (c := (e.key,rotation)) (mem_pendingOf.mpr member) ih (beq_iff_eq.mpr named) (rotates_iff.mpr signed)

theorem Admitted.unique {items : List (Json F)} {admitted : List (ScopeKey × Option (Json F))}
    (taken : Admitted scheme calendar scope root items admitted) {a b : ScopeKey}
    (first : a ∈ plainOf admitted ++ (pendingOf admitted).map Prod.fst)
    (second : b ∈ plainOf admitted ++ (pendingOf admitted).map Prod.fst)
    (same : a.publicKey = b.publicKey) : a = b :=
  List.inj_on_of_nodup_map taken.distinct ((split_perm admitted).subset first) ((split_perm admitted).subset second) same

/-- What a trusted reply gives: the closure, with no public key twice. -/
theorem scopeKeys_admitted {reply : Json F} {keys : List ScopeKey} (ok : scopeKeys scheme calendar scope root reply = .ok keys) :
    (scope = "cortexkit" ∧ root = none ∧ keys = []) ∨ (¬ (scope = "cortexkit" ∧ root = none) ∧
      ∃ admitted, Admitted scheme calendar scope root (itemsOf reply) admitted ∧
        keys = Rooted.settle Prod.fst namesOld (rotates scheme scope) (plainOf admitted) (pendingOf admitted)) := by
  obtain ⟨_,ok⟩ := unless_ok.mp ok
  by_cases none_ : scope = "cortexkit" ∧ root = none
  · rw [if_pos none_] at ok
    exact .inl ⟨none_.1,none_.2,(Except.ok.inj ok).symm⟩
  · rw [if_neg none_] at ok
    refine .inr ⟨none_,?_⟩
    split at ok
    next => cases ok
    next entries read =>
      obtain ⟨items,array,read⟩ := Option.bind_eq_some_iff.mp read
      obtain ⟨admitted,each,rfl⟩ := map_ok ok
      obtain ⟨pairs,_,distinct⟩ := admitEntries_iff.mp each
      refine ⟨admitted,⟨entries,?_,pairs,distinct⟩,rfl⟩
      rw [itemsOf,array]
      exact mapM_pairs read

theorem scopeKeys_of {reply : Json F} (named : (reply.field "scope").asStr = some scope) (given : ¬ (scope = "cortexkit" ∧ root = none))
    {items : List (Json F)} (array : (reply.field "keys").asArray = some items) {admitted : List (ScopeKey × Option (Json F))}
    (taken : Admitted scheme calendar scope root items admitted) : scopeKeys scheme calendar scope root reply =
      .ok (Rooted.settle Prod.fst namesOld (rotates scheme scope) (plainOf admitted) (pendingOf admitted)) := by
  obtain ⟨entries,read,pairs,distinct⟩ := taken.each
  unfold scopeKeys
  rw [if_neg (not_not.mpr named),if_neg given,array,Option.bind_some,pairs_mapM read]
  dsimp only
  rw [admitEntries_iff.mpr ⟨pairs,fun _ _ => List.not_mem_nil,distinct⟩]
  rfl

theorem Admitted.perm {items items' : List (Json F)} {admitted : List (ScopeKey × Option (Json F))}
    (taken : Admitted scheme calendar scope root items admitted) (perm : items'.Perm items) :
    ∃ admitted', Admitted scheme calendar scope root items' admitted' := by
  obtain ⟨entries,read,pairs,distinct⟩ := taken.each
  obtain ⟨entries',read',same⟩ := List.perm_comp_forall₂ perm read
  obtain ⟨admitted',pairs',_⟩ := List.perm_comp_forall₂ same pairs
  exact ⟨admitted',⟨entries',read',pairs',(same.map _).nodup_iff.mpr distinct⟩⟩

theorem find_same {keys keys' : List ScopeKey} (same : ∀ key, key ∈ keys' ↔ key ∈ keys) (distinct : (keys.map ScopeKey.publicKey).Nodup)
    (publicKey : String) : (keys'.find? fun k : ScopeKey => k.publicKey == publicKey) =
      keys.find? fun k : ScopeKey => k.publicKey == publicKey := by
  cases found' : keys'.find? fun k : ScopeKey => k.publicKey == publicKey with
  | none =>
    refine (List.find?_eq_none.mpr fun k member => ?_).symm
    exact List.find?_eq_none.mp found' k ((same k).mpr member)
  | some k' =>
    have member' := (same k').mp (List.mem_of_find?_eq_some found')
    have is' : k'.publicKey = publicKey := beq_iff_eq.mp (List.find?_some (p := fun k : ScopeKey => k.publicKey == publicKey) found')
    cases found : keys.find? fun k : ScopeKey => k.publicKey == publicKey with
    | none => exact absurd (beq_iff_eq.mpr is') (List.find?_eq_none.mp found k' member')
    | some k =>
      have is : k.publicKey = publicKey := beq_iff_eq.mp (List.find?_some (p := fun k : ScopeKey => k.publicKey == publicKey) found)
      rw [List.inj_on_of_nodup_map distinct member' (List.mem_of_find?_eq_some found) (is'.trans is.symm)]

theorem verifyRecordTrust_same {keys keys' : List ScopeKey} (same : ∀ key, key ∈ keys' ↔ key ∈ keys)
    (distinct : (keys.map ScopeKey.publicKey).Nodup) (text sig : String) (publishedAt : Option String) :
    verifyRecordTrust (F := F) scheme text sig ⟨keys',publishedAt⟩ = verifyRecordTrust scheme text sig ⟨keys,publishedAt⟩ := by
  have check (publicKey : String) : checkKey ⟨keys',publishedAt⟩ publicKey = checkKey ⟨keys,publishedAt⟩ publicKey := by
    unfold checkKey
    rw [find_same same distinct]
  unfold verifyRecordTrust trustedRecord
  simp only [check]

theorem settle_nodup {items : List (Json F)} {admitted : List (ScopeKey × Option (Json F))}
    (taken : Admitted scheme calendar scope root items admitted) :
    ((Rooted.settle Prod.fst namesOld (rotates scheme scope) (plainOf admitted) (pendingOf admitted)).map ScopeKey.publicKey).Nodup := by
  obtain ⟨kept,perm,sub⟩ :=
    @Rooted.settle_subperm _ _ Prod.fst namesOld (rotates scheme scope) (plainOf admitted) (pendingOf admitted)
  rw [← (perm.map _).nodup_iff]
  exact (((split_perm admitted).map _).nodup_iff.mpr taken.distinct).sublist (sub.map _)

theorem mem_settled {items : List (Json F)} {admitted : List (ScopeKey × Option (Json F))}
    (taken : Admitted scheme calendar scope root items admitted) (given : ¬ (scope = "cortexkit" ∧ root = none)) {key : ScopeKey} :
    key ∈ Rooted.settle Prod.fst namesOld (rotates scheme scope) (plainOf admitted) (pendingOf admitted) ↔
      InClosure scheme scope root items key := by
  rw [Rooted.mem_settle Prod.fst namesOld (rotates scheme scope) fun a b first second c _ left right => ?_,grown_iff taken given]
  exact taken.unique first second (Option.some.inj ((beq_iff_eq.mp left).symm.trans (beq_iff_eq.mp right)))

/-- Without the root's key nothing of its scope is trusted. -/
theorem rootless_closure (items : List (Json F)) (key : ScopeKey) : ¬ InClosure scheme "cortexkit" none items key := by
  intro closed
  induction closed with
  | plain _ own =>
    obtain ⟨e,_,_,certified⟩ := own
    rw [if_pos rfl] at certified
    obtain ⟨_,_,_,wrong,_⟩ := certified
    cases wrong
  | rotated _ _ _ _ _ ih => exact ih

end Closure

section Single

def zeros : String := "0000000000000000000000000000000000000000000000000000000000000000"

def singleItem : Json Int := .object [("public_key",.string zeros),("fingerprint",.string zeros),("valid_from",.string "2026-01-01T00:00:00Z")]

def singleKey : ScopeKey := ⟨zeros,"2026-01-01T00:00:00Z",none,none⟩

def zeroScheme : Scheme := ⟨fun _ => List.replicate 32 0,fun _ => List.length_replicate,fun _ _ _ => false⟩

def newYear : Calendar :=
  ⟨fun text => if text = "2026-01-01T00:00:00Z" then some 1767225600 else none,fun _ => "2026-01-01T00:00:00Z"⟩

end Single

end Entorhinal.ScopeTrust
