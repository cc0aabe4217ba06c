import Entorhinal.NameAnswers
import Entorhinal.UserProfile

/-! The profile over whole runs: what is stored always passes the checks of a snapshot, the journal
restores it, and a request is answered once. -/
namespace Entorhinal.UserProfile

open Remote (UserScope UserEntry asI64)
open Consent (reject_ok found_ok)
open Transition (exec exec_reach)

section Checks
variable {F : Type}

theorem trim_trim (text : List Char) : Agents.trim (Agents.trim text) = Agents.trim text := by
  obtain ⟨front,back,split,before,after⟩ := Agents.trim_parts text
  have trimmed := @Agents.trim_surrounded _ (Agents.trim text) _ before after
  rw [← split] at trimmed
  exact trimmed.symm

theorem trim_subset (text : List Char) : Agents.trim text ⊆ text := by
  obtain ⟨front,back,split,_,_⟩ := Agents.trim_parts text
  intro c inside
  rw [split]
  exact List.mem_append_left _ (List.mem_append_right _ inside)

theorem text_fixed {value checked : String} {limit : Nat} (ok : text value limit = .ok checked) :
    text checked limit = .ok checked := by
  unfold text at ok
  split at ok
  next => cases ok
  next clean =>
    dsimp only at ok
    split at ok
    next => cases ok
    next fits =>
      cases ok
      have still : ¬(Agents.trim value.toList).any isForbidden = true := by
        rw [List.any_eq_true] at clean ⊢
        rintro ⟨c,inside,bad⟩
        exact clean ⟨c,trim_subset _ inside,bad⟩
      rw [text,String.toList_ofList,if_neg still]
      dsimp only
      rw [trim_trim,if_neg fits]

theorem checkActor_fixed {actor checked : Option String} (ok : checkActor actor = .ok checked) :
    checkActor checked = .ok checked := by
  cases actor with
  | none => cases ok; rfl
  | some actor =>
    obtain ⟨given,fixed,rfl⟩ := map_ok ok
    rw [checkActor,text_fixed fixed]
    rfl

/-- The values a field may hold. -/
inductive Held (field : String) : Json F → Prop
  | null : Held field .null
  | text (limit : Nat) (value : String) (bounded : limitOf field = .ok (some limit)) (checked : text value limit = .ok value) :
    Held field (.string value)
  | verbosity (value : String) (named : field = "verbosity") (checked : text value 8 = .ok value)
      (known : value ∈ verbosities) : Held field (.string value)
  | savviness (n : Int) (named : field = "computer_savviness") (bounds : 1 ≤ n ∧ n ≤ 3) :
    Held field (Consent.jsonInt n)

theorem jsonInt_of {value : Json F} {n : Int} (read : asI64 value = some n) (bounds : 1 ≤ n ∧ n ≤ 3) :
    value = Consent.jsonInt n := by
  unfold asI64 at read
  split at read
  next k =>
    split at read
    next =>
      cases read
      rw [Consent.jsonInt,if_pos (Int.natCast_nonneg _)]
      simp
    next => cases read
  next k =>
    cases read
    have := bounds.1
    omega
  next => cases read

theorem asI64_jsonInt {n : Int} (bounds : 1 ≤ n ∧ n ≤ 3) : asI64 (Consent.jsonInt n : Json F) = some n := by
  have known : n = 1 ∨ n = 2 ∨ n = 3 := by omega
  rcases known with rfl | rfl | rfl <;> rfl

/-- Where a field may be set. -/
structure Placed (field : String) (scope : Option UserScope) : Prop where
  known : ∃ limit, limitOf field = .ok limit
  expertise : (field == "expertise") = scope.isSome
  kind : ∀ s, scope = some s → s.kind = "workspace" ∨ s.kind = "project"

theorem normalize_ok {field : String} {value checked : Json F} {scope : Option UserScope}
    (ok : normalize field value scope = .ok checked) : Placed field scope ∧ Held field checked := by
  obtain ⟨limit,known,ok⟩ := bind_ok ok
  obtain ⟨_,expertise,ok⟩ := bind_ok ok
  obtain ⟨_,kind,ok⟩ := bind_ok ok
  refine ⟨⟨⟨limit,known⟩,bne_eq_false_iff_eq.mp (reject_ok expertise),?_⟩,?_⟩
  · rintro s rfl
    have kind := reject_ok kind
    by_contra neither
    rw [not_or] at neither
    simp [neither] at kind
  · split at ok
    next => cases ok; exact .null
    next =>
      cases limit with
      | some limit =>
        obtain ⟨raw,_,ok⟩ := bind_ok ok
        obtain ⟨text,fits,ok⟩ := bind_ok ok
        cases ok
        exact .text limit _ known (text_fixed fits)
      | none =>
        dsimp only at ok
        split at ok
        next number =>
          cases ok
          obtain ⟨n,read,bounds⟩ := (Option.any_eq_true _ _).mp number.2
          have bounds := of_decide_eq_true bounds
          rw [jsonInt_of read bounds]
          exact .savviness n number.1 bounds
        next =>
          split at ok
          next named =>
            obtain ⟨raw,_,ok⟩ := bind_ok ok
            obtain ⟨checked,fits,ok⟩ := bind_ok ok
            split at ok
            next inside =>
              cases ok
              exact .verbosity _ named (text_fixed fits) (List.contains_iff_mem.mp inside)
            next => cases ok
          next => cases ok

theorem normalize_held {field : String} {value : Json F} {scope : Option UserScope} (placed : Placed field scope)
    (held : Held field value) : normalize field value scope = .ok value := by
  obtain ⟨⟨limit,known⟩,expertise,kind⟩ := placed
  have kinds : (scope.any fun s => s.kind != "workspace" && s.kind != "project") = false := by
    cases scope with
    | none => rfl
    | some s =>
      rcases kind s rfl with same | same <;> simp [same]
  rw [normalize,known]
  show (Consent.reject _ _ ((field == "expertise") != scope.isSome) >>= _) = _
  rw [bne_eq_false_iff_eq.mpr expertise]
  show (Consent.reject _ _ (scope.any fun s => s.kind != "workspace" && s.kind != "project") >>= _) = _
  rw [kinds]
  show (if value.isNull = true then _ else _) = _
  cases held with
  | null => rfl
  | text limit' value bounded checked =>
    cases known.symm.trans bounded
    show normalizeText (.string value) limit' = _
    rw [normalizeText]
    show (do return .string (← text value limit') : Except AgentMutationError (Json F)) = _
    rw [checked]
    rfl
  | verbosity value named checked inside =>
    subst named
    cases known
    show normalizeVerbosity (.string value) = _
    rw [normalizeVerbosity]
    show (text value 8 >>= _) = _
    rw [checked]
    show (if verbosities.contains value = true then _ else _) = _
    rw [if_pos (List.contains_iff_mem.mpr inside)]
    rfl
  | savviness n named bounds =>
    subst named
    cases known
    have given : (asI64 (Consent.jsonInt n : Json F)).any (fun n => decide (1 ≤ n ∧ n ≤ 3)) = true := by
      rw [asI64_jsonInt bounds]
      exact decide_eq_true bounds
    show (if "computer_savviness" = "computer_savviness" ∧
      (asI64 (Consent.jsonInt n : Json F)).any (fun n => decide (1 ≤ n ∧ n ≤ 3)) = true then _ else _) = _
    rw [if_pos ⟨rfl,given⟩]
    rfl

theorem normalize_fixed {field : String} {value checked : Json F} {scope : Option UserScope}
    (ok : normalize field value scope = .ok checked) : normalize field checked scope = .ok checked := by
  obtain ⟨placed,held⟩ := normalize_ok ok
  exact normalize_held placed held

/-- A change that was normalized once is so already, and its entry is accepted wherever its scope is known. -/
theorem normalized_accepted [DecidableEq F] {request checked : UserSetRequest F} (ok : request.normalized = .ok checked)
    (tables : Registry.Tables) (principal : String) :
    checked.normalized = .ok checked ∧
    validate tables (checked.entry principal) = (checked.scope.map (scopeExists tables)).getD (.ok ()) := by
  obtain ⟨_,key,ok⟩ := bind_ok ok
  obtain ⟨value,valued,ok⟩ := bind_ok ok
  obtain ⟨actor,acted,ok⟩ := bind_ok ok
  cases ok
  have valued := normalize_fixed valued
  have acted := checkActor_fixed acted
  constructor
  · rw [UserSetRequest.normalized]
    dsimp only
    rw [key,valued,acted]
    rfl
  · rw [validate,UserSetRequest.entry]
    dsimp only
    rw [valued,acted]
    simp only [bind,Except.bind,bne_self_eq_false,Consent.reject,Bool.false_eq_true,if_false]
    cases request.scope <;> rfl

end Checks

section Stored
variable {F : Type}

/-- What the projection always is: the profile is absent or holds something, and every value passes its check. -/
structure Valid (F : Type) (p : Projection) : Prop where
  present : p.profile ≠ some .empty
  fields : ∀ profile, p.profile = some profile → ∀ f ∈ columns (F := F) profile, normalize f.1 f.2 none = .ok f.2
  savviness : ∀ profile n, p.profile = some profile → profile.computerSavviness = some n → 1 ≤ n ∧ n ≤ 3
  expertise : ∀ scope text, p.expertise.get? (UserScope.key scope) = some text → scopeExists p.tables scope = .ok () ∧
    normalize "expertise" (.string text : Json F) (some scope) = .ok (.string text)

theorem Valid.start (tables : Registry.Tables) : Valid F (.start tables) where
  present := by intro same; cases same
  fields := by intro profile same; cases same
  savviness := by intro profile n same; cases same
  expertise := by intro scope text here; cases here

theorem mem_column {field : String} {value : Option (Json F)} {f : String × Json F} :
    f ∈ column field value ↔ f.1 = field ∧ value = some f.2 := by
  obtain ⟨name,held⟩ := f
  cases value with
  | none => simp [column]
  | some value => simp [column,eq_comm]

theorem mem_columns {profile : Profile} {f : String × Json F} : f ∈ columns profile ↔
    (f.1 = "name" ∧ profile.name.map .string = some f.2) ∨
    (f.1 = "address_as" ∧ profile.addressAs.map .string = some f.2) ∨
    (f.1 = "pronouns" ∧ profile.pronouns.map .string = some f.2) ∨
    (f.1 = "computer_savviness" ∧ profile.computerSavviness.map Consent.jsonInt = some f.2) ∨
    (f.1 = "verbosity" ∧ profile.verbosity.map .string = some f.2) := by
  simp only [columns,List.mem_append,mem_column,or_assoc]

theorem string_of {value : Json F} {text : String} (read : value.asStr = some text) : value = .string text := by
  cases value with
  | string t => cases read; rfl
  | _ => cases read

/-- A change of one column leaves the others, and writes a value that is not null. -/
theorem columns_set {profile : Profile} {field : String} {value : Json F} {f : String × Json F}
    (held : Held field value) (inside : f ∈ columns (profile.set field value)) :
    f = (field,value) ∨ f ∈ columns profile := by
  have text : value.asStr.map Json.string = some f.2 → f.2 = value := by
    intro read
    obtain ⟨text,read,same⟩ := Option.map_eq_some_iff.mp read
    rw [string_of read,← same]
  have number : (asI64 value).map Consent.jsonInt = some f.2 → f.2 = value := by
    intro read
    obtain ⟨n,read,same⟩ := Option.map_eq_some_iff.mp read
    cases held with
    | savviness m named bounds =>
      rw [asI64_jsonInt bounds] at read
      cases read
      exact same.symm
    | _ => cases read
  rw [mem_columns] at inside ⊢
  unfold Profile.set at inside
  split_ifs at inside with name address pronouns savviness verbosity
  · rcases inside with ⟨column,read⟩ | rest
    · exact .inl (Prod.ext (column.trans name.symm) (text read))
    · exact .inr (.inr rest)
  · rcases inside with first | ⟨column,read⟩ | rest
    · exact .inr (.inl first)
    · exact .inl (Prod.ext (column.trans address.symm) (text read))
    · exact .inr (.inr (.inr rest))
  · rcases inside with first | second | ⟨column,read⟩ | rest
    · exact .inr (.inl first)
    · exact .inr (.inr (.inl second))
    · exact .inl (Prod.ext (column.trans pronouns.symm) (text read))
    · exact .inr (.inr (.inr (.inr rest)))
  · rcases inside with first | second | third | ⟨column,read⟩ | rest
    · exact .inr (.inl first)
    · exact .inr (.inr (.inl second))
    · exact .inr (.inr (.inr (.inl third)))
    · exact .inl (Prod.ext (column.trans savviness.symm) (number read))
    · exact .inr (.inr (.inr (.inr (.inr rest))))
  · rcases inside with first | second | third | fourth | ⟨column,read⟩
    · exact .inr (.inl first)
    · exact .inr (.inr (.inl second))
    · exact .inr (.inr (.inr (.inl third)))
    · exact .inr (.inr (.inr (.inr (.inl fourth))))
    · exact .inl (Prod.ext (column.trans verbosity.symm) (text read))
  · exact .inr inside

theorem savviness_set {profile : Profile} {field : String} {value : Json F} {n : Int} (held : Held field value)
    (is : (profile.set field value).computerSavviness = some n) :
    (1 ≤ n ∧ n ≤ 3) ∨ profile.computerSavviness = some n := by
  unfold Profile.set at is
  split_ifs at is
  · exact .inr is
  · exact .inr is
  · exact .inr is
  · cases held with
    | savviness m named bounds =>
      cases (asI64_jsonInt bounds).symm.trans is
      exact .inl bounds
    | _ => cases is
  · exact .inr is
  · exact .inr is

theorem keep_some {profile kept : Profile} (same : keep profile = some kept) : kept = profile ∧ profile ≠ .empty := by
  unfold keep at same
  split at same
  next => cases same
  next full => cases same; exact ⟨rfl,full⟩

theorem validate_ok [DecidableEq F] {tables : Registry.Tables} {entry : UserEntry F} {done : Unit}
    (ok : validate tables entry = .ok done) : Placed entry.field entry.scope ∧ Held entry.field entry.value ∧
      normalize entry.field entry.value entry.scope = .ok entry.value ∧
      ∀ scope, entry.scope = some scope → scopeExists tables scope = .ok () := by
  obtain ⟨_,_,ok⟩ := bind_ok ok
  obtain ⟨value,normal,ok⟩ := bind_ok ok
  obtain ⟨_,same,ok⟩ := bind_ok ok
  obtain ⟨actor,_,ok⟩ := bind_ok ok
  obtain ⟨_,_,last⟩ := bind_ok ok
  cases bne_eq_false_iff_eq.mp (reject_ok same)
  obtain ⟨placed,held⟩ := normalize_ok normal
  refine ⟨placed,held,normal,?_⟩
  intro scope named
  rw [named] at last
  exact last

theorem UserScope.key_injective {a b : UserScope} (same : UserScope.key a = UserScope.key b) : a = b := by
  cases a
  cases b
  simp only [UserScope.key,EmbeddingLike.apply_eq_iff_eq,Prod.mk.injEq] at same
  obtain ⟨rfl,rfl⟩ := same
  rfl

theorem Valid.restore [DecidableEq F] {p p' : Projection} {entry : UserEntry F} (valid : Valid F p)
    (ok : restore p entry = .ok p') : Valid F p' := by
  obtain ⟨_,accepted,ok⟩ := bind_ok ok
  cases ok
  obtain ⟨placed,held,normal,exists'⟩ := validate_ok accepted
  unfold write
  split
  next scope named =>
    have field : entry.field = "expertise" := by
      have expertise := placed.expertise
      rw [named] at expertise
      exact beq_iff_eq.mp expertise
    split
    next text read =>
      refine ⟨valid.present,valid.fields,valid.savviness,?_⟩
      intro other stored here
      rw [Table.get?_insert] at here
      split at here
      next same =>
        cases here
        cases UserScope.key_injective same
        rw [field,named,string_of read] at normal
        exact ⟨exists' scope named,normal⟩
      next => exact valid.expertise other stored here
    next =>
      refine ⟨valid.present,valid.fields,valid.savviness,?_⟩
      intro other stored here
      rw [Table.get?_erase] at here
      split at here
      next => cases here
      next => exact valid.expertise other stored here
  next unscoped =>
    refine ⟨?_,?_,?_,valid.expertise⟩
    · intro empty
      exact (keep_some empty).2 (keep_some empty).1.symm
    · intro profile kept f inside
      rw [(keep_some kept).1] at inside
      rcases columns_set held inside with rfl | old
      · rw [unscoped] at normal
        exact normal
      · cases stored : p.profile with
        | none =>
          rw [stored] at old
          cases old
        | some profile' =>
          rw [stored] at old
          exact valid.fields profile' stored f old
    · intro profile n kept is
      rw [(keep_some kept).1] at is
      rcases savviness_set held is with bounds | old
      · exact bounds
      · cases stored : p.profile with
        | none =>
          rw [stored] at old
          cases old
        | some profile' =>
          rw [stored] at old
          exact valid.savviness profile' n stored old

theorem scopeExists_ok {tables : Registry.Tables} {scope : UserScope} (ok : scopeExists tables scope = .ok ()) :
    (scope.kind = "workspace" ∧ tables.workspaces.has scope.id = true) ∨
    (scope.kind = "project" ∧ "pj-implicit".toList.isPrefixOf scope.id.toList = false ∧
      tables.projects.has scope.id = true) := by
  have known := reject_ok ok
  rw [Bool.not_eq_false'] at known
  split_ifs at known with workspace project
  · exact .inl ⟨workspace,known⟩
  · exact .inr ⟨project.1,project.2,known⟩

theorem kept_of {before after : Table String ρ} {gone : List String} {id : String}
    (deleted : before.keys.all (fun id => after.has id || gone.contains id) = true) (there : before.has id = true)
    (stays : gone.contains id = false) : after.has id = true := by
  have kept := List.all_eq_true.mp deleted id (Table.mem_keys.mpr there)
  rw [stays,Bool.or_false] at kept
  exact kept

theorem Valid.cascade {p : Projection} {deleted : Deleted} {tables : Registry.Tables} (valid : Valid F p)
    (gone : deletes deleted p.tables tables = true) : Valid F (cascade deleted tables p) := by
  refine ⟨valid.present,valid.fields,valid.savviness,?_⟩
  intro scope text here
  obtain ⟨projects,workspaces⟩ := Bool.and_eq_true_iff.mp gone
  replace here : (p.expertise.filter _).get? _ = some text := here
  rw [Table.get?_filter] at here
  obtain ⟨here,stays⟩ := Option.filter_eq_some_iff.mp here
  obtain ⟨known,normal⟩ := valid.expertise scope text here
  refine ⟨?_,normal⟩
  simp only [UserScope.key,ofLex_toLex,Bool.and_eq_true,Bool.not_eq_true',Bool.and_eq_false_iff,beq_eq_false_iff_ne] at stays
  have after : (if scope.kind = "workspace" then tables.workspaces.has scope.id
      else if scope.kind = "project" ∧ "pj-implicit".toList.isPrefixOf scope.id.toList = false then
        tables.projects.has scope.id
      else false) = true := by
    rcases scopeExists_ok known with ⟨kind,there⟩ | ⟨kind,named,there⟩
    · rw [if_pos kind]
      exact kept_of workspaces there (stays.2.resolve_left fun other => other kind)
    · rw [if_neg (by rw [kind]; decide),if_pos ⟨kind,named⟩]
      exact kept_of projects there (stays.1.resolve_left fun other => other kind)
  show scopeExists tables scope = .ok ()
  rw [scopeExists,after]
  rfl

theorem userJson_field {profile : Profile} {field : String} {value : Option (Json F)}
    (column : ∀ v, (field,v) ∈ columns profile ↔ value = some v) : (userJson profile).field field = value.getD .null := by
  rw [userJson,Json.field_objectOf]
  cases found : (columns (F := F) profile).reverse.find? (·.1 == field) with
  | none =>
    cases value with
    | none => rfl
    | some v =>
      have inside := (column v).mpr rfl
      exact absurd (beq_self_eq_true field) (by simpa using List.find?_eq_none.mp found (field,v) (List.mem_reverse.mpr inside))
  | some f =>
    obtain ⟨name,v⟩ := f
    have named := List.find?_some found
    rw [beq_iff_eq] at named
    cases named
    rw [(column v).mp (List.mem_reverse.mp (List.mem_of_find?_eq_some found))]
    rfl

theorem string_inj {a b : Option String} (same : (a.map Json.string).getD (.null : Json F) = (b.map .string).getD .null) :
    a = b := by
  cases a <;> cases b <;> simp_all

theorem userJson_inj {a b : Profile} (same : userJson (F := F) a = userJson b)
    (bounds : ∀ n, a.computerSavviness = some n ∨ b.computerSavviness = some n → 1 ≤ n ∧ n ≤ 3) : a = b := by
  have text : ∀ (field : String) (get : Profile → Option String),
      (∀ profile v, (field,v) ∈ columns (F := F) profile ↔ (get profile).map .string = some v) → get a = get b := by
    intro field get column
    have fields := congrArg (·.field field) same
    simp only [userJson_field (column a),userJson_field (column b)] at fields
    exact string_inj fields
  have number : a.computerSavviness = b.computerSavviness := by
    have column : ∀ profile v, ("computer_savviness",v) ∈ columns (F := F) profile ↔
        profile.computerSavviness.map Consent.jsonInt = some v := by
      intro profile v
      simp [mem_columns]
    have fields := congrArg (·.field "computer_savviness") same
    simp only [userJson_field (column a),userJson_field (column b)] at fields
    cases first : a.computerSavviness with
    | none =>
      cases second : b.computerSavviness with
      | none => rfl
      | some m =>
        rw [first,second] at fields
        cases fields
    | some n =>
      cases second : b.computerSavviness with
      | none =>
        rw [first,second] at fields
        cases fields
      | some m =>
        rw [first,second] at fields
        have read := congrArg asI64 fields
        simp only [Option.map_some,Option.getD_some,asI64_jsonInt (bounds n (.inl first)),
          asI64_jsonInt (bounds m (.inr second))] at read
        exact read
  have name : a.name = b.name := text "name" Profile.name fun profile v => by simp [mem_columns]
  have address : a.addressAs = b.addressAs := text "address_as" Profile.addressAs fun profile v => by simp [mem_columns]
  have pronouns : a.pronouns = b.pronouns := text "pronouns" Profile.pronouns fun profile v => by simp [mem_columns]
  have verbosity : a.verbosity = b.verbosity := text "verbosity" Profile.verbosity fun profile v => by simp [mem_columns]
  cases a
  cases b
  simp only [Profile.mk.injEq]
  exact ⟨name,address,pronouns,number,verbosity⟩

theorem expertiseJson_injective : Function.Injective (expertiseJson (F := F)) := by
  rintro ⟨key,text⟩ ⟨key',text'⟩ same
  have texts := congrArg (·.field "text") same
  have kinds := congrArg (fun v => (v.field "scope").field "kind") same
  have ids := congrArg (fun v => (v.field "scope").field "id") same
  simp only [expertiseJson,Json.field_objectOf] at texts kinds ids
  cases texts
  have kinds : Json.string (F := F) (ofLex key).1 = .string (ofLex key').1 := by
    simpa [Json.field_objectOf] using kinds
  have ids : Json.string (F := F) (ofLex key).2 = .string (ofLex key').2 := by
    simpa [Json.field_objectOf] using ids
  have keys : key = key' := ofLex_inj.mp (Prod.ext (Json.string.inj kinds) (Json.string.inj ids))
  rw [keys]

theorem mem_ordered {expertise : Table (String ×ₗ String) String} {row : (String ×ₗ String) × String} :
    row ∈ ordered expertise ↔ row ∈ expertise.rows := by
  simp only [ordered,List.mem_append,List.mem_filter]
  by_cases first : (ofLex row.1).1 = "workspace" <;> simp [first]

/-- Two sound projections that read the same are the same but for the registry. -/
theorem record_inj {p p' : Projection} (valid : Valid F p) (valid' : Valid F p') (same : record (F := F) p = record p') :
    p.profile = p'.profile ∧ p.expertise = p'.expertise := by
  have users := congrArg (·.field "user") same
  have lists := congrArg (·.field "expertise") same
  simp only [record,Json.field_objectOf] at users lists
  have users : userJson (F := F) (p.profile.getD .empty) = userJson (p'.profile.getD .empty) := users
  have orders : ordered p.expertise = ordered p'.expertise :=
    List.map_injective_iff.mpr expertiseJson_injective (Json.array.inj lists)
  have bounded : ∀ {p : Projection} {n : Int}, Valid F p → (p.profile.getD .empty).computerSavviness = some n → 1 ≤ n ∧ n ≤ 3 := by
    intro p n valid is
    cases stored : p.profile with
    | none => rw [stored] at is; cases is
    | some profile => rw [stored] at is; exact valid.savviness profile n stored is
  have profiles := userJson_inj users fun n is => is.elim (bounded valid) (bounded valid')
  constructor
  · cases first : p.profile with
    | none =>
      cases second : p'.profile with
      | none => rfl
      | some profile =>
        rw [first,second] at profiles
        exact absurd (second.trans (congrArg some profiles.symm)) valid'.present
    | some profile =>
      cases second : p'.profile with
      | none =>
        rw [first,second] at profiles
        exact absurd (first.trans (congrArg some profiles)) valid.present
      | some profile' =>
        rw [first,second] at profiles
        exact congrArg some profiles
  · ext key text
    rw [← Table.mem_rows,← Table.mem_rows,← mem_ordered,← mem_ordered,orders]

end Stored

section Runs
variable {F : Type} [DecidableEq F] [Json.Doubles F] {site : Site F}

omit [DecidableEq F] [Json.Doubles F] in
theorem normalized_key {request checked : UserSetRequest F} (normal : request.normalized = .ok checked) :
    checked.requestKey = request.requestKey := by
  obtain ⟨_,_,made⟩ := bind_ok normal
  obtain ⟨_,_,made⟩ := bind_ok made
  obtain ⟨_,_,made⟩ := bind_ok made
  cases made
  rfl

/-- An accepted request stores what its journal row restores; without a row it stores what was there. -/
theorem userSet_cases {principal : String} {request : UserSetRequest F} {now : Int} {approval : Option String} {s : Store F}
    {done : Done F} (ok : userSet site principal request now approval s = .ok done) :
    ∃ checked, request.normalized = .ok checked ∧ checked.requestKey = request.requestKey ∧
    ((∃ row, s.requests.get? request.requestKey = some row ∧ row.1 = site.body request ∧ done = ⟨row.2,s,none⟩) ∨
     (s.requests.get? request.requestKey = none ∧ ∃ p, restore s.projection (checked.entry principal) = .ok p ∧
        done.store = ⟨p,s.requests.insert request.requestKey (site.body request,done.value)⟩ ∧
        done.row = if record (F := F) s.projection ≠ record p then
          some (.user (checked.entry principal) (checked.actor.getD "user") now) else none)) := by
  obtain ⟨checked,normal,ok⟩ := bind_ok ok
  have named := normalized_key normal
  refine ⟨checked,normal,named,?_⟩
  obtain ⟨answer,seen,ok⟩ := bind_ok ok
  rw [cached,named] at seen
  split at seen
  next row here =>
    obtain ⟨_,same,seen⟩ := bind_ok seen
    cases seen
    cases ok
    exact .inl ⟨row,here,bne_eq_false_iff_eq.mp (reject_ok same),rfl⟩
  next absent =>
    cases seen
    obtain ⟨_,_,ok⟩ := bind_ok ok
    obtain ⟨_,_,ok⟩ := bind_ok ok
    obtain ⟨p,restored,ok⟩ := bind_ok ok
    obtain ⟨value,_,ok⟩ := bind_ok ok
    cases ok
    rw [named]
    exact .inr ⟨absent,p,restored,rfl,rfl⟩

omit [Json.Doubles F] in
theorem restore_tables {p p' : Projection} {entry : UserEntry F} (ok : restore p entry = .ok p') : p'.tables = p.tables := by
  obtain ⟨_,_,ok⟩ := bind_ok ok
  cases ok
  unfold write
  split
  next => split <;> rfl
  next => rfl

/-- What every run keeps. -/
structure Kept (tables : Registry.Tables) (w : World F) : Prop where
  valid : Valid F w.store.projection
  replays : replayAll (.start tables) w.journal = .ok w.store.projection

omit [Json.Doubles F] in
theorem replayAll_append {p p' : Projection} {journal : List (Row F)} {row : Row F} (before : replayAll p journal = .ok p') :
    replayAll p (journal ++ [row]) = row.apply p' := by
  rw [replayAll,List.foldlM_append]
  rw [replayAll] at before
  rw [before]
  show (row.apply p' >>= pure) = _
  cases row.apply p' <;> rfl

theorem Kept.step {tables : Registry.Tables} {w w' : World F} {label : Label F} (kept : Kept tables w)
    (taken : next site w label = some w') : Kept tables w' := by
  cases label with
  | set principal request now approval =>
    simp only [next] at taken
    split at taken
    next done ok =>
      cases taken
      obtain ⟨checked,_,_,⟨row,_,_,rfl⟩ | ⟨_,p,restored,stored,row⟩⟩ := userSet_cases ok
      · rw [Option.toList_none,List.append_nil]
        exact kept
      · have valid := kept.valid.restore restored
        have same : done.store.projection = p := by rw [stored]
        refine ⟨by rw [same]; exact valid,?_⟩
        show replayAll _ (w.journal ++ done.row.toList) = .ok done.store.projection
        rw [same,row]
        split
        next => exact (replayAll_append kept.replays).trans restored
        next unchanged =>
          rw [not_not] at unchanged
          obtain ⟨profile,expertise⟩ := record_inj kept.valid valid unchanged
          have still : w.store.projection = p := by
            have tables := restore_tables restored
            cases p
            cases held : w.store.projection
            rw [held] at profile expertise tables
            cases profile
            cases expertise
            cases tables
            rfl
          rw [Option.toList_none,List.append_nil,← still]
          exact kept.replays
    next => cases taken; exact kept
  | remote entry now =>
    simp only [next] at taken
    split at taken
    next p restored =>
      cases taken
      exact ⟨kept.valid.restore restored,(replayAll_append kept.replays).trans restored⟩
    next => cases taken; exact kept
  | elsewhere deleted tables' =>
    simp only [next] at taken
    split at taken
    next gone =>
      cases taken
      exact ⟨kept.valid.cascade gone,replayAll_append kept.replays⟩
    next => cases taken

abbrev Reached (site : Site F) (tables : Registry.Tables) (w : World F) : Prop :=
  Transition.Reach (next site) Transition.Free (World.start tables) w

theorem reached_kept {tables : Registry.Tables} {w : World F} (reached : Reached site tables w) : Kept tables w :=
  reached.invariant (Kept tables) ⟨.start tables,rfl⟩ fun _ _ _ kept _ taken => kept.step taken

/-- The journal of a machine restores its profile, row by row. -/
theorem journal_restores {tables : Registry.Tables} {w : World F} (reached : Reached site tables w) :
    replayAll (.start tables) w.journal = .ok w.store.projection := (reached_kept reached).replays

section Snapshots

omit [Json.Doubles F] [DecidableEq F] in
theorem mem_members {fields : List (String × Json F)} {f : String × Json F}
    (inside : f ∈ (Json.objectOf fields).members.getD []) : f ∈ fields := by
  suffices folded : ∀ rest built : List (String × Json F), ∃ all : List (String × Json F),
      rest.foldl (fun (built : Json F) f => built.set f.1 f.2) (.object built) = .object all ∧
      ∀ f ∈ all, f ∈ built ∨ f ∈ rest by
    obtain ⟨all,written,known⟩ := folded fields []
    rw [Json.objectOf,written] at inside
    exact (known f inside).resolve_left List.not_mem_nil
  intro rest
  induction rest with
  | nil => exact fun built => ⟨built,rfl,fun f inside => .inl inside⟩
  | cons first rest ih =>
    intro built
    obtain ⟨all,written,known⟩ := ih (Table.insertRow first.1 first.2 built)
    refine ⟨all,written,fun f inside => ?_⟩
    rcases known f inside with old | later
    · rcases Table.insertRow_mem old with rfl | old
      · exact .inr List.mem_cons_self
      · exact .inl old
    · exact .inr (List.mem_cons_of_mem _ later)

omit [Json.Doubles F] [DecidableEq F] in
theorem forM_ok {α ε : Type} {items : List α} {check : α → Except ε Unit} (all : ∀ a ∈ items, check a = .ok ()) :
    items.forM check = .ok () := by
  induction items with
  | nil => rfl
  | cons a rest ih =>
    show (check a >>= fun _ => rest.forM check) = _
    rw [all a List.mem_cons_self]
    exact ih fun b inside => all b (List.mem_cons_of_mem _ inside)

omit [Json.Doubles F] [DecidableEq F] in
theorem ok_bind {α β ε : Type} {first : Except ε α} {a : α} {next : α → Except ε β} (is : first = .ok a) :
    (first >>= next) = next a := by
  rw [is]
  rfl

omit [Json.Doubles F] in
theorem Valid.checked {p : Projection} (valid : Valid F p) : validateProjection (F := F) p = .ok () := by
  have present : (p.profile == some .empty) = false := beq_eq_false_iff_ne.mpr valid.present
  have fields : ∀ f ∈ (userJson (F := F) (p.profile.getD .empty)).members.getD [],
      (do
        let value ← normalize f.1 f.2 none
        Consent.reject "invalid_value" "untrimmed user field" (value != f.2) : Except AgentMutationError Unit) = .ok () := by
    intro f inside
    have inside := mem_members inside
    have normal : normalize f.1 f.2 none = .ok f.2 := by
      cases stored : p.profile with
      | none => rw [stored] at inside; cases inside
      | some profile => rw [stored] at inside; exact valid.fields profile stored f inside
    rw [normal]
    show Consent.reject _ _ (f.2 != f.2) = _
    rw [bne_self_eq_false]
    rfl
  have texts : ∀ row ∈ ordered p.expertise,
      (do
        scopeExists p.tables ⟨(ofLex row.1).1,(ofLex row.1).2⟩
        let value ← normalize (F := F) "expertise" (.string row.2) (some ⟨(ofLex row.1).1,(ofLex row.1).2⟩)
        Consent.reject "invalid_value" "untrimmed expertise" (value != .string row.2) : Except AgentMutationError Unit) =
        .ok () := by
    intro row inside
    have here := Table.mem_rows.mp (mem_ordered.mp inside)
    obtain ⟨known,normal⟩ := valid.expertise ⟨(ofLex row.1).1,(ofLex row.1).2⟩ row.2 here
    rw [known,normal]
    show Consent.reject _ _ (Json.string row.2 != .string row.2) = _
    rw [bne_self_eq_false]
    rfl
  rw [validateProjection,present]
  exact (ok_bind rfl).trans ((ok_bind (forM_ok fields)).trans (forM_ok texts))

/-- Whatever is stored passes the checks that a snapshot of it meets. -/
theorem projection_checked {tables : Registry.Tables} {w : World F} (reached : Reached site tables w) :
    validateProjection (F := F) w.store.projection = .ok () := (reached_kept reached).valid.checked

end Snapshots

section Requests

theorem requests_grow {w w' : World F} (later : Transition.Reach (next site) Transition.Free w w') {key : String}
    {row : String × Json F} (here : w.store.requests.get? key = some row) : w'.store.requests.get? key = some row := by
  refine later.invariant (fun w' => w'.store.requests.get? key = some row) here ?_
  intro middle label last here _ taken
  cases label with
  | set principal request now approval =>
    simp only [next] at taken
    split at taken
    next done ok =>
      cases taken
      obtain ⟨_,_,_,⟨_,_,_,rfl⟩ | ⟨absent,_,_,stored,_⟩⟩ := userSet_cases ok
      · exact here
      · show done.store.requests.get? key = some row
        rw [stored,Table.get?_insert,if_neg]
        · exact here
        · rintro rfl
          cases here.symm.trans absent
    next => cases taken; exact here
  | remote entry now =>
    simp only [next] at taken
    split at taken <;> cases taken <;> exact here
  | elsewhere deleted tables =>
    simp only [next] at taken
    split at taken
    next => cases taken; exact here
    next => cases taken

theorem userSet_seen {s : Store F} {principal : String} {request checked : UserSetRequest F} {now : Int}
    {approval : Option String} {row : String × Json F} (normal : request.normalized = .ok checked)
    (here : s.requests.get? request.requestKey = some row) :
    userSet site principal request now approval s = if row.1 = site.body request then .ok ⟨row.2,s,none⟩
      else .error ⟨"request_key_reused","request key has a different body",[]⟩ := by
  have named := normalized_key normal
  have seen : cached s checked (site.body request) = if row.1 = site.body request then .ok (some row.2)
      else .error ⟨"request_key_reused","request key has a different body",[]⟩ := by
    rw [cached,named,here]
    by_cases same : row.1 = site.body request
    · simp only [if_pos same,bne_eq_false_iff_eq.mpr same]
      rfl
    · simp only [if_neg same,bne_iff_ne.mpr same]
      rfl
  rw [userSet,normal]
  show (cached s checked (site.body request) >>= _) = _
  rw [seen]
  split <;> rfl

/-- Once a request was answered its key belongs to it: the same body is answered the same and changes
nothing, whoever sends it and whatever happened since, and another body is refused. -/
theorem request_answered_once {w w' w'' : World F} {principal : String} {request : UserSetRequest F} {now : Int}
    {approval : Option String} {done : Done F} (answered : userSet site principal request now approval w.store = .ok done)
    (taken : next site w (.set principal request now approval) = some w')
    (later : Transition.Reach (next site) Transition.Free w' w'') :
    (∀ principal' now' approval', userSet site principal' request now' approval' w''.store = .ok ⟨done.value,w''.store,none⟩) ∧
    ∀ principal' other now' approval' checked, other.requestKey = request.requestKey → other.normalized = .ok checked →
      site.body other ≠ site.body request → userSet site principal' other now' approval' w''.store =
        .error ⟨"request_key_reused","request key has a different body",[]⟩ := by
  obtain ⟨checked,normal,_,cases'⟩ := userSet_cases answered
  have stored : w'.store.requests.get? request.requestKey = some (site.body request,done.value) := by
    simp only [next,answered,Option.some.injEq] at taken
    subst taken
    obtain ⟨⟨body,value⟩,here,rfl,rfl⟩ | ⟨_,p,_,store,_⟩ := cases'
    · exact here
    · show done.store.requests.get? _ = _
      rw [store,Table.get?_insert,if_pos rfl]
  have here := requests_grow later stored
  constructor
  · intro principal' now' approval'
    rw [userSet_seen normal here,if_pos rfl]
  · intro principal' other now' approval' checked' named normal' differs
    rw [userSet_seen normal' (by rw [named]; exact here),if_neg (Ne.symm differs)]

end Requests

end Runs

/-! A name is set, and an expertise in a workspace that is deleted later. -/
namespace Ada

def site : Site Empty :=
  ⟨fun _ => "\x7b\x22field\x22:\x22name\x22,\x22value\x22:\x22 Ada \x22,\x22request_key\x22:\x22k1\x22\x7d",
    fun _ => "1b0ab4002178bacf19d92163582d260887f1b715c5e4cfa55fb28ebd1da83592"⟩

def tables : Registry.Tables := { Registry.Tables.empty with workspaces := (∅ : Table String String).insert "ws" "Work" }

def request : UserSetRequest Empty := ⟨"name",.string " Ada ",none,"k1",none⟩

def labels : List (Label Empty) :=
  [.set "core" request 5 none,.remote ⟨SET_OP,"expertise",.string "Lean",some ⟨"workspace","ws"⟩,"direct",none⟩ 6,
    .elsewhere ⟨[],["ws"]⟩ .empty]

theorem name_restored : ∃ w, exec (next site) (World.start tables) labels = some w ∧ w.journal.length = 3 ∧
    replayAll (.start tables) w.journal = .ok w.store.projection := by
  have facts : (exec (next site) (World.start tables) labels).any (fun w => decide (w.journal.length = 3)) = true := by
    decide +kernel
  obtain ⟨w,ran,grown⟩ := (Option.any_eq_true _ _).mp facts
  exact ⟨w,ran,of_decide_eq_true grown,journal_restores (exec_reach ran)⟩

theorem expertise_checked : ∃ w, exec (next site) (World.start tables) (labels.take 2) = some w ∧
    w.store.projection.expertise.size = 1 ∧ validateProjection (F := Empty) w.store.projection = .ok () := by
  have facts : (exec (next site) (World.start tables) (labels.take 2)).any (fun w =>
      decide (w.store.projection.expertise.size = 1)) = true := by decide +kernel
  obtain ⟨w,ran,held⟩ := (Option.any_eq_true _ _).mp facts
  exact ⟨w,ran,of_decide_eq_true held,projection_checked (exec_reach ran)⟩

theorem name_accepted : validate Registry.Tables.empty (UserSetRequest.entry ⟨"name",.string "Ada",none,"k1",none⟩ "core" :
    UserEntry Empty) = .ok () := by
  have normal : request.normalized = .ok ⟨"name",.string "Ada",none,"k1",none⟩ := by decide +kernel
  exact (normalized_accepted normal .empty "core").2

/-- The operator asks again without an approval. -/
theorem asked_again : ∃ done w', userSet site "core" request 5 none (World.start tables).store = .ok done ∧
    next site (.start tables) (.set "core" request 5 none) = some w' ∧
    userSet site "direct" request 9 none w'.store = .ok ⟨done.value,w'.store,none⟩ := by
  have accepted : (userSet site "core" request 5 none (World.start tables).store).toBool = true := by decide +kernel
  cases answered : userSet site "core" request 5 none (World.start tables).store with
  | error e =>
    rw [answered] at accepted
    cases accepted
  | ok done =>
    have taken : next site (.start tables) (.set "core" request 5 none) =
        some ⟨done.store,[] ++ done.row.toList⟩ := by
      simp only [next,answered]
      rfl
    exact ⟨done,_,rfl,taken,(request_answered_once answered taken .refl).1 "direct" 9 none⟩

end Ada

end Entorhinal.UserProfile
