import Entorhinal.NameLookup

/-! What a lookup of a live agent's name answers, and for which names and workspaces. -/
namespace Entorhinal.Agents

section Registered
variable {u : Unicode} {raw : List Char}

/-- Of composition: it is idempotent, a part of a composed text is composed, and it makes no
character that names are refused for. Of folding: it leaves whitespace as it is. -/
structure Unicode.Lawful (u : Unicode) : Prop where
  composed : ∀ text, u.nfc (u.nfc text) = u.nfc text
  part : ∀ front middle back, u.nfc (front ++ middle ++ back) = front ++ middle ++ back → u.nfc middle = middle
  clean : ∀ text, text.any isDisallowedNameCharacter = false → (u.nfc text).any isDisallowedNameCharacter = false
  folded : ∀ c, isUnicodeWhitespace c → u.foldChar c = [c]

theorem trim_surrounded {front text back : List Char} (before : ∀ c ∈ front, isUnicodeWhitespace c)
    (after : ∀ c ∈ back, isUnicodeWhitespace c) : trim (front ++ text ++ back) = trim text := by
  unfold trim
  rw [List.append_assoc,List.dropWhile_append_of_pos before,List.dropWhile_append]
  split_ifs with empty
  · rw [List.isEmpty_iff.mp empty,List.dropWhile_eq_nil_iff.mpr after]
  · rw [List.rdropWhile,List.rdropWhile,List.reverse_append,
      List.dropWhile_append_of_pos fun c member => after c (List.mem_reverse.mp member)]

theorem trim_parts (text : List Char) : ∃ front back, text = front ++ trim text ++ back ∧
    (∀ c ∈ front, isUnicodeWhitespace c) ∧ ∀ c ∈ back, isUnicodeWhitespace c := by
  refine ⟨text.takeWhile isUnicodeWhitespace,
    (text.dropWhile isUnicodeWhitespace).rtakeWhile isUnicodeWhitespace,?_,?_,?_⟩
  · rw [trim,List.append_assoc,List.rdropWhile_append_rtakeWhile,List.takeWhile_append_dropWhile]
  · exact fun c member => List.mem_takeWhile_imp member
  · exact fun c member => List.mem_rtakeWhile_imp member

theorem flatMap_fixed (lawful : u.Lawful) {text : List Char} (spaces : ∀ c ∈ text, isUnicodeWhitespace c) :
    text.flatMap u.foldChar = text := by
  induction text with
  | nil => rfl
  | cons c rest ih =>
    rw [List.flatMap_cons,lawful.folded c (spaces c List.mem_cons_self),
      ih fun d member => spaces d (List.mem_cons_of_mem _ member)]
    rfl

/-- The name the registry stores is one the rules accept again, and it is compared by the same text. -/
theorem stored_accepted (lawful : u.Lawful) {name : NormalizedAgentName} (ok : normalizeAgentName u raw = .ok name) :
    accepted u name.storedName ∧ foldKey u name.storedName = name.normalizedName := by
  by_cases refused : raw.any isDisallowedNameCharacter
  · rw [normalizeAgentName,if_pos refused] at ok
    cases ok
  rw [normalizeAgentName,if_neg refused] at ok
  dsimp only at ok
  by_cases empty : (trim (u.nfc raw)).length = 0 ∨ (trim ((u.nfc raw).flatMap u.foldChar)).length = 0
  · rw [if_pos empty] at ok
    cases ok
  by_cases long : MAX_NAME_SCALARS < (trim (u.nfc raw)).length ∨
      MAX_NAME_SCALARS < (trim ((u.nfc raw).flatMap u.foldChar)).length
  · rw [if_neg empty,if_pos long] at ok
    cases ok
  rw [if_neg empty,if_neg long] at ok
  cases ok
  obtain ⟨front,back,parts,before,after⟩ := trim_parts (u.nfc raw)
  have composed : u.nfc (trim (u.nfc raw)) = trim (u.nfc raw) :=
    lawful.part front (trim (u.nfc raw)) back (by rw [← parts]; exact lawful.composed raw)
  have clean : (trim (u.nfc raw)).any isDisallowedNameCharacter = false := by
    have all := lawful.clean raw (Bool.eq_false_iff.mpr refused)
    rw [parts,List.any_append,List.any_append] at all
    exact (Bool.or_eq_false_iff.mp (Bool.or_eq_false_iff.mp all).1).2
  have same : trim ((trim (u.nfc raw)).flatMap u.foldChar) = trim ((u.nfc raw).flatMap u.foldChar) := by
    conv_rhs => rw [parts,List.flatMap_append,List.flatMap_append,flatMap_fixed lawful before,
      flatMap_fixed lawful after,trim_surrounded before after]
  have fixed : trim (trim (u.nfc raw)) = trim (u.nfc raw) := by
    conv_rhs => rw [parts,trim_surrounded before after]
  refine ⟨?_,by rw [foldKey,composed,same]⟩
  unfold accepted normalizeAgentName
  rw [if_neg (by rw [clean]; exact Bool.false_ne_true)]
  dsimp only
  rw [composed,fixed,same,if_neg empty,if_neg long]
  rfl

/-- A head or a hiree with an active claim in a workspace is scoped there. -/
theorem scopeWorkspace_claimed {store : AgentStore} {row : AgentRow} {claim : NameClaim}
    (role : row.role = "head" ∨ row.role = "hiree")
    (active : ((store.claims.get? row.agentId).getD []).find? (fun claim => claim.releasedAtMs.isNone) = some claim)
    (kind : claim.namespaceKind = "workspace") : scopeWorkspace store row = some claim.namespaceKey := by
  rw [scopeWorkspace,if_pos role]
  dsimp only
  rw [active,Option.some_or,Option.filter_some,if_pos (by rw [kind]; rfl)]

end Registered

section Answers
variable {u : Unicode} {store : AgentStore} {request : NameRequest} {reply : NameReply}

/-- Every live agent's name is one the rules accept. -/
def Named (u : Unicode) (store : AgentStore) : Prop := ∀ row ∈ live store, accepted u row.name.toList

/-- Every live agent of the name is in a workspace whose id the rules for names accept. -/
def Scoped (u : Unicode) (store : AgentStore) (name : List Char) : Prop :=
  ∀ one ∈ namesakes u store name, acceptedAll u (one.2.map String.toList)

def within (u : Unicode) (store : AgentStore) (name key : List Char) : List Match :=
  (namesakes u store name).filter fun one => workspaceKey u one.2 = key

def elsewhere (u : Unicode) (store : AgentStore) (name key : List Char) : List Match :=
  (namesakes u store name).filter fun one => workspaceKey u one.2 ≠ key

/-- What the lookup chooses of the namesakes. -/
def chosen (u : Unicode) (store : AgentStore) (name : List Char) (strict : Bool) : Option (List Char) → List Match
  | none => namesakes u store name
  | some key =>
    if (within u store name key).length = 1 then within u store name key
    else if strict then [] else elsewhere u store name key

def scopeKey (u : Unicode) (request : NameRequest) : Option (List Char) :=
  ((readName request.name).1.map (foldKey u)).or ((request.workspaceId.map String.toList).map (foldKey u))

theorem resolveName_iff : resolveName u store request = .ok reply ↔
    accepted u (readName request.name).2 ∧ acceptedAll u (readName request.name).1 ∧
    acceptedAll u (request.workspaceId.map String.toList) ∧ Named u store ∧
    ((scopeKey u request).isSome → Scoped u store (foldKey u (readName request.name).2)) ∧
    reportMatches request (scopeKey u request) (chosen u store (foldKey u (readName request.name).2)
      (readName request.name).1.isSome (scopeKey u request)) = reply := by
  constructor
  · intro ok
    obtain ⟨name,readName,ok⟩ := bind_ok ok
    obtain ⟨own,readOwn,ok⟩ := bind_ok ok
    obtain ⟨hint,readHint,ok⟩ := bind_ok ok
    obtain ⟨found,matched,ok⟩ := bind_ok ok
    obtain ⟨fineName,rfl⟩ := normalizedName_iff.mp readName
    obtain ⟨fineOwn,rfl⟩ := normalizedWorkspace_iff.mp readOwn
    obtain ⟨fineHint,rfl⟩ := normalizedWorkspace_iff.mp readHint
    obtain ⟨named,rfl⟩ := nameMatches_iff.mp matched
    refine ⟨fineName,fineOwn,fineHint,named,?_⟩
    rw [scopeKey]
    split at ok
    next none_ =>
      rw [none_]
      rw [none_] at ok
      exact ⟨nofun,Except.ok.inj ok⟩
    next key is =>
      rw [is]
      rw [is] at ok
      obtain ⟨parts,split,ok⟩ := bind_ok ok
      obtain ⟨placed,inside,outside⟩ := splitMatches_iff.mp split
      refine ⟨fun _ => placed,?_⟩
      rw [← Except.ok.inj ok,← inside,← outside]
      rfl
  · rintro ⟨fineName,fineOwn,fineHint,named,placed,rfl⟩
    unfold resolveName
    dsimp only
    rw [normalizedName_iff.mpr ⟨fineName,rfl⟩,normalizedWorkspace_iff.mpr ⟨fineOwn,rfl⟩,
      normalizedWorkspace_iff.mpr ⟨fineHint,rfl⟩]
    have matched : nameMatches u store (foldKey u (readName request.name).2) (live store) =
        .ok (namesakes u store (foldKey u (readName request.name).2)) := nameMatches_iff.mpr ⟨named,rfl⟩
    simp only [bind,Except.bind]
    rw [live] at matched
    rw [matched,scopeKey]
    rw [scopeKey] at placed
    dsimp only
    split
    next none_ =>
      rw [none_]
      rfl
    next key is =>
      rw [is] at placed ⊢
      have parts : splitMatches u key (namesakes u store (foldKey u (readName request.name).2)) =
          .ok (within u store (foldKey u (readName request.name).2) key,
            elsewhere u store (foldKey u (readName request.name).2) key) :=
        splitMatches_iff.mpr ⟨placed rfl,rfl,rfl⟩
      rw [parts]
      rfl

theorem mem_namesakes {name : List Char} {one : Match} : one ∈ namesakes u store name ↔
    one.1 ∈ live store ∧ foldKey u one.1.name.toList = name ∧ one.2 = scopeWorkspace store one.1 := by
  constructor
  · intro member
    obtain ⟨row,inside,rfl⟩ := List.mem_map.mp member
    obtain ⟨alive,same⟩ := List.mem_filter.mp inside
    exact ⟨alive,of_decide_eq_true same,rfl⟩
  · rintro ⟨alive,same,scope⟩
    exact List.mem_map.mpr ⟨one.1,List.mem_filter.mpr ⟨alive,decide_eq_true same⟩,Prod.ext rfl scope.symm⟩

theorem live_nodup (store : AgentStore) : (live store).Nodup :=
  ((AgentStore.rows_ordered store).imp fun less same => absurd (same ▸ less) (lt_irrefl _)).filter _

theorem namesakes_nodup (name : List Char) : (namesakes u store name).Nodup :=
  ((live_nodup store).filter _).map fun _ _ same => (Prod.ext_iff.mp same).1

theorem live_inj {a b : AgentRow} (fromA : a ∈ live store) (fromB : b ∈ live store) (same : a.agentId = b.agentId) :
    a = b := by
  have here := AgentStore.mem_rows (List.mem_filter.mp fromA).1
  have there := AgentStore.mem_rows (List.mem_filter.mp fromB).1
  rw [same,there.1] at here
  exact (Option.some.inj here.1).symm

/-- A lone item of a list without repetition. -/
theorem eq_singleton {α : Type} {items : List α} (distinct : items.Nodup) {item : α}
    (alone : ∀ other, other ∈ items ↔ other = item) : items = [item] := by
  match items,distinct with
  | [],_ => cases (alone item).mpr rfl
  | [one],_ => rw [(alone one).mp List.mem_cons_self]
  | one :: two :: rest,distinct =>
    have first := (alone one).mp List.mem_cons_self
    have second := (alone two).mp (List.mem_cons_of_mem _ List.mem_cons_self)
    cases (List.nodup_cons.mp distinct).1 (first.trans second.symm ▸ List.mem_cons_self)

theorem report_found {scope : Option (List Char)} {found : List Match} {row : AgentRow}
    (all : ∀ one ∈ found, one.1 ∈ live store) (alive : row ∈ live store) :
    reportMatches request scope found = .found row.agentId row.digest ↔ ∃ one, found = [one] ∧ one.1 = row := by
  match found with
  | [] => simp [reportMatches]
  | [one] =>
    simp only [reportMatches,NameReply.found.injEq,List.cons.injEq,and_true]
    constructor
    · rintro ⟨same,-⟩
      exact ⟨one,rfl,live_inj (all one List.mem_cons_self) alive same⟩
    · rintro ⟨other,rfl,rfl⟩
      exact ⟨rfl,rfl⟩
  | one :: two :: rest => simp [reportMatches]

/-- No other live agent has the name in a workspace that normalizes equally. -/
def Alone (u : Unicode) (store : AgentStore) (row : AgentRow) : Prop :=
  ∀ other ∈ live store, foldKey u other.name.toList = foldKey u row.name.toList →
    workspaceKey u (scopeWorkspace store other) = workspaceKey u (scopeWorkspace store row) → other = row

/-- The text up to the first slash is the agent's workspace and the rest its name, as the rules
for names read both. -/
def Reads (u : Unicode) (store : AgentStore) (row : AgentRow) (text : String) : Prop :=
  ∃ workspace name, Semver.splitOnce '/' text.toList = some (workspace,name) ∧ accepted u workspace ∧ accepted u name ∧
    foldKey u workspace = workspaceKey u (scopeWorkspace store row) ∧ foldKey u name = foldKey u row.name.toList

/-- Where the workspace's id has no slash, what is left to ask of it are the rules for names. -/
theorem reads_plain {row : AgentRow} {spelling : String} (spells : accepted u spelling.toList ∧
      foldKey u spelling.toList = foldKey u row.name.toList) {workspace : String}
    (its : scopeWorkspace store row = some workspace) (plain : '/' ∉ workspace.toList) :
    Reads u store row (workspaceText (scopeWorkspace store row) ++ "/" ++ spelling) ↔ accepted u workspace.toList := by
  have cut : Semver.splitOnce '/' (workspaceText (scopeWorkspace store row) ++ "/" ++ spelling).toList =
      some (workspace.toList,spelling.toList) := by
    rw [its,String.toList_append,String.toList_append,List.append_assoc]
    exact Semver.splitOnce_plain plain spelling.toList
  constructor
  · rintro ⟨before,name,split,fine,-⟩
    rw [cut] at split
    cases split
    exact fine
  · intro fine
    exact ⟨_,_,cut,fine,spells.1,by rw [its]; rfl,spells.2⟩

theorem within_alone {row : AgentRow} (alive : row ∈ live store) :
    within u store (foldKey u row.name.toList) (workspaceKey u (scopeWorkspace store row)) =
      [(row,scopeWorkspace store row)] ↔ Alone u store row := by
  constructor
  · intro single other there name key
    have member : (other,scopeWorkspace store other) ∈
        within u store (foldKey u row.name.toList) (workspaceKey u (scopeWorkspace store row)) :=
      List.mem_filter.mpr ⟨mem_namesakes.mpr ⟨there,name,rfl⟩,decide_eq_true key⟩
    rw [single] at member
    exact (Prod.ext_iff.mp (List.mem_singleton.mp member)).1
  · intro alone
    refine eq_singleton ((namesakes_nodup _).filter _) fun one => ?_
    rw [List.mem_filter,mem_namesakes]
    constructor
    · rintro ⟨⟨there,name,scope⟩,key⟩
      have same := alone one.1 there name (scope ▸ of_decide_eq_true key)
      exact Prod.ext same (same ▸ scope)
    · rintro rfl
      exact ⟨⟨alive,rfl,rfl⟩,decide_eq_true rfl⟩

theorem slash_split (workspace name : List Char) :
    (Semver.splitOnce '/' (workspace ++ ("/".toList ++ name))).isSome := by
  induction workspace with
  | nil => rfl
  | cons c rest ih =>
    rw [List.cons_append,Semver.splitOnce]
    split_ifs
    · rfl
    · rw [Option.isSome_map]
      exact ih

theorem within_live {name key : List Char} {one : Match} (member : one ∈ within u store name key) :
    one.1 ∈ live store := (mem_namesakes.mp (List.mem_filter.mp member).1).1

/-- A request with a workspace before the name finds an agent when it reads as that agent's. -/
theorem strict_found {row : AgentRow} (alive : row ∈ live store) (slash : (Semver.splitOnce '/' request.name.toList).isSome) :
    resolveName u store request = .ok (.found row.agentId row.digest) ↔
      Named u store ∧ acceptedAll u (request.workspaceId.map String.toList) ∧ Reads u store row request.name ∧
      Alone u store row ∧ Scoped u store (foldKey u row.name.toList) := by
  obtain ⟨⟨workspace,name⟩,cut⟩ := Option.isSome_iff_exists.mp slash
  have read : readName request.name = (some workspace,name) := by rw [readName,cut]
  have scope : scopeKey u request = some (foldKey u workspace) := by rw [scopeKey,read]; rfl
  rw [resolveName_iff,read,scope]
  simp only [chosen,Option.isSome_some,if_true]
  have inLive : ∀ one ∈ (if (within u store (foldKey u name) (foldKey u workspace)).length = 1 then
      within u store (foldKey u name) (foldKey u workspace) else []), one.1 ∈ live store := by
    intro one member
    split_ifs at member
    · exact within_live member
    · cases member
  rw [report_found inLive alive]
  constructor
  · rintro ⟨fineName,fineOwn,fineHint,named,placed,one,single,rfl⟩
    split_ifs at single
    have member : one ∈ within u store (foldKey u name) (foldKey u workspace) := single ▸ List.mem_cons_self
    obtain ⟨inside,key⟩ := List.mem_filter.mp member
    obtain ⟨-,same,its⟩ := mem_namesakes.mp inside
    have key := of_decide_eq_true key
    rw [its] at key
    have pair : one = (one.1,scopeWorkspace store one.1) := Prod.ext rfl its
    rw [← same,← key,pair] at single
    refine ⟨named,fineHint,⟨workspace,name,cut,fineOwn workspace rfl,fineName,key.symm,same.symm⟩,
      (within_alone alive).mp single,same ▸ placed trivial⟩
  · rintro ⟨named,fineHint,⟨workspace',name',cut',fineOwn,fineName,key,same⟩,alone,placed⟩
    obtain ⟨rfl,rfl⟩ : workspace' = workspace ∧ name' = name := by
      rw [cut] at cut'
      cases cut'
      exact ⟨rfl,rfl⟩
    refine ⟨fineName,fun text is => Option.mem_some_iff.mp is ▸ fineOwn,fineHint,named,fun _ => same ▸ placed,
      (row,scopeWorkspace store row),?_,rfl⟩
    rw [key,same,(within_alone alive).mpr alone]
    rfl

/-- The agents a name without a workspace is about: a hint prefers those in its workspace. -/
def preferred (u : Unicode) (store : AgentStore) (name : List Char) : Option (List Char) → List Match
  | none => namesakes u store name
  | some key => if within u store name key = [] then elsewhere u store name key else within u store name key

/-- At most one agent of the name is in the hinted workspace, or naming those there and those
elsewhere is one answer. -/
def Preferable (u : Unicode) (store : AgentStore) (request : NameRequest) (name key : List Char) : Prop :=
  (within u store name key).length ≤ 1 ∨ reportMatches request (some key) (within u store name key) =
    reportMatches request (some key) (elsewhere u store name key)

theorem report_chosen {name : List Char} {key : List Char} :
    reportMatches request (some key) (chosen u store name false (some key)) =
      reportMatches request (some key) (preferred u store name (some key)) ↔ Preferable u store request name key := by
  simp only [chosen,preferred,Preferable,Bool.false_eq_true,if_false]
  match within u store name key with
  | [] => simp
  | [one] => simp
  | one :: two :: rest =>
    rw [if_neg (by simp),if_neg (by simp)]
    constructor
    · exact fun same => .inr same.symm
    · rintro (few | same)
      · cases few
        next few => cases few
      · exact same.symm

theorem preferred_mem {name : List Char} {hint : Option (List Char)} {one : Match}
    (member : one ∈ preferred u store name hint) : one ∈ namesakes u store name := by
  cases hint with
  | none => exact member
  | some key =>
    rw [preferred] at member
    split_ifs at member
    · exact (List.mem_filter.mp member).1
    · exact (List.mem_filter.mp member).1

theorem preferred_ne {row : AgentRow} (alive : row ∈ live store) (hint : Option (List Char)) :
    preferred u store (foldKey u row.name.toList) hint ≠ [] := by
  have there : (row,scopeWorkspace store row) ∈ namesakes u store (foldKey u row.name.toList) :=
    mem_namesakes.mpr ⟨alive,rfl,rfl⟩
  cases hint with
  | none => exact List.ne_nil_of_mem there
  | some key =>
    rw [preferred]
    split_ifs with empty
    · refine List.ne_nil_of_mem (List.mem_filter.mpr ⟨there,decide_eq_true fun same => ?_⟩)
      have inside : (row,scopeWorkspace store row) ∈ within u store (foldKey u row.name.toList) key :=
        List.mem_filter.mpr ⟨there,decide_eq_true same⟩
      rw [empty] at inside
      cases inside
    · exact empty

/-- A workspace before the name leaves at most one agent to answer with. -/
theorem strict_clear (slash : (Semver.splitOnce '/' request.name.toList).isSome)
    (ok : resolveName u store request = .ok reply) (names : Finset String) : reply ≠ .nameAmbiguous names := by
  obtain ⟨⟨workspace,name⟩,cut⟩ := Option.isSome_iff_exists.mp slash
  have read : readName request.name = (some workspace,name) := by rw [readName,cut]
  have scope : scopeKey u request = some (foldKey u workspace) := by rw [scopeKey,read]; rfl
  obtain ⟨-,-,-,-,-,rfl⟩ := resolveName_iff.mp ok
  rw [read,scope]
  simp only [chosen,Option.isSome_some,if_true]
  split_ifs with single
  · obtain ⟨one,is⟩ := List.length_eq_one_iff.mp single
    rw [is]
    exact nofun
  · exact nofun

variable {row : AgentRow} {spelling : String}

/-- A spelling of the agent's name. -/
def Spells (u : Unicode) (row : AgentRow) (spelling : String) : Prop :=
  accepted u spelling.toList ∧ foldKey u spelling.toList = foldKey u row.name.toList

def hintKey (u : Unicode) (hint : Option String) : Option (List Char) := (hint.map String.toList).map (foldKey u)

theorem plain_answered (spells : Spells u row spelling) (hint : Option String)
    (plain : Semver.splitOnce '/' spelling.toList = none) :
    resolveName u store ⟨spelling,hint⟩ = .ok (reportMatches ⟨spelling,hint⟩ (hintKey u hint)
      (preferred u store (foldKey u row.name.toList) (hintKey u hint))) ↔
    Named u store ∧ acceptedAll u (hint.map String.toList) ∧ ∀ key ∈ hintKey u hint,
      Scoped u store (foldKey u row.name.toList) ∧
      Preferable u store ⟨spelling,hint⟩ (foldKey u row.name.toList) key := by
  have read : readName spelling = (none,spelling.toList) := by rw [readName,plain]
  have scope : scopeKey u ⟨spelling,hint⟩ = hintKey u hint := by rw [scopeKey,read]; rfl
  rw [resolveName_iff,scope]
  dsimp only
  rw [read,spells.2]
  cases hint with
  | none =>
    exact ⟨fun ⟨_,_,fine,named,_,_⟩ => ⟨named,fine,nofun⟩,
      fun ⟨named,fine,_⟩ => ⟨spells.1,nofun,fine,named,nofun,rfl⟩⟩
  | some text =>
    constructor
    · rintro ⟨-,-,fine,named,placed,same⟩
      refine ⟨named,fine,fun key is => ?_⟩
      obtain rfl := Option.mem_some_iff.mp is
      exact ⟨placed rfl,report_chosen.mp same⟩
    · rintro ⟨named,fine,all⟩
      obtain ⟨placed,few⟩ := all _ rfl
      exact ⟨spells.1,nofun,fine,named,fun _ => placed,report_chosen.mpr few⟩

theorem slashed_answered (alive : row ∈ live store) (hint : Option String)
    (slash : (Semver.splitOnce '/' spelling.toList).isSome) :
    resolveName u store ⟨spelling,hint⟩ = .ok (reportMatches ⟨spelling,hint⟩ (hintKey u hint)
      (preferred u store (foldKey u row.name.toList) (hintKey u hint))) ↔
    Named u store ∧ acceptedAll u (hint.map String.toList) ∧
      ∃ one, preferred u store (foldKey u row.name.toList) (hintKey u hint) = [one] ∧
        Reads u store one.1 spelling ∧ Alone u store one.1 ∧ Scoped u store (foldKey u row.name.toList) := by
  have some_ := preferred_ne (u := u) alive (hintKey u hint)
  have members : ∀ one ∈ preferred u store (foldKey u row.name.toList) (hintKey u hint),
      one ∈ namesakes u store (foldKey u row.name.toList) := fun one member => preferred_mem member
  generalize preferred u store (foldKey u row.name.toList) (hintKey u hint) = wanted at some_ members
  match wanted with
  | [] => exact absurd rfl some_
  | [one] =>
    obtain ⟨alive',same,-⟩ := mem_namesakes.mp (members one List.mem_cons_self)
    have exact_ : resolveName u store ⟨spelling,hint⟩ = .ok (.found one.1.agentId one.1.digest) ↔
        Named u store ∧ acceptedAll u (hint.map String.toList) ∧ Reads u store one.1 spelling ∧
        Alone u store one.1 ∧ Scoped u store (foldKey u row.name.toList) := by
      rw [← same]
      exact strict_found alive' slash
    rw [show reportMatches _ _ [one] = .found one.1.agentId one.1.digest from rfl,exact_]
    constructor
    · rintro ⟨named,fine,reads,alone,placed⟩
      exact ⟨named,fine,one,rfl,reads,alone,placed⟩
    · rintro ⟨named,fine,_,is,reads,alone,placed⟩
      cases is
      exact ⟨named,fine,reads,alone,placed⟩
  | one :: two :: rest =>
    constructor
    · intro ok
      have slash' : (Semver.splitOnce '/' (NameRequest.mk spelling hint).name.toList).isSome := slash
      exact absurd rfl (strict_clear slash' ok _)
    · rintro ⟨-,-,_,is,-⟩
      cases is

/-- Which lookups of a live agent's name answer as they should: with its workspace before the name
the agent, without one every agent of the name, those in a hinted workspace first. -/
theorem names_found (u : Unicode) (store : AgentStore) (row : AgentRow) (spelling : String) (hint : Option String)
    (alive : row ∈ live store) (spells : Spells u row spelling) :
    (Alone u store row →
      (resolveName u store ⟨workspaceText (scopeWorkspace store row) ++ "/" ++ spelling,hint⟩ =
          .ok (.found row.agentId row.digest) ↔
        Named u store ∧ acceptedAll u (hint.map String.toList) ∧
        Reads u store row (workspaceText (scopeWorkspace store row) ++ "/" ++ spelling) ∧
        Scoped u store (foldKey u row.name.toList))) ∧
    (resolveName u store ⟨spelling,hint⟩ = .ok (reportMatches ⟨spelling,hint⟩ (hintKey u hint)
        (preferred u store (foldKey u row.name.toList) (hintKey u hint))) ↔
      Named u store ∧ acceptedAll u (hint.map String.toList) ∧
      ((Semver.splitOnce '/' spelling.toList = none ∧ ∀ key ∈ hintKey u hint,
          Scoped u store (foldKey u row.name.toList) ∧
          Preferable u store ⟨spelling,hint⟩ (foldKey u row.name.toList) key) ∨
        ∃ one, preferred u store (foldKey u row.name.toList) (hintKey u hint) = [one] ∧
          Reads u store one.1 spelling ∧ Alone u store one.1 ∧ Scoped u store (foldKey u row.name.toList))) := by
  refine ⟨fun alone => ?_,?_⟩
  · rw [strict_found alive (by rw [String.toList_append,String.toList_append,List.append_assoc]; exact slash_split _ _)]
    exact ⟨fun ⟨named,fine,reads,_,placed⟩ => ⟨named,fine,reads,placed⟩,
      fun ⟨named,fine,reads,placed⟩ => ⟨named,fine,reads,alone,placed⟩⟩
  · cases cut : Semver.splitOnce '/' spelling.toList with
    | none =>
      rw [plain_answered spells hint cut]
      constructor
      · rintro ⟨named,fine,all⟩
        exact ⟨named,fine,.inl ⟨rfl,all⟩⟩
      · rintro ⟨named,fine,⟨-,all⟩ | ⟨one,-,⟨workspace,name,split,-⟩,-⟩⟩
        · exact ⟨named,fine,all⟩
        · rw [cut] at split
          cases split
    | some parts =>
      rw [slashed_answered alive hint (by rw [cut]; rfl)]
      constructor
      · rintro ⟨named,fine,one⟩
        exact ⟨named,fine,.inr one⟩
      · rintro ⟨named,fine,⟨none_,-⟩ | one⟩
        · cases none_
        · exact ⟨named,fine,one⟩

end Answers

namespace Looked

/-- The Unicode data on ASCII. -/
def ascii : Unicode := ⟨id,fun c => [c.toLower]⟩

def head (id name : String) : AgentRow where
  agentId := id
  name := name
  nameVersion := 1
  tag := "head"
  labels := []
  role := "head"
  projectId := some "P1"
  workspaceId := none
  status := "live"
  mergedInto := none
  supervisorAgentId := none
  createdAtMs := 10
  terminalAtMs := none
  agentGeneration := 1

/-- A lone head whose name is claimed in the workspace. -/
def store (workspace : String) : AgentStore where
  agents := (∅ : Table String AgentRow).insert "a1" (head "a1" "Ada")
  claims := (∅ : Table String (List NameClaim)).insert "a1" [⟨"workspace",workspace,none⟩]
  activated := true
  generation := 1
  named := by
    intro id row there
    rw [Table.get?_insert] at there
    split_ifs at there with same
    · cases there
      exact ⟨same.symm,by rw [same]; decide⟩
    · cases there

theorem alone (workspace : String) : Alone ascii (store workspace) (head "a1" "Ada") := by
  intro other there _ _
  exact List.mem_singleton.mp (List.mem_filter.mp there).1

theorem found : resolveName ascii (store "W1") ⟨"W1/ADA",some "W1"⟩ =
    .ok (.found "a1" (head "a1" "Ada").digest) :=
  ((names_found ascii (store "W1") (head "a1" "Ada") "ADA" (some "W1") List.mem_cons_self ⟨rfl,rfl⟩).1
    (alone "W1")).mpr ⟨fun row there => by rw [List.mem_singleton.mp (List.mem_filter.mp there).1]; rfl,
      fun text is => by cases is; rfl,⟨['W','1'],['A','D','A'],rfl,rfl,rfl,rfl,rfl⟩,
      fun one there text is => by
        have same := List.mem_singleton.mp (List.mem_filter.mp (mem_namesakes.mp there).1).1
        rw [(mem_namesakes.mp there).2.2,same] at is
        cases is
        rfl⟩

/-- A workspace id of twenty-five letters is one the registry accepts and the lookup refuses. -/
theorem long_workspace_hides : ¬∀ (u : Unicode) (store : AgentStore) (row : AgentRow) (spelling : String),
    row ∈ live store → Spells u row spelling → Alone u store row →
      resolveName u store ⟨workspaceText (scopeWorkspace store row) ++ "/" ++ spelling,none⟩ =
        .ok (.found row.agentId row.digest) := by
  intro claim
  have found := claim ascii (store "aaaaaaaaaaaaaaaaaaaaaaaaa") (head "a1" "Ada") "Ada" List.mem_cons_self ⟨rfl,rfl⟩
    (alone _)
  have refused : resolveName ascii (store "aaaaaaaaaaaaaaaaaaaaaaaaa") ⟨"aaaaaaaaaaaaaaaaaaaaaaaaa/Ada",none⟩ =
    invalidName "invalid_name: TooLong" := rfl
  have named : workspaceText (scopeWorkspace (store "aaaaaaaaaaaaaaaaaaaaaaaaa") (head "a1" "Ada")) ++ "/" ++ "Ada" =
    "aaaaaaaaaaaaaaaaaaaaaaaaa/Ada" := rfl
  rw [named,refused] at found
  cases found

end Looked

end Entorhinal.Agents
