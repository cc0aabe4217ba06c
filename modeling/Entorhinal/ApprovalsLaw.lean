import Entorhinal.CarriesLaw

/-! What was approved is what is written: the text of a write says which agents it is about and what
becomes of them, but for the names a carry counts only and the agents the correction counts. -/
namespace Entorhinal.Approvals

open Agents (AgentRow Role Unicode)
open DebugText (quote_cut digits_cut)

section Checked
variable {u : Unicode} {state : Identities} {now : Int}

/-- What a new agent's role says of its project, its workspace and its name's claim. -/
inductive Created (row : AgentRow) (edit : NameEdit) : Role → Prop
  | assistant (role : row.role = "assistant") (project : row.projectId = none) (workspace : row.workspaceId = none)
    (kind : edit.kind = "assistant") (key : edit.key = "global") : Created row edit .assistant
  | workspaceHead (role : row.role = "workspace_head") (project : row.projectId = none)
    (workspace : row.workspaceId = some edit.key) (kind : edit.kind = "workspace") : Created row edit .workspaceHead
  | head (p : String) (role : row.role = "head") (project : row.projectId = some p) (workspace : row.workspaceId = none)
    (kind : edit.kind = "workspace") : Created row edit .head
  | hiree (p : String) (role : row.role = "hiree") (project : row.projectId = some p) (workspace : row.workspaceId = none)
    (kind : edit.kind = "workspace") : Created row edit .hiree

theorem if_refused {α : Type} {c : Prop} [Decidable c] {code message : String} {next : Except AgentMutationError α} {result : α}
    (ok : (if c then refuse code message else next) = .ok result) : ¬c ∧ next = .ok result := by
  by_cases refused : c
  · rw [if_pos refused] at ok
    cases ok
  · rw [if_neg refused] at ok
    exact ⟨refused,ok⟩

theorem resolveProject_some {given resolved : Option String} (ok : resolveProject state given = .ok resolved) :
    resolved.isSome = given.isSome := by
  cases given with
  | none => cases ok; rfl
  | some id =>
    obtain ⟨_,_,rfl⟩ := map_ok ok
    rfl

theorem resolveWorkspace_none {asked resolved : Option String} (ok : resolveWorkspace state asked none = .ok resolved) :
    resolved = asked := by
  cases ok
  rfl

/-- The row of a new agent as its role places it. -/
theorem created_of {role : Role} {given asked projectId workspaceId : Option String} (row : AgentRow) (edit : NameEdit)
    (shape : shapeOf role given asked = true) (there : projectId.isSome = given.isSome)
    (placed : resolveWorkspace state asked projectId = .ok workspaceId) (is : row.role = role.asStr)
    (project : row.projectId = projectId) (workspace : row.workspaceId = if role = .workspaceHead then workspaceId else none)
    (claim : (edit.kind,edit.key) = namespaceOf role workspaceId) : Created row edit role := by
  obtain ⟨kind,key⟩ := Prod.ext_iff.mp claim
  cases role with
  | assistant =>
    rw [shapeOf,Bool.and_eq_true,Option.isNone_iff_eq_none,Option.isNone_iff_eq_none] at shape
    rw [shape.1,Option.isSome_none,Option.isSome_eq_false_iff,Option.isNone_iff_eq_none] at there
    exact .assistant is (project.trans there) workspace kind key
  | workspaceHead =>
    rw [shapeOf,Bool.and_eq_true,Option.isNone_iff_eq_none] at shape
    rw [shape.1,Option.isSome_none,Option.isSome_eq_false_iff,Option.isNone_iff_eq_none] at there
    obtain rfl := there
    obtain rfl := resolveWorkspace_none placed
    obtain ⟨w,rfl⟩ := Option.isSome_iff_exists.mp shape.2
    exact .workspaceHead is project (workspace.trans (congrArg some key.symm)) kind
  | head =>
    rw [shapeOf,Bool.and_eq_true] at shape
    obtain ⟨p,some_⟩ := Option.isSome_iff_exists.mp (there.trans shape.1)
    exact .head p is (project.trans some_) workspace kind
  | hiree =>
    rw [shapeOf,Bool.and_eq_true] at shape
    obtain ⟨p,some_⟩ := Option.isSome_iff_exists.mp (there.trans shape.1)
    exact .hiree p is (project.trans some_) workspace kind

theorem validateCreate_ok {r : Create} {row : AgentRow} {edit : NameEdit}
    (ok : validateCreate u state now r = .ok (row,edit)) : Created row edit r.role := by
  obtain ⟨given,_,ok⟩ := bind_ok ok
  obtain ⟨asked,_,ok⟩ := bind_ok ok
  obtain ⟨shape,ok⟩ := if_refused ok
  rw [Bool.not_eq_true',Bool.not_eq_false] at shape
  obtain ⟨name,_,ok⟩ := bind_ok ok
  obtain ⟨tag,_,ok⟩ := bind_ok ok
  obtain ⟨projectId,resolved,ok⟩ := bind_ok ok
  obtain ⟨_,ok⟩ := if_refused ok
  obtain ⟨workspaceId,placed,ok⟩ := bind_ok ok
  obtain ⟨_,_,ok⟩ := bind_ok ok
  obtain ⟨_,_,ok⟩ := bind_ok ok
  obtain ⟨_,ok⟩ := if_refused ok
  obtain ⟨rfl,rfl⟩ := Prod.ext_iff.mp (Except.ok.inj ok)
  exact created_of _ _ shape (resolveProject_some resolved) placed rfl rfl rfl rfl

end Checked

/-- What a text says: the agent as it names it, and what becomes of it. -/
inductive Told
  | created (role name : String) (projectId workspaceId : Option String) (kind key : String)
    (supervisor : Option String) (tag : String)
  | renamed (name agentId newName : String)
  | tagged (name agentId tag : String)
  | labelled (name agentId : String) (labels : List String)
  | retired (name agentId : String)
deriving DecidableEq, Repr

def told (request : Mutation) (prepared : Prepared) : Told :=
  let target := prepared.previous.getD prepared.row
  match request with
  | .create _ => .created prepared.row.role prepared.row.name prepared.row.projectId prepared.row.workspaceId
    ((prepared.name.map NameEdit.kind).getD "") ((prepared.name.map NameEdit.key).getD "")
    prepared.row.supervisorAgentId prepared.row.tag
  | .rename .. => .renamed target.name target.agentId prepared.row.name
  | .tag .. => .tagged target.name target.agentId prepared.row.tag
  | .labels .. => .labelled target.name target.agentId prepared.row.labels
  | .dispose _ => .retired target.name target.agentId

section Told
variable {plain : Char → Bool} {x y : List Char}

theorem agent_cut {row row' : AgentRow} (same : agentText plain row ++ x = agentText plain row' ++ y) :
    row.name = row'.name ∧ row.agentId = row'.agentId ∧ x = y := by
  unfold agentText at same
  simp only [List.append_assoc] at same
  obtain ⟨name,same⟩ := quote_cut same
  obtain ⟨id,same⟩ := quote_cut (List.append_cancel_left same)
  exact ⟨name,id,List.append_cancel_left same⟩

theorem closed_nil : Closed [] := fun _ is => nomatch is

theorem labels_same {labels labels' : List String} (same : labelsText plain labels = labelsText plain labels') :
    labels = labels' := by
  have quoted_ : ∀ {labels : List String}, labels ≠ [] → "none".toList ≠ joined ", ".toList (labels.map (quoted plain)) := by
    rintro (_ | ⟨label,_ | ⟨next,rest⟩⟩) some_ same
    · exact some_ rfl
    · rw [List.map_cons,List.map_nil,joined_single] at same
      cases same
    · rw [List.map_cons,List.map_cons,joined_cons] at same
      cases same
  unfold labelsText at same
  split_ifs at same with none_ none' none'
  · rw [none_,none']
  · exact absurd same (quoted_ none')
  · exact absurd same.symm (quoted_ none_)
  · rw [← List.append_nil (joined _ _),← List.append_nil (joined _ (labels'.map _))] at same
    exact (names_cut none_ none' closed_nil closed_nil same).1

/-- A role with what follows it. -/
theorem role_cut {row row' : AgentRow} {edit edit' : NameEdit} {role role' : Role} (one : Created row edit role)
    (other : Created row' edit' role')
    (same : (roleText row.role).toList ++ (" agent ".toList ++ x) = (roleText row'.role).toList ++ (" agent ".toList ++ y)) :
    role = role' ∧ x = y := by
  cases one <;> cases other <;> simp_all [roleText]

theorem supervisor_cut {state state' : Identities} {supervisor supervisor' : Option String} {text text' : List Char}
    (told : supervisorText plain state supervisor = .ok text) (told' : supervisorText plain state' supervisor' = .ok text')
    (same : text ++ (" with tag ".toList ++ x) = text' ++ (" with tag ".toList ++ y)) :
    supervisor = supervisor' ∧ x = y := by
  have some_ : ∀ {state : Identities} {id : String} {text : List Char}, supervisorText plain state (some id) = .ok text →
      ∃ name, text = " supervised by ".toList ++ quoted plain name ++ " (".toList ++ quoted plain id ++ ")".toList := by
    intro state id text ok
    unfold supervisorText at ok
    dsimp only at ok
    split at ok
    next => cases ok
    next s _ => cases ok; exact ⟨s.name,rfl⟩
  cases supervisor with
  | none =>
    cases told
    cases supervisor' with
    | none => cases told'; exact ⟨rfl,List.append_cancel_left same⟩
    | some id =>
      obtain ⟨name,rfl⟩ := some_ told'
      simp at same
  | some id =>
    obtain ⟨name,rfl⟩ := some_ told
    cases supervisor' with
    | none =>
      cases told'
      simp at same
    | some id' =>
      obtain ⟨name',rfl⟩ := some_ told'
      simp only [List.append_assoc] at same
      obtain ⟨_,same⟩ := quote_cut (List.append_cancel_left same)
      obtain ⟨id,same⟩ := quote_cut (List.append_cancel_left same)
      exact ⟨congrArg some id,List.append_cancel_left (List.append_cancel_left same)⟩

/-- The place of a new agent, where its role is known. -/
theorem place_cut {row row' : AgentRow} {edit edit' : NameEdit} {role : Role} (one : Created row edit role)
    (other : Created row' edit' role)
    (same : placeText plain row (some edit) ++ x = placeText plain row' (some edit') ++ y) :
    (row.role,row.projectId,row.workspaceId,edit.kind,edit.key) =
      (row'.role,row'.projectId,row'.workspaceId,edit'.kind,edit'.key) ∧ x = y := by
  have projects : ∀ {p p' : String}, row.projectId = some p → row'.projectId = some p' →
      p = p' ∧ edit.key = edit'.key ∧ x = y := by
    intro p p' is is'
    rw [placeText,placeText,is,is'] at same
    simp only [List.append_assoc] at same
    obtain ⟨project,same⟩ := quote_cut (List.append_cancel_left same)
    obtain ⟨key,same⟩ := quote_cut (List.append_cancel_left same)
    exact ⟨project,key,same⟩
  cases one with
  | assistant role project workspace kind key =>
    obtain ⟨role',project',workspace',kind',key'⟩ := other
    rw [placeText,placeText,project,project',workspace,workspace'] at same
    exact ⟨by rw [role,role',project,project',workspace,workspace',kind,kind',key,key'],same⟩
  | workspaceHead role project workspace kind =>
    obtain _ | ⟨role',project',workspace',kind'⟩ := other
    rw [placeText,placeText,project,project',workspace,workspace'] at same
    simp only [List.append_assoc] at same
    obtain ⟨key,same⟩ := quote_cut (List.append_cancel_left same)
    exact ⟨by rw [role,role',project,project',workspace,workspace',kind,kind',key],same⟩
  | head p role project workspace kind =>
    obtain _ | _ | ⟨p',role',project',workspace',kind'⟩ := other
    obtain ⟨is,key,same⟩ := projects project project'
    exact ⟨by rw [role,role',project,project',workspace,workspace',kind,kind',key,is],same⟩
  | hiree p role project workspace kind =>
    obtain _ | _ | _ | ⟨p',role',project',workspace',kind'⟩ := other
    obtain ⟨is,key,same⟩ := projects project project'
    exact ⟨by rw [role,role',project,project',workspace,workspace',kind,kind',key,is],same⟩

end Told

/-- A row changed in what its text says only, but for its counters and the time it ended. -/
inductive Amended (previous : AgentRow) : Mutation → AgentRow → Prop
  | renamed {id raw : String} (name : String) (version generation : Int) :
    Amended previous (.rename id raw) { previous with name := name, nameVersion := version, agentGeneration := generation }
  | tagged {id raw : String} (tag : String) (generation : Int) :
    Amended previous (.tag id raw) { previous with tag := tag, agentGeneration := generation }
  | labelled {id : String} {raw : List String} (labels : List String) (generation : Int) :
    Amended previous (.labels id raw) { previous with labels := labels, agentGeneration := generation }
  | retired {id : String} (terminalAtMs : Option Int) (generation : Int) :
    Amended previous (.dispose id) { previous with status := "retired", terminalAtMs := terminalAtMs, agentGeneration := generation }

theorem Amended.counted {previous row : AgentRow} {request : Mutation} (amended : Amended previous request row)
    (generation : Int) : Amended previous request { row with agentGeneration := generation } := by
  cases amended with
  | renamed name version => exact .renamed name version generation
  | tagged tag => exact .tagged tag generation
  | labelled labels => exact .labelled labels generation
  | retired terminalAtMs => exact .retired terminalAtMs generation

section Validated
variable {u : Unicode} {state : Identities} {now : Int} {prepared : Prepared}

theorem changed_amended {request : Mutation} {id : String} {previous row : AgentRow} {name : Option NameEdit}
    {release : Bool} (some_ : request.target = some id)
    (ok : changed u state now id previous request = .ok (row,name,release)) : Amended previous request row := by
  cases request with
  | create r => cases some_
  | rename _ raw =>
    obtain ⟨_,_,ok⟩ := bind_ok ok
    obtain ⟨_,_,ok⟩ := bind_ok ok
    obtain ⟨_,_,ok⟩ := bind_ok ok
    obtain ⟨_,_,ok⟩ := bind_ok ok
    cases ok
    exact .renamed _ _ previous.agentGeneration
  | tag _ raw =>
    obtain ⟨_,_,ok⟩ := bind_ok ok
    cases ok
    exact .tagged _ previous.agentGeneration
  | labels _ raw =>
    obtain ⟨_,_,ok⟩ := bind_ok ok
    cases ok
    exact .labelled _ previous.agentGeneration
  | dispose _ =>
    obtain ⟨_,_,ok⟩ := bind_ok ok
    cases ok
    exact .retired _ previous.agentGeneration

/-- A request for one agent reads its row first. -/
theorem validate_shape {request : Mutation} {id : String} (some_ : request.target = some id) :
    validate u state now request = (match state.agents.get? id with
      | none => refuse "unknown_agent" ("unknown agent " ++ id)
      | some previous =>
        if previous.status = "retired" ∧ request = .dispose id then .ok ⟨previous,some previous,none,false⟩
        else if previous.status ≠ "live" then refuse "gone" "agent is gone"
        else (changed u state now id previous request) >>= fun changed => .ok
          ⟨if changed.1 = previous then changed.1 else { changed.1 with agentGeneration := previous.agentGeneration + 1 },
            some previous,changed.2.1,changed.2.2⟩) := by
  cases request with
  | create r => cases some_
  | _ => cases some_; rfl

theorem validate_target {request : Mutation} {id : String} (some_ : request.target = some id)
    (ok : validate u state now request = .ok prepared) :
    ∃ previous, state.agents.get? id = some previous ∧ prepared.previous = some previous ∧
      Amended previous request prepared.row := by
  rw [validate_shape some_] at ok
  split at ok
  next => cases ok
  next previous found =>
    refine ⟨previous,found,?_⟩
    by_cases ended : previous.status = "retired" ∧ request = .dispose id
    · rw [if_pos ended] at ok
      cases ok
      obtain ⟨retired,rfl⟩ := ended
      refine ⟨rfl,?_⟩
      have same : previous = { previous with status := "retired" } := by rw [← retired]
      have amended : Amended previous (.dispose id) _ := .retired previous.terminalAtMs previous.agentGeneration
      exact same ▸ amended
    · rw [if_neg ended] at ok
      obtain ⟨_,ok⟩ := if_refused ok
      obtain ⟨⟨row,name,release⟩,changed,ok⟩ := bind_ok ok
      cases ok
      refine ⟨rfl,?_⟩
      have amended := changed_amended some_ changed
      dsimp only
      split_ifs
      · exact amended
      · exact amended.counted _

theorem validate_create {r : Create} (ok : validate u state now (.create r) = .ok prepared) :
    ∃ edit, prepared.previous = none ∧ prepared.name = some edit ∧ Created prepared.row edit r.role := by
  obtain ⟨⟨row,edit⟩,created,ok⟩ := bind_ok ok
  cases ok
  exact ⟨edit,rfl,rfl,validateCreate_ok created⟩

end Validated

/-- A write checked in a state, with its text. -/
def Texted (u : Unicode) (plain : Char → Bool) (state : Identities) (now : Int) (request : Mutation) (prepared : Prepared)
    (text : List Char) : Prop :=
  validate u state now request = .ok prepared ∧ summary plain state request prepared = .ok text

section Texts
variable {u : Unicode} {plain : Char → Bool} {state state' : Identities} {now now' : Int} {request request' : Mutation}
  {prepared prepared' : Prepared} {text : List Char}

theorem createText_ok {row : AgentRow} {name : Option NameEdit} (ok : createText plain state row name = .ok text) :
    ∃ supervisor, supervisorText plain state row.supervisorAgentId = .ok supervisor ∧
      text = "create ".toList ++ ((roleText row.role).toList ++ (" agent ".toList ++ (quoted plain row.name ++
        (placeText plain row name ++ (supervisor ++ (" with tag ".toList ++ (quoted plain row.tag ++ []))))))) := by
  obtain ⟨supervisor,found,ok⟩ := bind_ok ok
  cases ok
  exact ⟨supervisor,found,by simp only [List.append_assoc,List.append_nil]⟩

theorem create_told {r r' : Create} (one : Texted u plain state now (.create r) prepared text)
    (other : Texted u plain state' now' (.create r') prepared' text) :
    told (.create r) prepared = told (.create r') prepared' := by
  obtain ⟨edit,previous,name,created⟩ := validate_create one.1
  obtain ⟨edit',previous',name',created'⟩ := validate_create other.1
  obtain ⟨supervisor,found,rfl⟩ := createText_ok one.2
  obtain ⟨supervisor',found',same⟩ := createText_ok other.2
  obtain ⟨role,same⟩ := role_cut created created' (List.append_cancel_left same)
  obtain ⟨called,same⟩ := quote_cut same
  rw [name,name'] at same
  obtain ⟨place,same⟩ := place_cut created (role ▸ created') same
  obtain ⟨supervised,same⟩ := supervisor_cut found found' same
  obtain ⟨tag,_⟩ := quote_cut same
  simp only [Prod.mk.injEq] at place
  obtain ⟨role,project,workspace,kind,key⟩ := place
  rw [told,told,name,name',called,supervised,tag,role,project,workspace]
  simp only [Option.map_some,Option.getD_some,kind,key]

/-- What a text opens with. -/
def opening : Mutation → String
  | .create _ => "create "
  | .rename .. => "rename agent "
  | .dispose _ => "retire agent "
  | .tag .. => "set tag of agent "
  | .labels .. => "set labels of agent "

theorem summary_opens (ok : summary plain state request prepared = .ok text) : ∃ x, text = (opening request).toList ++ x := by
  cases request with
  | create r =>
    obtain ⟨_,_,rfl⟩ := createText_ok ok
    exact ⟨_,rfl⟩
  | dispose id => cases ok; exact ⟨_,rfl⟩
  | rename id raw =>
    cases ok
    simp only [List.append_assoc]
    exact ⟨_,rfl⟩
  | tag id raw =>
    cases ok
    simp only [List.append_assoc]
    exact ⟨_,rfl⟩
  | labels id raw =>
    cases ok
    simp only [List.append_assoc]
    exact ⟨_,rfl⟩

theorem opening_kind {x y : List Char} (same : (opening request).toList ++ x = (opening request').toList ++ y) :
    request.ctorIdx = request'.ctorIdx := by
  cases request <;> cases request' <;> simp only [opening,Mutation.ctorIdx] at same ⊢ <;> simp at same

theorem kind_same (one : Texted u plain state now request prepared text)
    (other : Texted u plain state' now' request' prepared' text) : request.ctorIdx = request'.ctorIdx := by
  obtain ⟨x,opens⟩ := summary_opens one.2
  obtain ⟨y,opens'⟩ := summary_opens other.2
  exact opening_kind (opens.symm.trans opens')

/-- One text says one thing. -/
theorem same_told (one : Texted u plain state now request prepared text)
    (other : Texted u plain state' now' request' prepared' text) : told request prepared = told request' prepared' := by
  have kind := kind_same one other
  have same : summary plain state request prepared = summary plain state' request' prepared' := one.2.trans other.2.symm
  cases request with
  | create r =>
    cases request' with
    | create r' => exact create_told one other
    | _ => cases kind
  | rename id raw =>
    cases request' with
    | rename id' raw' =>
      have texts := Except.ok.inj same
      simp only [List.append_assoc] at texts
      obtain ⟨called,id,texts⟩ := agent_cut (List.append_cancel_left texts)
      rw [← List.append_nil (quoted plain prepared.row.name),← List.append_nil (quoted plain prepared'.row.name)] at texts
      obtain ⟨name,_⟩ := quote_cut (List.append_cancel_left texts)
      rw [told,told,called,id,name]
    | _ => cases kind
  | tag id raw =>
    cases request' with
    | tag id' raw' =>
      have texts := Except.ok.inj same
      simp only [List.append_assoc] at texts
      obtain ⟨called,id,texts⟩ := agent_cut (List.append_cancel_left texts)
      rw [← List.append_nil (quoted plain prepared.row.tag),← List.append_nil (quoted plain prepared'.row.tag)] at texts
      obtain ⟨tag,_⟩ := quote_cut (List.append_cancel_left texts)
      rw [told,told,called,id,tag]
    | _ => cases kind
  | labels id raw =>
    cases request' with
    | labels id' raw' =>
      have texts := Except.ok.inj same
      simp only [List.append_assoc] at texts
      obtain ⟨called,id,texts⟩ := agent_cut (List.append_cancel_left texts)
      have labels := labels_same (List.append_cancel_left texts)
      rw [told,told,called,id,labels]
    | _ => cases kind
  | dispose id =>
    cases request' with
    | dispose id' =>
      have texts := Except.ok.inj same
      rw [← List.append_nil (agentText plain _),← List.append_nil (agentText plain (prepared'.previous.getD _))] at texts
      obtain ⟨called,id,_⟩ := agent_cut (List.append_cancel_left texts)
      rw [told,told,called,id]
    | _ => cases kind

end Texts

/-- What a write of one agent does: nothing to any other agent, and to this one what its text says. -/
structure Acted (state next : Identities) (request : Mutation) (drawn : String) (prepared : Prepared) : Prop where
  written : next.agents.get? (request.target.getD drawn) =
    some { prepared.row with agentId := request.target.getD drawn }
  others : ∀ other, other ≠ request.target.getD drawn → next.agents.get? other = state.agents.get? other
  claims : ∀ other, other ≠ request.target.getD drawn → next.claims.get? other = state.claims.get? other
  fresh : request.target = none → state.agents.get? drawn = none
  amended : ∀ id, request.target = some id → ∃ previous, state.agents.get? id = some previous ∧
    prepared.previous = some previous ∧ Amended previous request prepared.row

section Acts
variable {u : Unicode} {plain : Char → Bool} {state next : Identities} {now : Int} {request : Mutation}
  {prepared : Prepared} {text : List Char}

theorem precheck_texted (ok : precheck u plain state request now = .ok text) :
    ∃ prepared, Texted u plain state now request prepared text := by
  obtain ⟨_,_,ok⟩ := bind_ok ok
  obtain ⟨prepared,valid,ok⟩ := bind_ok ok
  obtain ⟨shown,texted,ok⟩ := bind_ok ok
  obtain ⟨_,ok⟩ := if_refused ok
  cases ok
  exact ⟨prepared,valid,texted⟩

theorem apply_claims (id other : String) (different : other ≠ id) :
    (prepared.apply state id).claims.get? other = state.claims.get? other := by
  have released : (if prepared.release then state.claims.erase id else state.claims).get? other = state.claims.get? other := by
    split_ifs
    · rw [Table.get?_erase,if_neg different]
    · rfl
  unfold Prepared.apply
  dsimp only
  split
  next edit _ => rw [Table.get?_insert,if_neg different,released]
  next => exact released

theorem agentMutation_acted {drawn : String} (ok : agentMutation u plain state request now drawn text = .ok (next,prepared)) :
    Texted u plain state now request prepared text ∧ Acted state next request drawn prepared := by
  obtain ⟨_,_,ok⟩ := bind_ok ok
  obtain ⟨checked,valid,ok⟩ := bind_ok ok
  obtain ⟨shown,texted,ok⟩ := bind_ok ok
  obtain ⟨approved,ok⟩ := if_refused ok
  obtain ⟨free,ok⟩ := if_refused ok
  obtain ⟨rfl,rfl⟩ := Prod.ext_iff.mp (Except.ok.inj ok)
  refine ⟨⟨valid,texted.trans (congrArg Except.ok (not_not.mp approved))⟩,?_,?_,?_,?_,?_⟩
  · exact (Table.get?_insert _ _ _ _).trans (if_pos rfl)
  · exact fun other different => (Table.get?_insert _ _ _ _).trans (if_neg different)
  · exact apply_claims _
  · intro none_
    cases request with
    | create r =>
      obtain ⟨_,previous,_⟩ := validate_create valid
      rw [previous,Option.isNone_none,Bool.true_and,Table.has,Option.isSome_iff_ne_none,not_not] at free
      exact free
    | _ => cases none_
  · exact fun id some_ => validate_target some_ valid

end Acts

/-- What the moves do: nothing to an agent that is not moved, and one of its moves to each other. -/
structure Moved (state next : Identities) (moves : List NamespaceMove) : Prop where
  others : ∀ id ∉ moves.map (fun move => move.row.agentId),
    next.agents.get? id = state.agents.get? id ∧ next.claims.get? id = state.claims.get? id
  written : ∀ id ∈ moves.map (fun move => move.row.agentId), ∃ move ∈ moves, move.row.agentId = id ∧
    next.agents.get? id = some { move.row with workspaceId := none, agentGeneration := move.row.agentGeneration + 1 }

section Moves
variable {plain : Char → Bool} {state : Identities}

theorem applyMove_other (move : NamespaceMove) {id : String} (other : id ≠ move.row.agentId) :
    (applyMove state move).agents.get? id = state.agents.get? id ∧
      (applyMove state move).claims.get? id = state.claims.get? id := by
  refine ⟨(Table.get?_insert _ _ _ _).trans (if_neg other),?_⟩
  unfold applyMove
  dsimp only
  split
  next => rw [Table.get?_insert,if_neg other]
  next => rfl

theorem applyMoves_moved (moves : List NamespaceMove) : Moved state (applyMoves state moves) moves := by
  induction moves using List.reverseRecOn with
  | nil => exact ⟨fun _ _ => ⟨rfl,rfl⟩,nofun⟩
  | append_singleton moves move ih =>
    have last : applyMoves state (moves ++ [move]) = applyMove (applyMoves state moves) move := by
      rw [applyMoves,applyMoves,List.foldl_append]
      rfl
    rw [last]
    constructor
    · intro id outside
      rw [List.map_append,List.mem_append,not_or] at outside
      obtain ⟨agents,claims⟩ := @applyMove_other (applyMoves state moves) move id
        fun same => outside.2 (List.mem_singleton.mpr same)
      obtain ⟨agents',claims'⟩ := ih.others id outside.1
      exact ⟨agents.trans agents',claims.trans claims'⟩
    · intro id member
      by_cases same : id = move.row.agentId
      · refine ⟨move,List.mem_append_right _ (List.mem_singleton_self _),same.symm,?_⟩
        rw [same]
        exact (Table.get?_insert _ _ _ _).trans (if_pos rfl)
      · rw [List.map_append,List.mem_append] at member
        have before := member.resolve_right fun last => same (List.mem_singleton.mp last)
        obtain ⟨earlier,among,is,written⟩ := ih.written id before
        exact ⟨earlier,List.mem_append_left _ among,is,(applyMove_other move same).1.trans written⟩

theorem planOne_ok {row : AgentRow} {workspace : Option String} {move : NamespaceMove}
    (ok : planOne state row workspace = .ok (some move)) : move.row = row ∧ ∀ target ∈ move.target, workspace = some target := by
  obtain ⟨claim,_,ok⟩ := bind_ok ok
  dsimp only at ok
  split_ifs at ok
  · cases ok
    refine ⟨rfl,?_⟩
    intro target is
    dsimp only at is
    split at is
    next claim workspace =>
      split_ifs at is
      · cases is
      · exact is
    next => cases is
  · cases ok

theorem planCarry_ok {projectId workspaceId : String} {carry : Carry} (ok : planCarry state projectId workspaceId = .ok carry) :
    carry.projectId = projectId ∧ carry.workspaceId = workspaceId ∧
      ∀ move ∈ carry.moves, move.row ∈ carried state projectId ∧ ∀ target ∈ move.target, target = workspaceId := by
  obtain ⟨planned,found,ok⟩ := bind_ok ok
  cases ok
  refine ⟨rfl,rfl,?_⟩
  intro move member
  obtain ⟨planned_,among,is⟩ := List.mem_filterMap.mp member
  obtain rfl : planned_ = some move := is
  obtain ⟨row,live,one⟩ := mapM_ok found _ among
  obtain ⟨rfl,target⟩ := planOne_ok one
  exact ⟨live,fun t is => (Option.some.inj (target t is)).symm⟩

end Moves

/-- A placement write of a caller that was asked, or that nothing was to be asked of. -/
structure Placed (plain : Char → Bool) (state next : Identities) (confirmation : PlacementConfirmation)
    (placement : Placement) (carries : List Carry) : Prop where
  moves : Moved state next (moved carries)
  carried_ : ∀ carry ∈ carries, (carry.projectId,carry.workspaceId) ∈ placement.targets ∧
    ∀ move ∈ carry.moves, move.row ∈ carried state carry.projectId ∧ ∀ target ∈ move.target, target = carry.workspaceId
  text : ∃ text, planPlacement plain state placement = .ok (carries,text) ∧
    (∀ approved ∈ text, confirmation = .approved approved) ∧ (text = none → moved carries = [] ∧ placement.domain = none)

section Placements
variable {plain : Char → Bool} {state state' next : Identities} {placement placement' : Placement}
  {carries carries' : List Carry} {text : List Char}

theorem insertionSort_nil {α : Type} {r : α → α → Prop} [DecidableRel r] {items : List α}
    (none_ : items.insertionSort r = []) : items = [] := by
  have same := (List.perm_insertionSort r items).length_eq
  rw [none_] at same
  exact List.length_eq_zero_iff.mp same.symm

theorem ordered_none (none_ : ordered carries = []) : moved carries = [] := by
  have empty : ∀ carry ∈ carries, carry.moves = [] := by
    intro carry member
    have kept := List.filter_eq_nil_iff.mp (insertionSort_nil none_) carry member
    simpa using kept
  rw [moved,List.flatMap_eq_nil_iff.mpr empty]
  rfl

theorem placementSummary_none {domain : Option (List Char)} (ok : placementSummary plain state carries domain = .ok none) :
    ordered carries = [] ∧ domain = none := by
  unfold placementSummary at ok
  dsimp only at ok
  by_contra some_
  rw [if_neg some_] at ok
  obtain ⟨_,_,ok⟩ := bind_ok ok
  obtain ⟨_,_,ok⟩ := bind_ok ok
  obtain ⟨text,_,ok⟩ := bind_ok ok
  obtain ⟨_,ok⟩ := if_refused ok
  cases ok

theorem planPlacement_ok {text : Option (List Char)} (ok : planPlacement plain state placement = .ok (carries,text)) :
    (∀ carry ∈ carries, ∃ target ∈ placement.targets, planCarry state target.1 target.2 = .ok carry) ∧
      ∃ domain, domainText placement.domain = .ok domain ∧ placementSummary plain state carries domain = .ok text := by
  obtain ⟨planned,each,ok⟩ := bind_ok ok
  obtain ⟨domain,changed,ok⟩ := bind_ok ok
  obtain ⟨shown,texted,ok⟩ := bind_ok ok
  cases ok
  exact ⟨mapM_ok each,domain,changed,texted⟩

theorem domainText_none {change : Option (String × Option String)} (ok : domainText change = .ok none) : change = none := by
  cases change with
  | none => rfl
  | some change =>
    obtain ⟨_,_,some_⟩ := map_ok ok
    cases some_

theorem domainText_text {change : Option (String × Option String)} {domain : Option (List Char)}
    (ok : domainText change = .ok domain) : DomainText domain := by
  cases change with
  | none => cases ok; exact nofun
  | some change =>
    obtain ⟨text,made,rfl⟩ := map_ok ok
    rintro _ ⟨⟩
    exact domainSummary_ok made

theorem placementWrite_placed {confirmation : PlacementConfirmation} (asked : confirmation ≠ .notRequired)
    (ok : placementWrite plain state true confirmation placement = .ok (next,carries)) :
    Placed plain state next confirmation placement carries := by
  obtain ⟨⟨planned,text⟩,plan,ok⟩ := bind_ok ok
  obtain ⟨confirmed,ok⟩ := if_refused ok
  obtain ⟨rfl,rfl⟩ := Prod.ext_iff.mp (Except.ok.inj ok)
  obtain ⟨each,domain,changed,texted⟩ := planPlacement_ok plan
  refine ⟨applyMoves_moved _,?_,text,plan,?_,?_⟩
  · intro carry member
    obtain ⟨target,among,one⟩ := each carry member
    obtain ⟨project,workspace,moves⟩ := planCarry_ok one
    rw [project,workspace]
    exact ⟨among,moves⟩
  · rintro approved ⟨⟩
    rw [Option.any_some,Bool.not_eq_true',Bool.not_eq_false] at confirmed
    cases confirmation with
    | notRequired => exact absurd rfl asked
    | approved approval => exact congrArg PlacementConfirmation.approved (beq_iff_eq.mp confirmed)
    | noPrompt => cases confirmed
  · rintro rfl
    obtain ⟨none_,rfl⟩ := placementSummary_none texted
    exact ⟨ordered_none none_,domainText_none changed⟩

/-- One text of two placements: the same change of domain by its text, and the same carry. -/
theorem placement_same (one : planPlacement plain state placement = .ok (carries,some text))
    (other : planPlacement plain state' placement' = .ok (carries',some text)) :
    domainText placement.domain = domainText placement'.domain ∧
      (ordered carries = [] ∧ ordered carries' = [] ∨ SameCarry plain (ordered carries) (ordered carries')) := by
  obtain ⟨_,domain,changed,texted⟩ := planPlacement_ok one
  obtain ⟨_,domain',changed',texted'⟩ := planPlacement_ok other
  obtain ⟨same,carry⟩ := written_same (domainText_text changed) (domainText_text changed') (placementSummary_ok texted)
    (placementSummary_ok texted')
  exact ⟨by rw [changed,changed',same],carry⟩

end Placements

section Repairs
variable {state next : Identities} {moves moves' : List NamespaceMove} {approval : List Char}

theorem repairWrite_ok (ok : repairWrite state approval = .ok (next,moves)) :
    planCorrection state = .ok moves ∧ repairSummary moves = approval ∧ Moved state next moves := by
  obtain ⟨planned,plan,ok⟩ := bind_ok ok
  obtain ⟨approved,ok⟩ := if_refused ok
  obtain ⟨rfl,rfl⟩ := Prod.ext_iff.mp (Except.ok.inj ok)
  exact ⟨plan,not_not.mp approved,applyMoves_moved _⟩

theorem repair_same (same : repairSummary moves = repairSummary moves') : counts moves = counts moves' := by
  unfold repairSummary at same
  simp only [List.append_assoc] at same
  obtain ⟨cleared,same⟩ := digits_cut (c := ' ') (d := ' ') rfl rfl (List.append_cancel_left same)
  have rest : " stored workspaces, move ".toList ++ _ = " stored workspaces, move ".toList ++ _ := same
  obtain ⟨moved,_⟩ := digits_cut (c := ' ') (d := ' ') rfl rfl (List.append_cancel_left rest)
  exact Prod.ext cleared moved

end Repairs

namespace Crew

/-- Private use characters are escaped. -/
def printable (c : Char) : Bool := decide (' ' ≤ c ∧ c < '\uE000')

def project : String := "P"

/-- A name of eight private use characters. -/
def glyphs (c : Char) : String := String.ofList (List.replicate 8 c)

def member (id name : String) : AgentRow where
  agentId := id
  name := name
  nameVersion := 1
  tag := "crew"
  labels := []
  role := "hiree"
  projectId := some project
  workspaceId := none
  status := "live"
  mergedInto := none
  supervisorAgentId := none
  createdAtMs := 0
  terminalAtMs := none
  agentGeneration := 1

def aboard (state : Identities) (id name : String) : Identities :=
  { state.put id (member id name) with
    claims := state.claims.insert id ⟨"workspace","old",name.toList,name⟩ }

def empty : Identities where
  agents := ∅
  claims := ∅
  projects := ∅
  aliases := ∅
  workspaces := ∅
  placements := ∅
  cutover := true
  named := nofun

/-- Two hirees whose names the prompt shows, and a third. -/
def crew (id name : String) : Identities :=
  aboard (aboard (aboard empty "agent_00000001" (glyphs '\uE001')) "agent_00000002" (glyphs '\uE002')) id name

def third : String := glyphs '\uE003'

def fourth : String := glyphs '\uE004'

def placement : Placement := ⟨[(project,"W")],none⟩

def asked : List Char :=
  clauseText printable project "W" [glyphs '\uE001',glyphs '\uE002'] ++ " and 1 more".toList

def carriedWith (name : String) : List Clause :=
  [(project,"W",[glyphs '\uE001',glyphs '\uE002',name])]

theorem planned_third : ((planPlacement printable (crew "agent_00000003" third) placement).toOption.map fun plan =>
    (carriedNames plan.1,plan.2)) = some (carriedWith third,some asked) := by decide +kernel

theorem written_fourth : ((placementWrite printable (crew "agent_00000004" fourth) true (.approved asked) placement).toOption.map
    fun written => carriedNames written.2) = some (carriedWith fourth) := by decide +kernel

theorem toOption_ok {ε α β : Type} {result : Except ε α} {f : α → β} {value : β}
    (is : result.toOption.map f = some value) : ∃ a, result = .ok a ∧ f a = value := by
  cases result with
  | error e => cases is
  | ok a => exact ⟨a,rfl,Option.some.inj is⟩

end Crew

end Entorhinal.Approvals
