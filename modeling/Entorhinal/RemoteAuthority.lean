import Entorhinal.RemoteLaw

/-! What a received entry has authority over: the claims and rows of its own agents, its author's name, and what goes
with the projects and workspaces it deletes. A refused entry changes nothing. -/
namespace Entorhinal.Remote

section Claims

def owners (agents : List AgentChangeEntry) : List String := agents.map AgentChangeEntry.agentId

/-- The claims of every other agent are the same, on both sides. -/
def OthersSame (agents : List AgentChangeEntry) (i j : Identity) : Prop :=
  ∀ id (claim : AgentNameClaim), claim.agentId ∉ owners agents →
    (i.claims.get? id = some claim ↔ j.claims.get? id = some claim)

/-- Every claim that is carried is of its own agent, and so is the stored one of its id. -/
def Own (agents : List AgentChangeEntry) (i : Identity) : Prop :=
  ∀ agent ∈ agents, ∀ claim ∈ agent.claims, claim.agentId = agent.agentId ∧
    ∀ stored, i.claims.get? claim.claimId = some stored → stored.agentId = agent.agentId

/-- As `Own`, but a stored claim may be of another carried agent. -/
def Within (agents : List AgentChangeEntry) (i : Identity) : Prop :=
  ∀ agent ∈ agents, ∀ claim ∈ agent.claims, claim.agentId = agent.agentId ∧
    ∀ stored, i.claims.get? claim.claimId = some stored → stored.agentId ∈ owners agents

/-- Different agents carry claims of different ids. -/
def Apart (agents : List AgentChangeEntry) : Prop :=
  ∀ a ∈ agents, ∀ b ∈ agents, ∀ c ∈ a.claims, ∀ d ∈ b.claims, c.claimId = d.claimId → a.agentId = b.agentId

/-- An agent's row is the stored one or a carried after-image. -/
def RowsOf (agents : List AgentChangeEntry) (i j : Identity) : Prop :=
  ∀ id, j.agents.get? id = i.agents.get? id ∨
    ∃ agent ∈ agents, agent.row.agentId = id ∧ j.agents.get? id = some agent.row

/-- Only the carried agents are written. -/
structure Written (agents : List AgentChangeEntry) (i j : Identity) : Prop where
  rows : RowsOf agents i j
  others : Within agents i → OthersSame agents i j
  own : Apart agents → Own agents i → Own agents j

variable {agents : List AgentChangeEntry} {i j k : Identity}

theorem mem_owners {agent : AgentChangeEntry} (inside : agent ∈ agents) : agent.agentId ∈ owners agents :=
  List.mem_map_of_mem inside

theorem Own.within (own : Own agents i) : Within agents i := by
  intro agent inside claim member
  obtain ⟨same,stored⟩ := own agent inside claim member
  exact ⟨same,fun old found => stored old found ▸ mem_owners inside⟩

theorem Own.sub {some : List AgentChangeEntry} (own : Own agents i) (sub : some ⊆ agents) : Own some i :=
  fun agent inside => own agent (sub inside)

theorem Within.after (within : Within agents i) (same : OthersSame agents i j) : Within agents j := by
  intro agent inside claim member
  obtain ⟨owner,stored⟩ := within agent inside claim member
  refine ⟨owner,fun old found => ?_⟩
  by_contra other
  exact other (stored old ((same _ old other).mpr found))

theorem OthersSame.trans (one : OthersSame agents i j) (two : OthersSame agents j k) : OthersSame agents i k :=
  fun id claim other => (one id claim other).trans (two id claim other)

theorem RowsOf.trans (one : RowsOf agents i j) (two : RowsOf agents j k) : RowsOf agents i k := by
  intro id
  rcases two id with same | new
  · rw [same]
    exact one id
  · exact .inr new

instance : IsPreorder Identity (Written agents) where
  refl _ := ⟨fun _ => .inl rfl,fun _ _ _ _ => .rfl,fun _ own => own⟩
  trans _ _ _ a b := ⟨a.rows.trans b.rows,fun within => (a.others within).trans (b.others (within.after (a.others within))),
    fun apart own => b.own apart (a.own apart own)⟩

theorem written_row {agent : AgentChangeEntry} (inside : agent ∈ agents) (i : Identity) :
    Written agents i (i.writeRow agent.row) := by
  refine ⟨fun id => ?_,fun _ _ _ _ => .rfl,fun _ own => own⟩
  rw [Identity.writeRow,Table.get?_insert]
  split
  next here => exact .inr ⟨agent,inside,here.symm,rfl⟩
  next => exact .inl rfl

@[simp] theorem get?_writeClaim (i : Identity) (claim : AgentNameClaim) (id : Int) :
    (i.writeClaim claim).claims.get? id = if id = claim.claimId then
      some (match i.claims.get? claim.claimId with
        | some stored => { stored with releasedAtMs := claim.releasedAtMs }
        | none => claim)
    else i.claims.get? id :=
  Table.get?_insert _ _ _ _

/-- A claim's row is of the agent it was of, or of its first writer. -/
theorem writeClaim_owner {i : Identity} {claim row : AgentNameClaim} {id : Int}
    (found : (i.writeClaim claim).claims.get? id = some row) :
    (∃ stored, i.claims.get? id = some stored ∧ stored.agentId = row.agentId) ∨
      id = claim.claimId ∧ i.claims.get? claim.claimId = none ∧ row = claim := by
  rw [get?_writeClaim] at found
  split at found
  next here =>
    subst here
    cases stored : i.claims.get? claim.claimId with
    | some old =>
      rw [stored] at found
      cases found
      exact .inl ⟨old,rfl,rfl⟩
    | none =>
      rw [stored] at found
      cases found
      exact .inr ⟨rfl,rfl,rfl⟩
  next => exact .inl ⟨row,found,rfl⟩

theorem written_claim {agent : AgentChangeEntry} (inside : agent ∈ agents) {claim : AgentNameClaim}
    (member : claim ∈ agent.claims) (i : Identity) : Written agents i (i.writeClaim claim) where
  rows _ := .inl rfl
  others within id row other := by
    obtain ⟨owner,stored⟩ := within agent inside claim member
    rw [get?_writeClaim]
    split
    next here =>
      subst here
      cases old : i.claims.get? claim.claimId with
      | some kept =>
        have carried := stored kept old
        refine ⟨fun same => absurd (Option.some.inj same ▸ carried) other,fun same => ?_⟩
        cases Option.some.inj same
        exact absurd carried other
      | none =>
        refine ⟨nofun,fun same => ?_⟩
        cases Option.some.inj same
        exact absurd (owner ▸ mem_owners inside) other
    next => rfl
  own apart own a carried c listed := by
    refine ⟨(own a carried c listed).1,fun row found => ?_⟩
    rcases writeClaim_owner found with ⟨stored,old,same⟩ | ⟨here,_,rfl⟩
    · exact same ▸ (own a carried c listed).2 stored old
    · exact ((own agent inside row member).1).trans (apart a carried agent inside c listed row member here).symm

end Claims

section Live

/-- A live agent has one claim that is not released. -/
def Counted (i : Identity) (id : String) : Prop :=
  ∀ row, i.agents.get? id = some row → row.status = "live" → (i.activeClaims id).length = 1

/-- An after-image names its agent once, and its op writes. -/
def Imaged (agent : AgentChangeEntry) : Prop :=
  agent.agentId = agent.row.agentId ∧ agent.op ≠ identityMarkerOp ∧ agent.op ∈ identityChangeOps

variable {agents : List AgentChangeEntry} {i j : Identity} {id : String}

theorem loadClaims_same (same : OthersSame agents i j) (other : id ∉ owners agents) : j.loadClaims id = i.loadClaims id := by
  have filtered : (j.claims.filter fun _ claim => claim.agentId == id) = i.claims.filter fun _ claim => claim.agentId == id := by
    ext key claim
    simp only [Table.get?_filter,Option.filter_eq_some_iff,beq_iff_eq]
    refine and_congr_left fun is => (same key claim ?_).symm
    rw [is]
    exact other
  rw [Identity.loadClaims,filtered]
  rfl

theorem written_counted (written : Written agents i j) (within : Within agents i) (imaged : ∀ agent ∈ agents, Imaged agent)
    (other : id ∉ owners agents) (counted : Counted i id) : Counted j id := by
  intro row found live
  rw [Identity.activeClaims,loadClaims_same (written.others within) other]
  refine counted row ?_ live
  rcases written.rows id with same | ⟨agent,inside,is,_⟩
  · exact same ▸ found
  · exact absurd (is ▸ (imaged agent inside).1 ▸ mem_owners inside) other

/-- The rules that only say who writes the agents and the claims. -/
def claimRules (agents : List AgentChangeEntry) : Rules where
  identity := Written agents
  names _ _ := True
  machine _ _ := True
  identityOrder := inferInstance
  namesOrder := { refl _ := trivial, trans _ _ _ _ _ := trivial }
  machineOrder := { refl _ := trivial, trans _ _ _ _ _ := trivial }

theorem claimRules_allows {agent : AgentChangeEntry} (inside : agent ∈ agents) : (claimRules agents).Allows agent :=
  ⟨written_row inside,fun _ member => written_claim inside member⟩

variable {F R : Type} {outside : Outside F R} {entry : RemoteEntry}

theorem replay_row {agent : AgentChangeEntry} (imaged : Imaged agent) {s t : Store F R}
    (ok : replayAgentEntry outside agent s = .ok t) : t.identity.agents.get? agent.agentId = some agent.row := by
  rw [replayAgentEntry,if_neg (by simp [imaged.2.1,imaged.2.2])] at ok
  obtain ⟨u,wrote,ok⟩ := bind_ok ok
  have start : u.identity.agents.get? agent.agentId = some agent.row := by
    rw [execute_ok wrote,imaged.1]
    simp [Identity.writeRow]
  refine foldlM_ok (fun u => u.identity.agents.get? agent.agentId = some agent.row) (fun a claim b so taken => ?_) start ok
  rw [execute_ok taken]
  exact so

theorem installAgent_counted {agent : AgentChangeEntry} (imaged : Imaged agent) {s t : Store F R} {seq : Int}
    {payload : Payload F} (ok : installAgent outside agent entry s = .ok (t,seq,payload)) :
    Counted t.identity agent.agentId := by
  obtain ⟨replayed,count⟩ := installAgent_ok ok
  intro row found live
  have same : Imaged { agent with seq := s.nextSeq } := imaged
  have is : row = agent.row := Option.some.inj (found.symm.trans (replay_row same replayed))
  rw [count,if_pos (is ▸ live)]

/-- After the carried agents from `rest` on, all are counted: each is when it is installed, and the later ones write
only their own. -/
theorem carried_counted (apart : Apart agents) (imaged : ∀ agent ∈ agents, Imaged agent) {empty : Bool}
    {rest : List AgentChangeEntry} (sub : rest ⊆ agents) {p q : Store F R × Option (Int × Payload F)}
    (ok : rest.foldlM (carriedStep outside entry empty) p = .ok q) (own : Own agents p.1.identity)
    (counted : ∀ id ∉ owners rest, Counted p.1.identity id) : ∀ id, Counted q.1.identity id := by
  induction rest generalizing p with
  | nil =>
    cases ok
    exact fun id => counted id List.not_mem_nil
  | cons agent rest ih =>
    rw [List.foldlM_cons] at ok
    obtain ⟨middle,taken,ok⟩ := bind_ok ok
    obtain ⟨u,seq,payload,installed,is,_⟩ := carriedStep_ok taken
    have inside : agent ∈ agents := sub List.mem_cons_self
    have all := (installAgent_holds (claimRules_allows inside) installed).identity
    have sole : agent ∈ [agent] := List.mem_singleton_self agent
    have one := (installAgent_holds (claimRules_allows sole) installed).identity
    refine ih (fun _ later => sub (List.mem_cons_of_mem _ later)) ok (is ▸ all.own apart own) fun id later => ?_
    rw [is]
    by_cases here : id = agent.agentId
    · exact here ▸ installAgent_counted (imaged agent inside) installed
    · have others : id ∉ owners [agent] := by simpa [owners] using here
      refine written_counted one (own.sub (List.cons_subset.mpr ⟨inside,List.nil_subset _⟩)).within
        (fun a member => List.mem_singleton.mp member ▸ imaged agent inside) others (counted id ?_)
      rw [owners,List.map_cons,List.mem_cons]
      exact not_or.mpr ⟨here,later⟩

theorem install_counted [DecidableEq F] {decoded : Decoded F} {s t : Store F R} (ok : install outside decoded entry s = .ok t)
    (change : ∀ project, decoded = .project project → project.op = "project.shared") (apart : Apart decoded.agents)
    (imaged : ∀ agent ∈ decoded.agents, Imaged agent) (own : Own decoded.agents s.identity)
    (counted : ∀ id, Counted s.identity id) : ∀ id, Counted t.identity id := by
  intro id
  by_cases mine : id ∈ owners decoded.agents
  · cases decoded with
    | user _ | pins _ | member _ => exact absurd mine List.not_mem_nil
    | agent agent =>
      obtain ⟨⟨u,seq,payload⟩,installed,ok⟩ := bind_ok ok
      cases ok
      have is : id = agent.agentId := List.mem_singleton.mp mine
      have made := installAgent_counted (imaged agent List.mem_cons_self) installed
      exact is ▸ made
    | project project =>
      obtain ⟨one,started,ok⟩ := bind_ok ok
      rw [if_neg (by rw [change project rfl]; decide)] at started
      cases started
      have carried : project.agents.isEmpty = false := by
        cases none : project.agents with
        | nil =>
          rw [Decoded.agents,none] at mine
          cases mine
        | cons => rfl
      rw [if_pos ⟨change project rfl,carried⟩] at ok
      obtain ⟨one,tagged,last,first,folded,is,_⟩ := applyCarried_ok ok
      have before : Written project.agents s.identity one.identity := by
        rcases first with rfl | first
        · exact refl _
        · have keeps : ∀ seq, Abides (claimRules project.agents).Holds fun s => project.apply outside seq s := fun _ =>
            apply_keeps (fun _ _ _ => trivial) (fun _ _ _ => trivial) fun _ inside => allowed_keeps (claimRules_allows inside)
          exact (keeps _ _ _ first).identity
      rw [is]
      exact carried_counted apart imaged (List.Subset.refl _) folded (before.own apart own)
        (fun other apart' => written_counted before own.within imaged apart' (counted other)) id
  · have keeps : Abides (claimRules decoded.agents).Holds fun s => install outside decoded entry s :=
      install_keeps (fun _ inside => claimRules_allows inside) (fun _ _ _ => trivial) fun _ _ _ _ _ => trivial
    exact written_counted (keeps _ _ ok).identity own.within imaged mine (counted id)

end Live

section Decoding
variable {F R : Type} {outside : Outside F R} {entry : RemoteEntry} {s : Store F R} {decoded : Decoded F}

theorem checkAgentEntry_own {agents : List AgentChangeEntry} (ok : ∀ agent ∈ agents, checkAgentEntry s agent = .ok ()) :
    Own agents s.identity := by
  intro agent inside claim member
  have checked := ok agent inside
  rw [checkAgentEntry] at checked
  split at checked
  · cases checked
  · have claimed := forM_ok checked claim member
    simp only [checkClaim] at claimed
    split at claimed
    · cases claimed
    next sound =>
      obtain ⟨same,owner⟩ := not_or.mp sound
      refine ⟨not_not.mp same,fun stored found => ?_⟩
      simpa [found] using owner

theorem checkAgentEntry_named {agent : AgentChangeEntry} (ok : checkAgentEntry s agent = .ok ()) :
    agent.agentId = agent.row.agentId := by
  rw [checkAgentEntry] at ok
  split at ok
  · cases ok
  next same => exact not_not.mp (not_or.mp same).1

theorem agentOps_written {op : String} (inside : op ∈ agentOps) : op ≠ identityMarkerOp ∧ op ∈ identityChangeOps := by
  simp only [agentOps,List.mem_cons,List.not_mem_nil,or_false] at inside
  rcases inside with rfl | rfl | rfl | rfl | rfl | rfl | rfl | rfl | rfl <;> decide

/-- An entry's own checks, and what they say of the agents, the name and the kind it carries. -/
structure Sound (entry : RemoteEntry) (s : Store F R) (decoded : Decoded F) : Prop where
  kind : entry.kind = "change" ∨ entry.kind = "snapshot"
  name : ∀ name ∈ decoded.memberName, name.author = entry.author
  change : entry.kind = "change" → ∀ project, decoded = .project project → project.op = "project.shared"
  agents : entry.kind = "change" → ∀ agent ∈ decoded.agents, checkAgentEntry s agent = .ok () ∧ Imaged agent

theorem validate_ops [DecidableEq F] {project : ProjectEntry F} (ok : project.validate outside = .ok ())
    (shared : project.op = "project.shared") {agent : AgentChangeEntry} (inside : agent ∈ project.agents) :
    agent.op = "agent.set_namespace" := by
  rw [ProjectEntry.validate] at ok
  split at ok
  · cases ok
  next sound =>
    have all := not_and.mp (not_or.mp (not_or.mp sound).2).2 shared
    by_contra off
    exact all (List.any_eq_true.mpr ⟨agent,inside,by simpa using off⟩)

theorem decode_sound [DecidableEq F] (ok : decode outside entry s = .ok decoded) : Sound entry s decoded := by
  rw [decode] at ok
  split at ok
  · cases ok
  split at ok
  · cases ok
  next known =>
  have kind : entry.kind = "change" ∨ entry.kind = "snapshot" := by
    by_contra off
    exact known (not_or.mp off)
  split at ok
  · cases ok
  next value _ =>
  split at ok
  · cases ok
  next op _ =>
  split at ok
  next carrier =>
    split at ok
    · cases ok
    next project _ =>
    obtain ⟨_,valid,ok⟩ := bind_ok ok
    split at ok
    · cases ok
    next named =>
    have mine : ∀ name ∈ project.memberName, name.author = entry.author := by
      intro name is
      by_contra off
      exact named (by rw [is]; simpa using off)
    rcases carrier with ⟨change,rfl⟩ | ⟨snapshot,rfl⟩
    · dsimp only at ok
      rw [if_pos rfl] at ok
      obtain ⟨_,checked,ok⟩ := bind_ok ok
      cases ok
      refine ⟨kind,mine,fun _ other is => by cases is; rfl,fun _ agent inside => ?_⟩
      have checked := forM_ok checked agent inside
      refine ⟨checked,checkAgentEntry_named checked,agentOps_written ?_⟩
      rw [validate_ops valid rfl inside]
      decide
    · dsimp only at ok
      rw [if_neg (by decide)] at ok
      cases ok
      refine ⟨kind,mine,fun change => ?_,fun change => ?_⟩
      all_goals
        rw [snapshot] at change
        exact absurd change (by decide)
  split at ok
  next =>
    split at ok
    · cases ok
    next name _ =>
    obtain ⟨_,valid,ok⟩ := bind_ok ok
    split at ok
    · cases ok
    next same =>
    cases ok
    exact ⟨kind,fun n is => (Option.some.inj is) ▸ not_not.mp same,fun _ _ is => (by cases is),fun _ _ none => by cases none⟩
  split at ok
  next =>
    split at ok
    · cases ok
    next pins _ =>
    obtain ⟨_,valid,ok⟩ := bind_ok ok
    cases ok
    exact ⟨kind,fun _ none => (by cases none),fun _ _ is => (by cases is),fun _ _ none => by cases none⟩
  split at ok
  next =>
    split at ok
    · cases ok
    next user _ =>
    obtain ⟨_,valid,ok⟩ := bind_ok ok
    cases ok
    exact ⟨kind,fun _ none => (by cases none),fun _ _ is => (by cases is),fun _ _ none => by cases none⟩
  split at ok
  next change =>
    split at ok
    · cases ok
    next agent _ =>
    obtain ⟨_,checked,ok⟩ := bind_ok ok
    cases ok
    refine ⟨kind,fun _ none => (by cases none),fun _ _ is => (by cases is),fun _ other inside => ?_⟩
    rw [List.mem_singleton.mp inside]
    exact ⟨checked,checkAgentEntry_named checked,agentOps_written change.2⟩
  · cases ok

end Decoding

section Authority
variable {F R : Type} (outside : Outside F R)

/-- The position is the entry's; agents, names and the machine's tables are not touched. -/
theorem advance_keeps (position : Int) (s : Store F R) :
    (advance position s).identity = s.identity ∧ (advance position s).memberNames = s.memberNames ∧
      (advance position s).machine = s.machine ∧ (advance position s).rest = s.rest ∧
      (advance position s).lastAppliedPosition = position := by
  simp only [advance,finishJoinAtHead]
  split <;> exact ⟨rfl,rfl,rfl,rfl,rfl⟩

theorem learnIdentity_keeps (author : Option String) (now : Int) (s : Store F R) :
    (learnIdentity author now s).identity = s.identity ∧ (learnIdentity author now s).memberNames = s.memberNames ∧
      (learnIdentity author now s).machine = s.machine ∧ (learnIdentity author now s).rest = s.rest ∧
      (learnIdentity author now s).lastAppliedPosition = s.lastAppliedPosition := by
  unfold learnIdentity
  split <;> exact ⟨rfl,rfl,rfl,rfl,rfl⟩

theorem applyEntry_ok [DecidableEq F] {outside : Outside F R} {entry : RemoteEntry} {s t : Store F R}
    (ok : applyEntry outside entry s = .ok t) :
    ∃ decoded one, decode outside entry s = .ok decoded ∧ entry.position = s.lastAppliedPosition + 1 ∧
      (one = s ∨ install outside decoded entry s = .ok one) ∧ t = advance entry.position one := by
  obtain ⟨decoded,read,ok⟩ := bind_ok ok
  split at ok
  · cases ok
  next next =>
  obtain ⟨one,installed,ok⟩ := bind_ok ok
  refine ⟨decoded,one,read,not_not.mp next,?_,?_⟩
  · rw [installOnce] at installed
    split at installed
    · cases installed
      exact .inl rfl
    · exact .inr installed
  · dsimp only at ok
    split at ok
    · cases ok
    · cases ok
      rfl

/-- A name is written for one author only. -/
def NamedBy (author : String) (names after : Table String String) : Prop :=
  ∀ other, other ≠ author → after.get? other = names.get? other

instance {author : String} : IsPreorder (Table String String) (NamedBy author) where
  refl _ _ _ := rfl
  trans _ _ _ a b other apart := (b other apart).trans (a other apart)

/-- What a project entry's deletes take with them; nothing else of the machine changes. -/
def MachineBy (outside : Outside F R) (decoded : Decoded F) (m m' : Machine) : Prop :=
  match decoded with
  | .project project => (project.gone outside).Cascades m m'
  | .agent _ | .member _ | .pins _ | .user _ => m' = m

instance {outside : Outside F R} {decoded : Decoded F} : IsPreorder Machine (MachineBy outside decoded) := by
  cases decoded with
  | project project => exact inferInstanceAs (IsPreorder Machine (project.gone outside).Cascades)
  | agent _ | member _ | pins _ | user _ => exact { refl _ := rfl, trans _ _ _ a b := b.trans a }

/-- The store after an accepted entry. The claims of agents that the entry does not carry are as before after a change,
and after one whose agents carry different claims every live agent is still counted. -/
structure Authorised (entry : RemoteEntry) (decoded : Decoded F) (s t : Store F R) : Prop where
  agents : RowsOf decoded.agents s.identity t.identity
  claims : entry.kind = "change" → OthersSame decoded.agents s.identity t.identity
  live : entry.kind = "change" → Apart decoded.agents → (∀ id, Counted s.identity id) → ∀ id, Counted t.identity id
  names : NamedBy entry.author s.memberNames t.memberNames
  machine : MachineBy outside decoded s.machine t.machine
  rest : t.rest = s.rest
  position : entry.position = s.lastAppliedPosition + 1 ∧ t.lastAppliedPosition = entry.position

def authorityRules (entry : RemoteEntry) (decoded : Decoded F) : Rules where
  identity := Written decoded.agents
  names := NamedBy entry.author
  machine := MachineBy outside decoded
  identityOrder := inferInstance
  namesOrder := inferInstance
  machineOrder := inferInstance

theorem applyEntry_authorised [DecidableEq F] {outside : Outside F R} {entry : RemoteEntry} {s t : Store F R}
    (ok : applyEntry outside entry s = .ok t) :
    ∃ decoded, decode outside entry s = .ok decoded ∧ Authorised outside entry decoded s t := by
  obtain ⟨decoded,one,read,next,installed,rfl⟩ := applyEntry_ok ok
  have sound := decode_sound read
  have holds : (authorityRules outside entry decoded).Holds s one := by
    rcases installed with rfl | installed
    · exact refl _
    · refine install_keeps (fun _ inside => ⟨written_row inside,fun _ member => written_claim inside member⟩)
        (fun name is n other apart => ?_) (fun project is m m' cascades => ?_) _ _ installed
      · rw [Table.get?_insert,if_neg (sound.name name is ▸ apart)]
      · cases is
        exact cascades
  have own : entry.kind = "change" → Own decoded.agents s.identity := fun change =>
    checkAgentEntry_own fun agent inside => (sound.agents change agent inside).1
  obtain ⟨identity,names,machine,rest,position⟩ := advance_keeps entry.position one
  refine ⟨decoded,read,identity ▸ holds.identity.rows,fun change => identity ▸ holds.identity.others (own change).within,
    fun change apart counted => ?_,names ▸ holds.names,machine ▸ holds.machine,rest.trans holds.rest,next,position⟩
  rw [identity]
  rcases installed with rfl | installed
  · exact counted
  · exact install_counted installed (sound.change change) apart (fun agent inside => (sound.agents change agent inside).2)
      (own change) counted

end Authority

section Cases

/-- Every value has the op, and every op one record; the names are unique, and so is an agent's active claim. -/
def casesOutside (op : String) (project : ProjectEntry Unit) (agent : AgentChangeEntry) : Outside Unit Unit where
  affinity _ _ cell := cell
  constraintsHold s := (s.identity.claims.rows.map Prod.snd).all fun a => (s.identity.claims.rows.map Prod.snd).all fun b =>
    a.claimId == b.claimId || a.releasedAtMs.isSome || b.releasedAtMs.isSome ||
      (a.agentId != b.agentId && a.normalizedName != b.normalizedName)
  foreignKeysHold s := (s.identity.claims.rows.map Prod.snd).all fun a => s.identity.agents.has a.agentId
  fromSlice _ := some (.object [("op",.string op)])
  projectEntry _ := some project
  agentEntry _ := some agent
  memberNameEntry _ := none
  pinSet _ := none
  userEntry _ := none
  rowSound _ _ := true
  userSound _ := true
  profileSound _ := true
  pinDigest _ := none

def caseRow (id name : String) (generation : Int) : AgentRow :=
  ⟨id,name,1,1,"tag",[],"assistant",none,none,none,none,"live",none,none,none,1,2,none,generation⟩

def caseClaim (claimId : Int) (id name : String) (released : Option Int) : AgentNameClaim :=
  ⟨claimId,id,"assistant","",name,1,name,1,released⟩

def caseImage (op : String) (row : AgentRow) (claims : List AgentNameClaim) : AgentChangeEntry :=
  ⟨3,op,row.agentId,row.agentGeneration,row,claims,none,none,none,none⟩

/-- Two live assistants with a claim each, on a machine that has applied four entries. -/
def caseStore : Store Unit Unit where
  shared _ := []
  identity := {
    agents := (∅ : Table String AgentRow).insert "agent_0000000a" (caseRow "agent_0000000a" "ada" 5)
      |>.insert "agent_0000000b" (caseRow "agent_0000000b" "bob" 5)
    claims := (∅ : Table Int AgentNameClaim).insert 1 (caseClaim 1 "agent_0000000a" "ada" none)
      |>.insert 2 (caseClaim 2 "agent_0000000b" "bob" none) }
  memberNames := ∅
  machine _ := []
  journal := []
  state := .enabled
  lastAppliedPosition := 4
  lastSeenHead := 4
  pending := ∅
  selfAuthor := none
  rest := ()

def caseEntry (kind : String) : RemoteEntry := ⟨5,"entry","author","signer","key",1,kind,[]⟩

def caseProject (op : String) (tables : Table String (TableChanges Unit)) (agents : List AgentChangeEntry) : ProjectEntry Unit :=
  ⟨op,tables,agents,none⟩

/-- The store after the entry of the kind, where its op has the records. -/
def caseRun (kind op : String) (project : ProjectEntry Unit) (agent : AgentChangeEntry) : Store Unit Unit × Option String :=
  applyRemoteEntry (casesOutside op project agent) (caseEntry kind) none 0 caseStore

/-- A rename with an older after-image. -/
def renamed : Store Unit Unit × Option String :=
  caseRun "change" "agent.rename" (caseProject "" ∅ [])
    (caseImage "agent.rename" (caseRow "agent_0000000a" "ada" 1) [caseClaim 1 "agent_0000000a" "ada" none])

/-- A snapshot that carries the other agent's claim as released. -/
def imported : Store Unit Unit × Option String :=
  let ada := caseImage "agent.import" (caseRow "agent_0000000a" "ada" 5) [caseClaim 2 "agent_0000000b" "bob" (some 9)]
  caseRun "snapshot" "shared.snapshot" (caseProject "shared.snapshot" ∅ [ada]) ada

/-- Two carried agents with a claim of one new id. -/
def carried : Store Unit Unit × Option String :=
  let ada := caseImage "agent.set_namespace" (caseRow "agent_0000000a" "ada" 6)
    [caseClaim 1 "agent_0000000a" "ada" (some 8),caseClaim 7 "agent_0000000a" "ada" none]
  let bob := caseImage "agent.set_namespace" (caseRow "agent_0000000b" "bob" 6) [caseClaim 7 "agent_0000000b" "bob" (some 9)]
  caseRun "change" "project.shared" (caseProject "project.shared" ∅ [ada,bob]) ada

/-- A placement. -/
def placed : Store Unit Unit × Option String :=
  let row := (∅ : Table String (Json Unit)).insert "project_id" (.string "pj-1") |>.insert "workspace_id" (.string "ws-1")
  caseRun "change" "project.shared"
    (caseProject "project.shared" ((∅ : Table String (TableChanges Unit)).insert "project_workspace" ⟨[row],[]⟩) [])
    (caseImage "" (caseRow "" "" 0) [])

end Cases

end Entorhinal.Remote
