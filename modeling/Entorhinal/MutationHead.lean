import Entorhinal.RequestKeys

/-! What a registry mutation leaves behind where it is refused, and the generation its reply
names where it is accepted. Placing a project is the one that appends rows after its own. -/
namespace Entorhinal.MutationHead
open Registry (RegistryError AssignWorkspaceRequest)
open RequestKeys

section Placement

def SET_NAMESPACE_OP : String := "agent.set_namespace"

structure NameClaim where
  namespaceKind : String
  namespaceKey : String
  displayName : String
  normalizedName : String
  normalizationVersion : Int
deriving DecidableEq, Repr

/-- What a carry reads and writes of an agent: its stored workspace and the claim it holds. -/
structure AgentState where
  projectId : Option String
  role : String
  live : Bool
  workspaceId : Option String
  agentGeneration : Int
  claim : NameClaim
deriving DecidableEq, Repr

structure NamespaceMove where
  agentId : String
  row : AgentState
  target : Option String
deriving DecidableEq, Repr

structure Placed where
  tables : Registry.Tables
  agents : Table String AgentState
  cutOver : Bool
deriving DecidableEq

def keyedOn (claim : NameClaim) (workspace : String) : Bool :=
  claim.namespaceKind == "workspace" && claim.namespaceKey == workspace

/-- The change of one live agent of the project, none where nothing would change. -/
def planOne (agentId : String) (row : AgentState) (workspace : String) : Option NamespaceMove :=
  let target := if keyedOn row.claim workspace then none else some workspace
  if row.workspaceId.isSome || target.isSome then some ⟨agentId,row,target⟩ else none

/-- The live heads and hirees of a project that placing it carries, in agent id order. -/
def planCarry (agents : Table String AgentState) (projectId workspaceId : String) : List NamespaceMove :=
  agents.rows.filterMap fun (id,row) =>
    if row.projectId = some projectId ∧ (row.role = "head" ∨ row.role = "hiree") ∧ row.live = true then
      planOne id row workspaceId
    else none

def sameName (a b : NameClaim) : Bool :=
  a.normalizationVersion == b.normalizationVersion && a.normalizedName == b.normalizedName

/-- The names of a batch, each against the claims there are and the ones moved before it. -/
def checkNames (agents : Table String AgentState) : List NamespaceMove → List NamespaceMove → Except RegistryError Unit
  | _,[] => .ok ()
  | batch,move :: later =>
    match move.target with
    | none => checkNames agents batch later
    | some target =>
      let stored := agents.any fun id row => id != move.agentId && row.live && keyedOn row.claim target &&
        sameName row.claim move.row.claim
      let taken := batch.any fun other => other.target == some target && sameName other.row.claim move.row.claim
      if stored || taken then
        .error ⟨"name_conflict","name '" ++ move.row.claim.displayName ++ "' is claimed in workspace/" ++ target⟩
      else checkNames agents (batch ++ [move]) later

def admitCarry (t : Placed) (moves : List NamespaceMove) : Except RegistryError Unit :=
  if moves.isEmpty then .ok ()
  else if !t.cutOver then .error ⟨"authority_not_cut_over","agent identity authority is not cut over"⟩
  else checkNames t.agents [] moves

/-- The row a move leaves: no stored workspace, and the claim in its target. -/
def NamespaceMove.after (move : NamespaceMove) : AgentState :=
  { move.row with
    workspaceId := none
    agentGeneration := move.row.agentGeneration + 1
    claim := match move.target with
      | none => move.row.claim
      | some target => { move.row.claim with namespaceKind := "workspace", namespaceKey := target } }

def applyMoves (agents : Table String AgentState) (moves : List NamespaceMove) : Table String AgentState :=
  moves.foldl (fun agents move => agents.insert move.agentId move.after) agents

def i64Max : Int := 9223372036854775807

/-- `assign_workspace_at`: its own row, then one for each agent carried. `image` is the
after-image that is journaled for a move, `confirmed` the operator's prompt. -/
def assignWorkspaceAt (image : NamespaceMove → String) (confirmed : List NamespaceMove → Except RegistryError Unit)
    (payload : String) (logEnabled : Bool) (req : AssignWorkspaceRequest) (t : Placed) : Except RegistryError (Action Placed Registry.Value) :=
  if !t.tables.live req.projectId then .error ⟨"not_found",req.projectId⟩
  else if t.tables.placement.get? req.projectId = some req.workspaceId then
    .ok ⟨false,t,.placed req.projectId req.workspaceId,payload,false,[],[]⟩
  else
    let moves := planCarry t.agents req.projectId req.workspaceId
    match admitCarry t moves >>= fun _ => confirmed moves with
    | .error refusal => .error refusal
    | .ok () =>
      if moves.any fun move => move.row.agentGeneration == i64Max then
        .error ⟨"storage_error","agent generation overflow"⟩
      else .ok ⟨true,{ t with
        tables := { t.tables with
          workspaces := t.tables.workspaces.insertOrIgnore req.workspaceId (req.workspaceName.getD req.workspaceId)
          placement := t.tables.placement.insert req.projectId req.workspaceId }
        agents := applyMoves t.agents moves },.placed req.projectId req.workspaceId,payload,logEnabled,[],moves.map fun move => (SET_NAMESPACE_OP,image move)⟩

end Placement

variable {σ ν : Type}

section Head
variable {wire : Reply ν → String} {db db' : Db σ ν} {op : String} {key : Option String}
  {action : σ → Except RegistryError (Action σ ν)} {attempt : Option Attempt} {reply : String}

/-- All but the pending rows is as before, and at most the row of a try that may have been sent
is new among those. -/
structure Traceless (db db' : Db σ ν) (attempt : Option Attempt) : Prop where
  journal : db'.journal = db.journal
  tables : db'.tables = db.tables
  logEnabled : db'.logEnabled = db.logEnabled
  lastApplied : db'.lastApplied = db.lastApplied
  lastSeen : db'.lastSeen = db.lastSeen
  pending : db'.pending = db.pending ∨ ∃ a refusal, attempt = some a ∧ a.settlement = .rollback true refusal ∧
    db'.pending = db.pending ++ [(a.id,a.head)]

/-- The reply names the journal's head. -/
def NamesHead (wire : Reply ν → String) (op : String) (db' : Db σ ν) (reply : String) : Prop :=
  ∃ value changed, reply = wire (replyOf op value db'.journal.head changed)

theorem finish_sent {entry : Bool} {failure : Failure} (failed : finish db attempt entry = .error failure) :
    ∃ a refusal, attempt = some a ∧ a.settlement = .rollback failure.sent refusal := by
  unfold finish at failed
  split at failed
  next => cases failed
  next a =>
    split at failed
    next =>
      split at failed
      next => cases failed
      next sent refusal settled => cases failed; exact ⟨a,refusal,rfl,settled⟩
    next => cases failed

theorem map_error {ε α β : Type} {first : Except ε α} {f : α → β} {e : ε} (failed : first.map f = .error e) :
    first = .error e := by
  cases first with
  | error => cases failed; rfl
  | ok => cases failed

/-- A transaction fails after its entry was sent only by the log's answer. -/
theorem mutation_sent {failure : Failure} (failed : mutation wire db op key action attempt = .error failure)
    (sent : failure.sent = true) :
    ∃ a refusal, attempt = some a ∧ a.settlement = .rollback true refusal := by
  have finished : ∀ (at' : Db σ ν) (entry : Bool), finish at' attempt entry = .error failure →
      ∃ a refusal, attempt = some a ∧ a.settlement = .rollback true refusal := by
    intro at' entry failed
    obtain ⟨a,refusal,tried,settled⟩ := finish_sent failed
    exact ⟨a,refusal,tried,sent ▸ settled⟩
  unfold mutation at failed
  split at failed
  next => exact finished _ _ (map_error failed)
  split at failed
  next => cases failed; cases sent
  split at failed
  next => cases failed; cases sent
  next act _ =>
    unfold commit at failed
    split at failed
    next =>
      split at failed
      next => cases failed; cases sent
      next => exact finished _ _ (map_error failed)
    next => exact finished _ _ (map_error failed)

theorem call_traceless {checks : Except RegistryError Unit} {refusal : RegistryError}
    (called : call wire db op key checks action attempt = (db',.error refusal)) : Traceless db db' attempt := by
  have same : Traceless db db attempt := ⟨rfl,rfl,rfl,rfl,rfl,.inl rfl⟩
  unfold call at called
  split at called
  next => cases called; exact same
  unfold sharedAttempt at called
  split at called
  next =>
    split at called
    next => cases called
    next => cases called; exact same
  next tried =>
    split at called
    next => cases called; exact same
    next =>
      dsimp only at called
      split at called
      next => cases called
      next failure failed =>
        cases called
        split
        next sent =>
          obtain ⟨a,refusal,named,settled⟩ := mutation_sent failed sent
          cases named
          exact ⟨rfl,rfl,rfl,rfl,rfl,.inr ⟨_,refusal,rfl,settled,rfl⟩⟩
        next => exact same

theorem call_recorded {checks : Except RegistryError Unit}
    (called : call wire db op key checks action attempt = (db',.ok reply)) :
    ∃ pending, mutation wire { db with pending := pending } op key action attempt = .ok (db',reply) := by
  unfold call at called
  split at called
  next => cases called
  unfold sharedAttempt at called
  split at called
  next =>
    split at called
    next done => cases called; exact ⟨db.pending,done⟩
    next => cases called
  next tried =>
    split at called
    next => cases called
    next =>
      dsimp only at called
      split at called
      next done => cases called; exact ⟨_,done⟩
      next => cases called

/-- How many rows a closure appends. -/
def appended (act : Action σ ν) : Nat := if act.changed then act.before.length + 1 + act.after.length else 0

/-- The generation the reply of a closure names. -/
def namedHead (db : Db σ ν) (act : Action σ ν) : Nat :=
  if act.changed then generationOf db act else db.journal.head

theorem mutation_head {act : Action σ ν} (done : mutation wire db op key action attempt = .ok (db',reply))
    (free : db.journal.cached op key = none) (ran : action db.tables = .ok act) :
    db'.journal.head = db.journal.head + appended act ∧
      reply = wire (replyOf op act.value (namedHead db act) act.changed) := by
  unfold mutation at done
  rw [free] at done
  dsimp only at done
  split at done
  next => cases done
  rw [ran] at done
  unfold commit at done
  dsimp only at done
  split at done
  next changed =>
    split at done
    next => cases done
    next journal added =>
      obtain ⟨after,finished,same⟩ := map_ok done
      cases same
      have rows := congrArg List.length (add_rows added)
      rw [List.length_append,List.length_append,List.length_cons,keyless,keyless,List.length_map,
        List.length_map] at rows
      refine ⟨?_,?_⟩
      · rw [(finish_ok finished).1,appended,if_pos changed,Journal.head,Journal.head,rows]
        omega
      · rw [namedHead,if_pos changed,changed]
        rfl
  next unchanged =>
    obtain ⟨after,finished,same⟩ := map_ok done
    cases same
    have still : act.changed = false := by simpa using unchanged
    rw [(finish_ok finished).1,appended,namedHead,if_neg unchanged,if_neg unchanged,still]
    exact ⟨rfl,rfl⟩

/-- The reply's generation is the head where nothing is appended after the closure's own row,
or the log is on. -/
theorem namedHead_iff (db : Db σ ν) (act : Action σ ν) :
    namedHead db act = db.journal.head + appended act ↔
      db.logEnabled = true ∨ act.changed = false ∨ act.after = [] := by
  unfold namedHead appended generationOf
  cases changed : act.changed with
  | false => simp
  | true =>
    cases enabled : db.logEnabled with
    | true => simp only [if_true,true_or,iff_true]; omega
    | false =>
      rw [if_pos rfl,if_pos rfl,if_neg (Bool.false_ne_true)]
      constructor
      · intro same
        exact .inr (.inr (List.length_eq_zero_iff.mp (by omega)))
      · rintro (no | no | empty)
        · cases no
        · cases no
        · rw [empty,List.length_nil]; omega

/-- A refused mutation leaves no trace but the pending row of a try that may have been sent;
the reply of an accepted one names the committed head just where no journal row follows the
one whose reply it is, or the log is on. -/
theorem mutation_trace_and_head (written : ∀ a b : Reply ν, wire a = wire b → a.generation = b.generation)
    (db : Db σ ν) (op : String) (key : Option String) (checks : Except RegistryError Unit)
    (action : σ → Except RegistryError (Action σ ν)) (attempt : Option Attempt) :
    (∀ refusal, (call wire db op key checks action attempt).2 = .error refusal →
      Traceless db (call wire db op key checks action attempt).1 attempt) ∧
    ∀ reply act, (call wire db op key checks action attempt).2 = .ok reply →
      db.journal.cached op key = none → op ≠ setUser → action db.tables = .ok act →
      (NamesHead wire op (call wire db op key checks action attempt).1 reply ↔
        db.logEnabled = true ∨ act.changed = false ∨ act.after = []) := by
  obtain ⟨⟨after,answer⟩,called⟩ : ∃ result, call wire db op key checks action attempt = result := ⟨_,rfl⟩
  rw [called]
  constructor
  · rintro refusal rfl
    exact call_traceless called
  · rintro reply act rfl free other ran
    obtain ⟨pending,done⟩ := call_recorded called
    obtain ⟨head,replied⟩ := mutation_head done free ran
    have named : ∀ (value : ν) (generation : Nat) (changed : Bool),
        (replyOf op value generation changed).generation = some generation := by
      intro value generation changed
      rw [replyOf,if_neg other]
    rw [← namedHead_iff]
    constructor
    · rintro ⟨value,changed,same⟩
      have generations := written _ _ (replied.symm.trans same)
      rw [named,named] at generations
      exact (Option.some.inj generations).trans head
    · intro same
      refine ⟨act.value,act.changed,?_⟩
      rw [replied,head]
      exact congrArg (fun generation => wire (replyOf op act.value generation act.changed)) same

end Head

namespace Carried

def claim (workspace : String) : NameClaim := ⟨"workspace",workspace,"Ada","ada",1⟩

/-- A project with one head, placed nowhere, and no log. -/
def start : Db Placed Registry.Value where
  journal := ⟨[.of "register" "" none,.of "agent.cutover" "" none,.of "agent.create" "" none],by decide⟩
  tables :=
    { tables := { Registry.Tables.empty with projects := Table.insert ∅ "p" ⟨"p",none,none⟩ }
      agents := Table.insert ∅ "agent_1" ⟨some "p","head",true,none,1,claim "home"⟩
      cutOver := true }
  logEnabled := false
  pending := []
  lastApplied := 0
  lastSeen := 0

def assign : Placed → Except RegistryError (Action Placed Registry.Value) :=
  assignWorkspaceAt (fun move => move.agentId) (fun _ => .ok ()) "" false ⟨"p","w",none⟩

/-- A reply's generation as its text. -/
def shown (reply : Reply Registry.Value) : String :=
  String.ofList (match reply.generation with
    | none => []
    | some generation => List.replicate (generation + 1) 'i')

theorem shown_injective (a b : Reply Registry.Value) (same : shown a = shown b) : a.generation = b.generation := by
  have texts := congrArg (fun text : String => text.toList.length) same
  simp only [shown,String.toList_ofList] at texts
  cases ga : a.generation <;> cases gb : b.generation
  · rfl
  · rw [ga,gb] at texts
    simp at texts
  · rw [ga,gb] at texts
    simp at texts
  · rw [ga,gb] at texts
    simp only [List.length_replicate] at texts
    rw [Nat.succ.inj texts]

/-- The project is placed, its head carried: the journal's head is 5 and the reply says 4. -/
theorem placed_below_head :
    (call shown start "assign_workspace" none (.ok ()) assign none).2 =
        .ok (shown (replyOf "assign_workspace" (.placed "p" "w") 4 true)) ∧
      (call shown start "assign_workspace" none (.ok ()) assign none).1.journal.head = 5 ∧
      ¬NamesHead shown "assign_workspace" (call shown start "assign_workspace" none (.ok ()) assign none).1
        (shown (replyOf "assign_workspace" (.placed "p" "w") 4 true)) := by
  have head : (call shown start "assign_workspace" none (.ok ()) assign none).1.journal.head = 5 := by
    decide +kernel
  refine ⟨by decide +kernel,head,?_⟩
  rintro ⟨value,changed,same⟩
  rw [head] at same
  have generations := shown_injective _ _ same
  cases generations

/-- The head stands in the workspace already: nothing is carried and the reply names the head. -/
theorem nothing_carried :
    (NamesHead shown "assign_workspace"
      (call shown start "assign_workspace" none (.ok ())
        (assignWorkspaceAt (fun move => move.agentId) (fun _ => .ok ()) "" false ⟨"p","home",none⟩) none).1
      (shown (replyOf "assign_workspace" (.placed "p" "home") 4 true))) := by
  have ran : assignWorkspaceAt (fun move => move.agentId) (fun _ => .ok ()) "" false ⟨"p","home",none⟩ start.tables =
      .ok ⟨true,{ start.tables with
        tables := { start.tables.tables with
          workspaces := start.tables.tables.workspaces.insertOrIgnore "home" "home"
          placement := start.tables.tables.placement.insert "p" "home" } },.placed "p" "home","",false,[],[]⟩ := by
    rfl
  exact ((mutation_trace_and_head shown_injective start "assign_workspace" none (.ok ()) _ none).2 _ _
    (by decide +kernel) rfl (by decide) ran).mpr (.inr (.inr rfl))

end Carried

end Entorhinal.MutationHead
