import Entorhinal.Approvals

/-! A batch of avatars: its plan, the text the operator approves it by, and the writes of its entries,
each a transaction of its own. -/
namespace Entorhinal.Avatars

open Approvals (refuse validAgentId)

structure StoredAgentAvatar where
  genome : String
  avatarType : String
  version : Option Int
deriving DecidableEq, Repr

structure AgentRow extends Agents.AgentRow where
  nameNormalizationVersion : Int
  avatar : Option StoredAgentAvatar
  githubIdentity : Option String
  requestKey : Option String
  updatedAtMs : Int
deriving DecidableEq, Repr

structure ManifestEntry where
  agentId : String
  avatarGenome : String
  avatarType : String
  avatarVersion : Int
deriving DecidableEq, Repr

def ManifestEntry.avatar (entry : ManifestEntry) : StoredAgentAvatar :=
  ⟨entry.avatarGenome,entry.avatarType,some entry.avatarVersion⟩

/-- What a reply says of an agent; another caller's is as it stored it. -/
inductive AgentValue
  | described (agentId name : String) (was : Option (String × Option Int)) (becomes : String × Int)
  | json (text : String)
deriving DecidableEq, Repr

structure Reply where
  agent : AgentValue
  generation : Option Int
deriving DecidableEq, Repr

/-- The agents, and the journal's rows that have a request key: their op and their reply. -/
structure Store where
  agents : Table String AgentRow
  keys : Table String (String × Option Reply)
  head : Int
  cutover : Bool
  named : ∀ id row, agents.get? id = some row → row.agentId = id

def SET_AVATAR : String := "agent.set_avatar"

def i64Max : Int := 9223372036854775807

def stale {α : Type} : Except AgentMutationError α :=
  refuse "operator_approval_stale" "agent identities or avatars changed after operator approval"

def requireCutover (store : Store) : Except AgentMutationError Unit :=
  if store.cutover then .ok () else refuse "authority_not_cut_over" "agent identity authority is not cut over"

def cached (store : Store) (op : String) (key : Option String) : Except AgentMutationError (Option Reply) :=
  match key.bind store.keys.get? with
  | none => .ok none
  | some (stored,reply) =>
    if stored ≠ op then
      refuse "request_key_reused_across_ops" ("request_key is already bound to op '" ++ stored ++ "'")
    else .ok reply

def loadRow (store : Store) (id : String) : Option AgentRow :=
  if validAgentId id then store.agents.get? id else none

def avatarLayoutHexChars (avatarType : String) : Option Nat :=
  if avatarType = "creature.classic" then some 2048
  else if avatarType = "creature.wild" then some 32768
  else none

/-- The text of what is wrong with a genome; its length is that of its bytes. -/
def validateAgentAvatar (genome avatarType : String) : Option String :=
  let length := (Utf8.asBytes genome).length
  match avatarLayoutHexChars avatarType with
  | none => some ("invalid_request: unknown avatar type '" ++ avatarType ++ "'")
  | some expected =>
    if length ≠ expected then
      some ("invalid_request: avatar genome for type '" ++ avatarType ++ "' must be exactly " ++ toString (expected / 2) ++ " bytes (" ++
        toString expected ++ " hex chars); received " ++ toString length ++ " hex chars")
    else none

inductive State
  | pending
  | skipped
  | written (agent : AgentValue)
deriving DecidableEq, Repr

structure Planned where
  row : Option AgentRow
  entry : ManifestEntry
  key : Option String
  state : State
deriving DecidableEq, Repr

structure AvatarManifestPlan where
  rows : List Planned
  replace : Bool
  actor : String
  generation : Int
deriving DecidableEq, Repr

def Planned.isPending (planned : Planned) : Bool := planned.state = .pending

/-- The indices of what is still to be written. -/
def AvatarManifestPlan.pending (plan : AvatarManifestPlan) : List Nat :=
  (List.range plan.rows.length).filter fun i => plan.rows[i]?.any Planned.isPending

section Summary
variable (digest : AvatarManifestPlan → List Char)

/-- The text of a plan, with the hash of all of it. -/
def summary (plan : AvatarManifestPlan) : Except AgentMutationError (List Char) :=
  let text := "Apply avatars to ".toList ++ Nat.toDigits 10 plan.pending.length ++ " agents (".toList ++
    ((plan.rows.head?.map fun p => p.entry.avatarType).getD "none").toList ++ "); plan ".toList ++ digest plan
  if Approvals.OPERATOR_SUMMARY_LIMIT < text.length then
    refuse "operator_summary_too_long" "avatar batch summary exceeds 200 characters"
  else .ok text

end Summary

structure Request where
  entries : List ManifestEntry
  replace : Bool
  actor : String
deriving DecidableEq, Repr

/-- What the plan finds of one entry. -/
structure Looked where
  problems : List String
  row : Option Planned
  generation : Int

section Plan
variable (store : Store)

def alreadyApplied (row : AgentRow) (entry : ManifestEntry) : Bool := row.avatar == some entry.avatar

def stateOf (replace : Bool) (row : AgentRow) (entry : ManifestEntry) : State :=
  if alreadyApplied row entry || (!replace && row.avatar.isSome) then .skipped else .pending

/-- Only the label of the same genome would change. -/
def relabels (replace : Bool) (row : AgentRow) (entry : ManifestEntry) : Bool :=
  replace && !alreadyApplied row entry && row.avatar.any fun avatar => avatar.genome == entry.avatarGenome

def liveLooked (replace : Bool) (key : Option String) (row : AgentRow) (entry : ManifestEntry) (early : List String) : Looked :=
  ⟨early ++
    (if relabels replace row entry then
      [entry.agentId ++ " (" ++ row.name ++ "): replacement genome is identical to current genome"] else []) ++
    (if stateOf replace row entry = .pending ∧ row.agentGeneration = i64Max then
      [entry.agentId ++ ": agent generation overflow"] else []),
    some ⟨some row,entry,key,stateOf replace row entry⟩,0⟩

def lookedOf (replace : Bool) (key : Option String) (entry : ManifestEntry) (early : List String) : Option Reply → Looked
  | some reply => ⟨early,some ⟨none,entry,key,.written reply.agent⟩,reply.generation.getD 0⟩
  | none => match (loadRow store entry.agentId).filter fun row => row.status == "live" with
    | some row => liveLooked replace key row entry early
    | none => ⟨early ++ [entry.agentId ++ ": not a live agent"],none,0⟩

def keyOf (batchKey : Option String) (id : String) : Option String := batchKey.map fun key => key ++ ":" ++ id

def earlyProblems (seen : List String) (entry : ManifestEntry) : List String :=
  (if entry.agentId ∈ seen then [entry.agentId ++ ": duplicate agent_id"] else []) ++
    ((validateAgentAvatar entry.avatarGenome entry.avatarType).map fun text => entry.agentId ++ ": " ++ text).toList

def planEntries (replace : Bool) (batchKey : Option String) : List String → List ManifestEntry →
    Except AgentMutationError (List Looked)
  | _,[] => .ok []
  | seen,entry :: rest => do
    let reply ← cached store SET_AVATAR (keyOf batchKey entry.agentId)
    let others ← planEntries replace batchKey (entry.agentId :: seen) rest
    .ok (lookedOf store replace (keyOf batchKey entry.agentId) entry (earlyProblems seen entry) reply :: others)

end Plan

section Batch
variable (digest : AvatarManifestPlan → List Char) (plain : Char → Bool) (store : Store)

/-- The types of a manifest as the set of them is shown. -/
def typesText (types : List String) : String :=
  "\x7b" ++ String.ofList (Approvals.joined ", ".toList ((types.insertionSort (· ≤ ·)).map (DebugText.quote plain))) ++ "\x7d"

def problemsOf (entries : List ManifestEntry) (looked : List Looked) : List String :=
  let types := (entries.map ManifestEntry.avatarType).dedup
  (if entries = [] then ["manifest must not be empty"] else []) ++ looked.flatMap Looked.problems ++
    (if 1 < types.length then ["manifest entries disagree on avatar_type: " ++ typesText plain types] else [])

def sortedRows (looked : List Looked) : List Planned :=
  (looked.filterMap Looked.row).insertionSort fun a b => a.entry.agentId ≤ b.entry.agentId

/-- The generation a plan reports: the last of its writes where all are done. -/
def generationOf (rows : List Planned) (looked : List Looked) (current : Int) : Int :=
  let last := (looked.map Looked.generation).foldl max 0
  if last = 0 ∨ rows.any Planned.isPending then current else last

def planOf (request : Request) (looked : List Looked) (current : Int) : AvatarManifestPlan :=
  ⟨sortedRows looked,request.replace,request.actor,generationOf (sortedRows looked) looked current⟩

/-- `plan`, for a preview without a batch key. -/
def plan (request : Request) (batchKey : Option String) (current : Int) : Except AgentMutationError AvatarManifestPlan := do
  requireCutover store
  let looked ← planEntries store request.replace batchKey [] request.entries
  let problems := problemsOf plain request.entries looked
  if problems ≠ [] then
    .error ⟨"invalid_avatar_manifest","; ".intercalate problems,problems.map fun problem => ("problems",.text (some problem))⟩
  else do
    let _ ← summary digest (planOf request looked current)
    .ok (planOf request looked current)

def planAvatarManifest (request : Request) (batchKey : String) : Except AgentMutationError AvatarManifestPlan :=
  if batchKey = "" then refuse "request_key_required" "request_key is required"
  else plan digest plain store request (some batchKey) store.head

/-- An agent of the approved plan is as it was planned, unless it is written already. -/
def checkRow (expected : Planned) : Except AgentMutationError Unit :=
  match expected.state with
  | .written _ => .ok ()
  | _ => do
    let reply ← cached store SET_AVATAR expected.key
    if reply.isSome then .ok ()
    else if loadRow store expected.entry.agentId ≠ expected.row then stale
    else match validateAgentAvatar expected.entry.avatarGenome expected.entry.avatarType with
      | some text => refuse "invalid_request" text
      | none => .ok ()

def checkRows : List Planned → Except AgentMutationError Unit
  | [] => .ok ()
  | expected :: rest => do
    checkRow store expected
    checkRows rest

/-- The row with the avatar of its entry. -/
def amended (row : AgentRow) (entry : ManifestEntry) (now : Int) : AgentRow :=
  { row with avatar := some entry.avatar, agentGeneration := row.agentGeneration + 1, updatedAtMs := now }

def describe (row : AgentRow) (entry : ManifestEntry) : AgentValue :=
  .described row.agentId row.name (row.avatar.map fun avatar => (avatar.avatarType,avatar.version))
    (entry.avatarType,entry.avatarVersion)

/-- The row, and the journal's row with the key and the reply. -/
def Store.commit (store : Store) (key : Option String) (row : AgentRow) (reply : Reply) : Store where
  agents := store.agents.insert row.agentId row
  keys := match key with
    | some key => store.keys.insert key (SET_AVATAR,some reply)
    | none => store.keys
  head := store.head + 1
  cutover := store.cutover
  named := by
    intro other found there
    rw [Table.get?_insert] at there
    split_ifs at there with same
    · cases there
      exact same.symm
    · exact store.named other found there

/-- What is written once all is checked; `settled` is the shared log's answer to the entry. -/
def writeEntry (settled : Except AgentMutationError Unit) (planned : Planned) (now : Int) :
    Option AgentRow → Except AgentMutationError (Store × Reply)
  | none => stale
  | some row =>
    if row.agentGeneration = i64Max then refuse "storage_error" "agent generation overflow"
    else if planned.key.any store.keys.has then refuse "storage_error" "UNIQUE constraint failed: registry_journal.request_key"
    else do
      settled
      let reply : Reply := ⟨describe row planned.entry,some (store.head + 1)⟩
      .ok (store.commit planned.key (amended row planned.entry now) reply,reply)

/-- One entry, in a transaction of its own. -/
def applyAvatarManifestEntry (plan : AvatarManifestPlan) (index : Nat) (approval : List Char) (now : Int)
    (settled : Except AgentMutationError Unit) : Except AgentMutationError (Store × Reply) :=
  match plan.rows[index]?.filter Planned.isPending with
  | none => refuse "invalid_request" "not a pending manifest entry"
  | some planned => do
    match ← cached store SET_AVATAR planned.key with
    | some reply => .ok (store,reply)
    | none => do
      requireCutover store
      let text ← summary digest plan
      if text ≠ approval then stale
      else do
        checkRows store plan.rows
        writeEntry store settled planned now planned.row

end Batch

end Entorhinal.Avatars
