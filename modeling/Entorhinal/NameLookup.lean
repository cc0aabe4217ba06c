import Entorhinal.AgentPages
import Entorhinal.Semver
import Mathlib.Data.Finset.Dedup

/-! The lookup of an agent by its name. -/
namespace Entorhinal.Agents

section Keys
variable {u : Unicode} {raw key : List Char}

/-- The text names are compared by, whatever the rules say of it. -/
def foldKey (u : Unicode) (raw : List Char) : List Char := trim ((u.nfc raw).flatMap u.foldChar)

def accepted (u : Unicode) (raw : List Char) : Bool := (normalizeAgentName u raw).isOk

def normalizedName (u : Unicode) (raw : List Char) : Except AgentMutationError (List Char) :=
  (normalizeAgentName u raw).map NormalizedAgentName.normalizedName

theorem normalizedName_iff : normalizedName u raw = .ok key ↔ accepted u raw ∧ foldKey u raw = key := by
  unfold normalizedName accepted normalizeAgentName
  split
  · simp [invalidName,Except.map,Except.isOk,Except.toBool]
  · dsimp only
    split_ifs
    · simp [invalidName,Except.map,Except.isOk,Except.toBool]
    · simp [invalidName,Except.map,Except.isOk,Except.toBool]
    · simp [foldKey,Except.map,Except.isOk,Except.toBool]

end Keys

structure NameRequest where
  name : String
  workspaceId : Option String
deriving DecidableEq, Repr

/-- An agent of the name with the workspace a read scopes it under. -/
abbrev Match := AgentRow × Option String

inductive NameReply
  | nameUnknown (name : String) (workspace : Option (List Char))
  | found (agentId : String) (digest : Digest)
  | nameAmbiguous (candidates : Finset String)
deriving DecidableEq

def workspaceText (workspace : Option String) : String := workspace.getD "global"

/-- The request's own workspace and the name after it. -/
def readName (name : String) : Option (List Char) × List Char :=
  match Semver.splitOnce '/' name.toList with
  | some (workspace,name) => (some workspace,name)
  | none => (none,name.toList)

def normalizedWorkspace (u : Unicode) : Option (List Char) → Except AgentMutationError (Option (List Char))
  | none => .ok none
  | some raw => (normalizedName u raw).map some

/-- The rows whose name, normalized once more, is the one asked for. -/
def nameMatches (u : Unicode) (store : AgentStore) (name : List Char) :
    List AgentRow → Except AgentMutationError (List Match)
  | [] => .ok []
  | row :: rest => do
    let stored ← normalizedName u row.name.toList
    let others ← nameMatches u store name rest
    .ok (if stored = name then (row,scopeWorkspace store row) :: others else others)

/-- The matches in the workspace, and the others. -/
def splitMatches (u : Unicode) (scope : List Char) : List Match → Except AgentMutationError (List Match × List Match)
  | [] => .ok ([],[])
  | one :: rest => do
    let normalized ← normalizedWorkspace u (one.2.map String.toList)
    let others ← splitMatches u scope rest
    .ok (if normalized.getD "global".toList = scope then (one :: others.1,others.2)
      else (others.1,one :: others.2))

def reportMatches (request : NameRequest) (scope : Option (List Char)) : List Match → NameReply
  | [] => .nameUnknown request.name scope
  | [one] => .found one.1.agentId one.1.digest
  | many => .nameAmbiguous (many.map fun one => workspaceText one.2 ++ "/" ++ one.1.name).toFinset

/-- A workspace before the name restricts the matches; a hint only prefers those in it. -/
def resolveName (u : Unicode) (store : AgentStore) (request : NameRequest) : Except AgentMutationError NameReply := do
  let read := readName request.name
  let name ← normalizedName u read.2
  let own ← normalizedWorkspace u read.1
  let hint ← normalizedWorkspace u (request.workspaceId.map String.toList)
  let scope := own.or hint
  let found ← nameMatches u store name (store.rows.filter fun row => row.status == "live")
  match scope with
  | none => .ok (reportMatches request scope found)
  | some key =>
    let (inside,others) ← splitMatches u key found
    .ok (reportMatches request scope (if inside.length = 1 then inside else if read.1.isSome then [] else others))

section Reads
variable {u : Unicode} {store : AgentStore} {request : NameRequest} {reply : NameReply}

def workspaceKey (u : Unicode) (workspace : Option String) : List Char :=
  (workspace.map fun id => foldKey u id.toList).getD "global".toList

def acceptedAll (u : Unicode) (raw : Option (List Char)) : Prop := ∀ text ∈ raw, accepted u text

theorem normalizedWorkspace_iff {raw key : Option (List Char)} :
    normalizedWorkspace u raw = .ok key ↔ acceptedAll u raw ∧ raw.map (foldKey u) = key := by
  cases raw with
  | none => simp [normalizedWorkspace,acceptedAll]
  | some text =>
    unfold normalizedWorkspace acceptedAll
    constructor
    · intro ok
      obtain ⟨value,read,rfl⟩ := map_ok ok
      obtain ⟨fine,rfl⟩ := normalizedName_iff.mp read
      exact ⟨fun other is => Option.mem_some_iff.mp is ▸ fine,rfl⟩
    · rintro ⟨fine,rfl⟩
      dsimp only
      rw [normalizedName_iff.mpr ⟨fine text rfl,rfl⟩]
      rfl

def live (store : AgentStore) : List AgentRow := store.rows.filter fun row => row.status == "live"

/-- The live agents of a name. -/
def namesakes (u : Unicode) (store : AgentStore) (name : List Char) : List Match :=
  ((live store).filter fun row => foldKey u row.name.toList = name).map fun row => (row,scopeWorkspace store row)

theorem nameMatches_iff {name : List Char} {rows : List AgentRow} {found : List Match} :
    nameMatches u store name rows = .ok found ↔ (∀ row ∈ rows, accepted u row.name.toList) ∧
      (rows.filter fun row => foldKey u row.name.toList = name).map (fun row => (row,scopeWorkspace store row)) =
        found := by
  induction rows generalizing found with
  | nil => simp [nameMatches]
  | cons row rest ih =>
    rw [nameMatches]
    constructor
    · intro ok
      obtain ⟨stored,read,ok⟩ := bind_ok ok
      obtain ⟨others,after,ok⟩ := bind_ok ok
      obtain ⟨fine,rfl⟩ := normalizedName_iff.mp read
      obtain ⟨all,rfl⟩ := ih.mp after
      refine ⟨List.forall_mem_cons.mpr ⟨fine,all⟩,?_⟩
      rw [← Except.ok.inj ok,List.filter_cons]
      split_ifs <;> simp_all
    · rintro ⟨fine,rfl⟩
      obtain ⟨first,all⟩ := List.forall_mem_cons.mp fine
      rw [normalizedName_iff.mpr ⟨first,rfl⟩,ih.mpr ⟨all,rfl⟩,List.filter_cons]
      simp only [bind,Except.bind]
      split_ifs <;> simp_all

theorem splitMatches_iff {scope : List Char} {found : List Match} {parts : List Match × List Match} :
    splitMatches u scope found = .ok parts ↔ (∀ one ∈ found, acceptedAll u (one.2.map String.toList)) ∧
      (found.filter fun one => workspaceKey u one.2 = scope) = parts.1 ∧
      (found.filter fun one => workspaceKey u one.2 ≠ scope) = parts.2 := by
  induction found generalizing parts with
  | nil => simp [splitMatches,Prod.ext_iff,eq_comm]
  | cons one rest ih =>
    rw [splitMatches]
    have key : ((one.2.map String.toList).map (foldKey u)).getD "global".toList = workspaceKey u one.2 := by
      rw [Option.map_map]
      rfl
    constructor
    · intro ok
      obtain ⟨normalized,read,ok⟩ := bind_ok ok
      obtain ⟨others,after,ok⟩ := bind_ok ok
      obtain ⟨fine,rfl⟩ := normalizedWorkspace_iff.mp read
      obtain ⟨all,inside,outside⟩ := ih.mp after
      refine ⟨List.forall_mem_cons.mpr ⟨fine,all⟩,?_⟩
      rw [← Except.ok.inj ok,key,List.filter_cons,List.filter_cons,inside,outside]
      by_cases same : workspaceKey u one.2 = scope <;> simp [same]
    · rintro ⟨fine,inside,outside⟩
      obtain ⟨first,all⟩ := List.forall_mem_cons.mp fine
      rw [normalizedWorkspace_iff.mpr ⟨first,rfl⟩]
      simp only [bind,Except.bind,key]
      have after : splitMatches u scope rest = .ok (rest.filter fun one => workspaceKey u one.2 = scope,
          rest.filter fun one => workspaceKey u one.2 ≠ scope) := ih.mpr ⟨all,rfl,rfl⟩
      rw [after]
      rw [List.filter_cons] at inside outside
      by_cases same : workspaceKey u one.2 = scope
      · simp only [same,decide_true,ne_eq,not_true_eq_false,decide_false,if_true,Bool.false_eq_true,if_false] at inside outside ⊢
        simp only [Except.ok.injEq,Prod.ext_iff]
        exact ⟨inside,outside⟩
      · simp only [same,decide_true,ne_eq,not_false_eq_true,decide_false,if_true,Bool.false_eq_true,if_false] at inside outside ⊢
        simp only [Except.ok.injEq,Prod.ext_iff]
        exact ⟨inside,outside⟩

end Reads

end Entorhinal.Agents
