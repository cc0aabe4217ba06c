import Entorhinal.RegistryTables

/-! Shared changes of the registry: the difference a mutation makes to the tables every
machine has, and its application on another machine, which follows with its own rows. -/
namespace Entorhinal.Registry

structure TableChanges (κ ρ : Type) where
  upsert : List (κ × ρ)
  delete : List κ

structure ProjectEntry where
  workspaces : TableChanges String String
  projects : TableChanges String Project
  placement : TableChanges String String
  aliases : TableChanges String String
  keys : TableChanges KeyRow Unit

section Changes

variable {κ ρ : Type} [LinearOrder κ]

def changesBetween [DecidableEq ρ] (before after : Table κ ρ) : TableChanges κ ρ where
  upsert := after.rows.filter fun x => before.get? x.1 ≠ some x.2
  delete := before.keys.filter fun key => !after.has key

def upsertTable (t : Table κ ρ) (rows : List (κ × ρ)) : Table κ ρ :=
  rows.foldl (fun t x => t.insert x.1 x.2) t

def deleteRows (t : Table κ ρ) (keys : List κ) : Table κ ρ := t.filter fun key _ => key ∉ keys

/-- The last row given for a key. -/
def given (rows : List (κ × ρ)) (key : κ) : Option ρ := (rows.reverse.find? (·.1 = key)).map (·.2)

theorem given_cons (x : κ × ρ) (rows : List (κ × ρ)) (key : κ) :
    given (x :: rows) key = (given rows key).or (if x.1 = key then some x.2 else none) := by
  rw [given,given,List.reverse_cons,List.find?_append]
  cases rows.reverse.find? (·.1 = key) with
  | some found => rfl
  | none => by_cases same : x.1 = key <;> simp [same]

theorem get?_upsertTable (t : Table κ ρ) (rows : List (κ × ρ)) (key : κ) :
    (upsertTable t rows).get? key = (given rows key).or (t.get? key) := by
  induction rows generalizing t with
  | nil => rfl
  | cons x rest ih =>
    rw [upsertTable,List.foldl_cons]
    refine (ih _).trans ?_
    rw [given_cons,Option.or_assoc,Table.get?_insert]
    by_cases same : x.1 = key
    · simp [same]
    · simp [same,Ne.symm same]

theorem get?_deleteRows (t : Table κ ρ) (keys : List κ) (key : κ) :
    (deleteRows t keys).get? key = if key ∈ keys then none else t.get? key := by
  rw [deleteRows,Table.get?_filter]
  cases t.get? key <;> by_cases inside : key ∈ keys <;> simp [Option.filter,inside]

end Changes

/-- The aliases every machine has. -/
def sharedAliases (s : Tables) : Table String String := s.aliases.filter fun old _ => !machineLocal old

def projectDelta (before after : Tables) : ProjectEntry where
  workspaces := changesBetween before.workspaces after.workspaces
  projects := changesBetween before.projects after.projects
  placement := changesBetween before.placement after.placement
  aliases := changesBetween (sharedAliases before) (sharedAliases after)
  keys := changesBetween before.keys after.keys

/-- `validate`: implicit aliases are machine-local. -/
def ProjectEntry.valid (e : ProjectEntry) : Bool :=
  e.aliases.upsert.all (fun x => !machineLocal x.1) && e.aliases.delete.all (!machineLocal ·)

/-- A received snapshot deletes nothing; a superseding one drops the rows it lacks. -/
def ProjectEntry.deletesNothing (e : ProjectEntry) : Bool :=
  e.workspaces.delete.isEmpty && e.projects.delete.isEmpty && e.placement.delete.isEmpty &&
    e.aliases.delete.isEmpty && e.keys.delete.isEmpty

def absent {κ ρ : Type} [LinearOrder κ] (before : Table κ ρ) (changes : TableChanges κ ρ) : TableChanges κ ρ :=
  {changes with delete := before.keys.filter (· ∉ changes.upsert.map (·.1))}

def ProjectEntry.deleteAbsent (e : ProjectEntry) (before : Tables) : ProjectEntry where
  workspaces := absent before.workspaces e.workspaces
  projects := absent before.projects e.projects
  placement := absent before.placement e.placement
  aliases := absent (sharedAliases before) e.aliases
  keys := absent before.keys e.keys

/-- The successor of a project the entry deletes. -/
def ProjectEntry.successor (e : ProjectEntry) (id : String) : Option String :=
  (e.aliases.upsert.find? (·.1 = id)).map (·.2)

/-- The machine's own rows follow a deleted project to its successor, or go with it. -/
def cascadeProject (e : ProjectEntry) (s : Tables) (id : String) : Tables :=
  match e.successor id with
  | some heir =>
    {s with
      roots := s.roots.update fun _ row => if row.projectId = id then {row with projectId := heir} else row
      derived := s.derived.update fun _ row => if row.projectId = id then {row with projectId := heir} else row
      aliases := s.aliases.update fun old target =>
        if target = id ∧ machineLocal old = true then heir else target}
  | none =>
    {s with
      roots := s.roots.filter fun _ row => row.projectId ≠ id
      derived := s.derived.filter fun _ row => row.projectId ≠ id
      aliases := s.aliases.filter fun old target => !(target = id && machineLocal old)}

def ProjectEntry.restore (e : ProjectEntry) (s : Tables) : Tables :=
  let parents := {s with
    workspaces := upsertTable s.workspaces e.workspaces.upsert
    projects := upsertTable s.projects e.projects.upsert}
  let followed := e.projects.delete.foldl (cascadeProject e) parents
  let written : Tables := {
    workspaces := deleteRows followed.workspaces e.workspaces.delete
    projects := deleteRows followed.projects e.projects.delete
    placement := upsertTable (deleteRows followed.placement e.placement.delete) e.placement.upsert
    roots := followed.roots
    derived := followed.derived
    aliases := upsertTable (deleteRows followed.aliases e.aliases.delete) e.aliases.upsert
    keys := upsertTable (deleteRows followed.keys e.keys.delete) e.keys.upsert}
  if e.keys.delete.isEmpty then written else clearUnownedMappings written

/-- The foreign keys and the unique remote keys. -/
def consistent (s : Tables) : Bool :=
  s.placement.rows.all (fun x => s.live x.1 && s.workspaces.has x.2) &&
    s.roots.rows.all (fun x => s.live x.2.projectId) && s.derived.rows.all (fun x => s.live x.2.projectId) &&
    s.aliases.rows.all (fun x => s.live x.2) && s.keys.rows.all (fun x => s.live x.1.project) &&
    s.keys.rows.all fun x => s.keys.rows.all fun y =>
      !(x.1.key.kind == "remote" && x.1.key == y.1.key) || x.1.project == y.1.project

def ProjectEntry.apply (e : ProjectEntry) (s : Tables) : Option Tables :=
  if e.valid && consistent (e.restore s) then some (e.restore s) else none

def installSnapshot (e : ProjectEntry) (supersedes : Bool) (s : Tables) : Option Tables :=
  if e.deletesNothing then (if supersedes then e.deleteAbsent s else e).apply s else none

end Entorhinal.Registry
