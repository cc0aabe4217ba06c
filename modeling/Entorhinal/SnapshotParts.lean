import Entorhinal.IdentityLog
import Entorhinal.JsonValue
import Entorhinal.RemoteEntry

/-! Snapshots of the shared tables on the log: an image is cut into parts under a cap of bytes, and
the parts are merged again. How an agent is written as JSON is a parameter. -/
namespace Entorhinal.Snapshot

open Remote (AgentChangeEntry MemberName ProjectEntry SharedRow TableChanges)
open Json (Doubles)

/-- A `u64`; `usize` is one too. -/
abbrev Count := Fin (2 ^ 64)

def snapshotCap : Nat := 200 * 1024

structure AgentForm (F : Type) where
  value : AgentChangeEntry → Json F

variable {F : Type}

def emptyImage : ProjectEntry F := ⟨"shared.snapshot",∅,[],none⟩

section Writer
variable (form : AgentForm F)

def rowValue (row : SharedRow F) : Json F := .object row.rows

def changesValue (changes : TableChanges F) : Json F :=
  .object [("upsert",.array (changes.upsert.map rowValue)),("delete",.array (changes.delete.map rowValue))]

def tablesValue (tables : Table String (TableChanges F)) : Json F :=
  .object (tables.rows.map fun t => (t.1,changesValue t.2))

def nameValue (name : MemberName) : Json F :=
  .object [("author",.string name.author),("display_name",.string name.displayName)]

def countValue (n : Count) : Json F := .number (.posInt n)

/-- An image's own fields; an empty list of agents and a name that is none are skipped. -/
def imageFields (image : ProjectEntry F) : List (String × Json F) :=
  [("op",.string image.op),("tables",tablesValue image.tables)] ++
    (if image.agents.isEmpty then [] else [("agents",.array (image.agents.map form.value))]) ++
    (image.memberName.map fun name => ("member_name",nameValue name)).toList

/-- The fields of `WirePart`. -/
def wireFields (id : String) (part parts : Count) (image : ProjectEntry F) (base : Option Count) : List (String × Json F) :=
  [("snapshot_id",.string id),("part",countValue part),("parts",countValue parts)] ++
    (base.map fun base => ("supersedes_through",countValue base)).toList ++ imageFields form image

/-- The keys of every object are sorted before its bytes are written. -/
def canonicalBytes [Doubles F] (value : Json F) : Utf8.Bytes := value.ordered.text

def body [Doubles F] (id : String) (part parts : Count) (image : ProjectEntry F) (base : Option Count) : Utf8.Bytes :=
  canonicalBytes (.object (wireFields form id part parts image base))

/-- The key by which a refusal names a row. -/
def rowKey [Doubles F] (row : SharedRow F) : String :=
  match (row.get? "project_id").or ((row.get? "workspace_id").or (row.get? "old_id")) with
  | some value => String.ofList value.emit
  | none => ""

def rowImage (table : String) (row : SharedRow F) : ProjectEntry F :=
  { (emptyImage : ProjectEntry F) with tables := (∅ : Table String (TableChanges F)).insert table ⟨[row],[]⟩ }

def rowUnit [Doubles F] (table : String) (row : SharedRow F) : String × ProjectEntry F :=
  (table ++ " " ++ rowKey row,rowImage table row)

def agentUnit (agent : AgentChangeEntry) : String × ProjectEntry F :=
  ("agent " ++ agent.agentId,{ (emptyImage : ProjectEntry F) with agents := [agent] })

/-- The rows and agents of an image, each an image of its own with its name. -/
def unitsOf [Doubles F] (image : ProjectEntry F) : List (String × ProjectEntry F) :=
  (image.tables.rows.flatMap fun t => t.2.upsert.map (rowUnit t.1)) ++ image.agents.map agentUnit

def extend (tables : Table String (TableChanges F)) (t : String × TableChanges F) : Table String (TableChanges F) :=
  let changes := (tables.get? t.1).getD ⟨[],[]⟩
  tables.insert t.1 { changes with upsert := changes.upsert ++ t.2.upsert }

def joined (current unit : ProjectEntry F) : ProjectEntry F :=
  { current with tables := unit.tables.rows.foldl extend current.tables, agents := current.agents ++ unit.agents }

/-- The size of a part whose counts and replacement metadata are as wide as they can be. -/
def estimate [Doubles F] (id : String) (base : Option Count) (image : ProjectEntry F) : Nat :=
  (body form id (Fin.last _) (Fin.last _) image (base.map fun _ => Fin.last _)).length

/-- The code and the message of a row that is too large for any part. -/
def tooLarge (name : String) (size : Nat) : String × String :=
  ("shared_entry_too_large",
    "snapshot row " ++ name ++ " encodes to " ++ toString size ++ " bytes; cap " ++ toString snapshotCap)

/-- One unit goes into the current part, or opens the next one. -/
def place [Doubles F] (id : String) (base : Option Count) (state : List (ProjectEntry F) × ProjectEntry F)
    (unit : String × ProjectEntry F) : Except (String × String) (List (ProjectEntry F) × ProjectEntry F) :=
  let size := estimate form id base unit.2
  if snapshotCap < size then .error (tooLarge unit.1 size)
  else
    let next := joined state.2 unit.2
    if snapshotCap < estimate form id base next then .ok (state.1 ++ [state.2],unit.2) else .ok (state.1,next)

def supersedes (base : Count) : Option Count := if 0 < base.val then some base else none

def pack [Doubles F] (id : String) (image : ProjectEntry F) (base : Count) :
    Except (String × String) (List (ProjectEntry F)) := do
  let packed ← (unitsOf image).foldlM (place form id (supersedes base))
    ([],{ (emptyImage : ProjectEntry F) with memberName := image.memberName })
  .ok (packed.1 ++ [packed.2])

def partition [Doubles F] (id : String) (image : ProjectEntry F) (base : Count) :
    Except (String × String) (List Utf8.Bytes) := do
  let images ← pack form id image base
  .ok (images.mapIdx fun i image =>
    body form id (Fin.ofNat _ (i + 1)) (Fin.ofNat _ images.length) image (supersedes base))

end Writer

section Reader

/-- A part's rows and agents are added; a part with deletions is refused. -/
def mergePart (merged part : ProjectEntry F) : Except String (ProjectEntry F) :=
  if part.tables.rows.any fun t => !t.2.delete.isEmpty then .error "snapshot cannot delete rows"
  else .ok { joined merged part with memberName := part.memberName.or merged.memberName }

def merge (parts : List (ProjectEntry F)) : Except String (ProjectEntry F) := parts.foldlM mergePart emptyImage

end Reader

end Entorhinal.Snapshot
