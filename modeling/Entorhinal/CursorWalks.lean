import Entorhinal.Hires
import Entorhinal.AuditPages

/-! The three lists that are read by cursors, over whole walks. -/
namespace Entorhinal.Agents

namespace Walked

def hired : AgentRow where
  agentId := "agent_00000001"
  name := "Ada"
  nameVersion := 1
  tag := ""
  labels := []
  role := "hiree"
  projectId := some "entorhinal"
  workspaceId := some "main"
  status := "live"
  mergedInto := none
  supervisorAgentId := some "agent_00000000"
  createdAtMs := 5
  terminalAtMs := none
  agentGeneration := 1

def agents : Table String AgentRow := Table.insert ∅ hired.agentId hired

theorem named (id : String) (row : AgentRow) (there : agents.get? id = some row) : row.agentId = id ∧ id ≠ "" := by
  have member : (id,row) ∈ agents.rows := Table.mem_rows.mpr there
  obtain ⟨rfl,rfl⟩ := Prod.mk.inj (List.mem_singleton.mp (member : (id,row) ∈ [(hired.agentId,hired)]))
  exact ⟨rfl,by decide⟩

def store : AgentStore := ⟨agents,∅,false,1,named⟩

def audited (rowId timeMs : Int) : AuditRow := ⟨rowId,timeMs,"agent_00000001","hire","{}","{}","{}"⟩

/-- Two rows, both from before the epoch. -/
def early : AuditLog where
  rows := [audited 2 (-1),audited 1 (-5)]
  distinct := by decide
  counted := by decide
  timed := by decide

def noRows : AuditLog := ⟨[],by decide,nofun,nofun⟩

theorem early_sorted : early.rows.mergeSort newer = early.rows := List.mergeSort_of_pairwise (by decide)

/-- The first page of one row. -/
theorem early_page : agentAuditPage early none (some 1) none =
    .ok ⟨[audited 2 (-1)],some "a1:ffffffffffffffff:2"⟩ := by
  have all : early.rows.filter (fun r => (none : Option Int).all (fun since => decide (since ≤ r.timeMs)) &&
      (none : Option (Int × Int)).all fun place => beyond place r) = early.rows := rfl
  unfold agentAuditPage
  simp only [Option.getD_some,readCursor]
  rw [if_neg (by decide),all,early_sorted]
  rfl

end Walked

end Entorhinal.Agents
