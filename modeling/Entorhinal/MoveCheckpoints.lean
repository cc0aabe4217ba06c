import Entorhinal.MoveStore
import Entorhinal.Traverse
import Entorhinal.Table
import Entorhinal.Transition

/-! The table of move checkpoints and the transactions that change it, called in
any order by the drivers, the operators and the tasks that accept and release a
cut. A driver saves an edit of the row it last loaded or saved, while the other
callers change the stored one. -/
namespace Entorhinal.MoveCheckpoints
open Move Transition

/-- A row of `agent_move`. The request's body stands as its JSON text. -/
structure MoveRow where
  move : AgentMove
  requestKey : Option String
  requestBody : Option String
  updatedAtMs : Int
deriving DecidableEq, Repr, Inhabited

abbrev Rows := Table String MoveRow

def MoveRow.isOpen (row : MoveRow) : Bool := !row.move.step.isTerminal

def openMoves (rows : Rows) : List (String × MoveRow) := rows.rows.filter fun x => x.2.isOpen

/-- The unique columns: the request key, and the agent among the open moves. -/
def clashes (row other : MoveRow) : Bool :=
  (row.requestKey.isSome && row.requestKey == other.requestKey) ||
    (row.isOpen && other.isOpen && row.move.agentId == other.move.agentId)

def conflicts (rows : Rows) (row : MoveRow) : Bool :=
  rows.any fun cut other => cut != row.move.cutId && clashes row other

/-- `INSERT`: a constraint that fails undoes the transaction. -/
def insertRow (rows : Rows) (row : MoveRow) : Except String Rows :=
  if rows.has row.move.cutId || conflicts rows row then .error "storage_error"
  else .ok (rows.insert row.move.cutId row)

/-- `UPDATE` of the row that the transaction loaded. -/
def writeRow (rows : Rows) (row : MoveRow) : Except String Rows :=
  if conflicts rows row then .error "storage_error" else .ok (rows.insert row.move.cutId row)

def loadMove (rows : Rows) (cutId : String) : Except String MoveRow :=
  match rows.get? cutId with
  | some row => .ok row
  | none => .error "storage_error"

def openMoveCap : Nat := 4

def liveRefCap : Nat := 256

def checkSlot (rows : Rows) (agentId : String) : Except String Unit :=
  if (openMoves rows).any fun x => x.2.move.agentId == agentId then .error "move_in_progress"
  else if openMoveCap ≤ (openMoves rows).length then .error "move_cap"
  else .ok ()

/-- What the transaction reads again of the agent: its bound references and the
digest of its pins. -/
structure AgentReads where
  bound : List MoveRef
  pinDigest : Except String (Option String)

def checkReads (reads : AgentReads) (row : MoveRow) (checkedRefs : List MoveRef) : Except String Unit := do
  if reads.bound ≠ checkedRefs then .error "agent_busy"
  if liveRefCap < checkedRefs.length then .error "live_ref_cap"
  let digest ← reads.pinDigest
  if row.move.plan.pinDigest ≠ digest then .error "agent_busy"

/-- A source move as its request admits it. -/
def MoveRow.admissible (row : MoveRow) : Bool :=
  row.move.side == .source && row.move.step == .preparing && row.requestKey.isSome && row.requestBody.isSome

def admitAgentMove (rows : Rows) (row : MoveRow) (checkedRefs : List MoveRef) (reads : AgentReads) :
    Except String (Rows × MoveRow) :=
  if !row.admissible then .error "invalid_request"
  else match rows.find? fun _ existing => existing.requestKey == row.requestKey with
  | some (_,existing) =>
    if existing.requestBody = row.requestBody then .ok (rows,existing) else .error "request_key_reused"
  | none => do
    checkReads reads row checkedRefs
    checkSlot rows row.move.agentId
    let written ← insertRow rows row
    return (written,row)

def admitReceivedMove (rows : Rows) (row : MoveRow) : Except String (Rows × MoveRow) :=
  if row.move.side ≠ .receiver ∨ (row.move.step ≠ .pickedUp ∧ row.move.step ≠ .aborted) then
    .error "invalid_request"
  else match rows.get? row.move.cutId with
  | some existing => .ok (rows,existing)
  | none => do
    checkSlot rows row.move.agentId
    let written ← insertRow rows row
    return (written,row)

/-- The boundary that an accepted abort closes. -/
def refusesBoundary (current row : AgentMove) : Bool :=
  row.step == .activating && current.step == .claimed && current.abortRequested.isSome

def checkpointAgentMove (rows : Rows) (row : MoveRow) (clearAbort : Bool) :
    Except String (Rows × MoveRow) := do
  let current ← loadMove rows row.move.cutId
  if refusesBoundary current.move row.move then return (rows,current)
  else
    let next := { row with move := Move.checkpointAgentMove current.move row.move clearAbort }
    let written ← writeRow rows next
    return (written,next)

/-- The request that changes nothing writes nothing: the move is aborted, or its
abort is asked for and not stuck. -/
def requestAgentMoveAbort (rows : Rows) (cutId : String) (now : Int) : Except String (Rows × MoveRow) := do
  let row ← loadMove rows cutId
  let asked ← Move.requestAgentMoveAbort row.move
  if row.move.step = .aborted ∨ (row.move.abortRequested.isSome ∧ !row.move.abortStuck) then
    return (rows,row)
  else
    let next := { row with move := asked, updatedAtMs := now }
    let written ← writeRow rows next
    return (written,next)

def consumeMoveAbortRetry (rows : Rows) (cutId : String) : Except String (Rows × Bool) := do
  let row ← loadMove rows cutId
  let (next,consumed) := Move.consumeMoveAbortRetry row.move
  if consumed then
    let written ← writeRow rows { row with move := next }
    return (written,true)
  else return (rows,false)

/-- `installed` is what the bindings' part of the transaction answers. -/
def activateAgentMoveCarrying (rows : Rows) (row : MoveRow) (boundElsewhere : Bool)
    (installed : Except String Unit) : Except String (Rows × MoveRow) := do
  let current ← loadMove rows row.move.cutId
  let activated ← Move.activateAgentMove current.move row.move boundElsewhere
  installed
  let next := { row with move := activated }
  let written ← writeRow rows next
  return (written,next)

def setMoveCutAccept (rows : Rows) (cutId : String) (accept : Background) (now : Int) : Except String Rows :=
  match rows.get? cutId with
  | some row => writeRow rows { row with move.cutAccept := some accept, updatedAtMs := now }
  | none => .ok rows

def setMoveCutRelease (rows : Rows) (cutId : String) (release : Background) : Except String Rows := do
  let row ← loadMove rows cutId
  writeRow rows { row with move.cutRelease := some release }

/-- The table, and for each cut the row its driver last loaded or saved. -/
structure Checkpoints where
  rows : Rows
  copies : Rows
deriving DecidableEq

def start : Checkpoints := ⟨∅,∅⟩

inductive Label
  | admitAgentMove (row : MoveRow) (checkedRefs : List MoveRef) (reads : AgentReads)
  | admitReceivedMove (row : MoveRow)
  | load (cutId : String)
  | checkpointAgentMove (row : MoveRow) (clearAbort : Bool)
  | activateAgentMove (row : MoveRow) (boundElsewhere : Bool) (installed : Except String Unit)
  | requestAgentMoveAbort (cutId : String) (now : Int)
  | consumeMoveAbortRetry (cutId : String)
  | setMoveCutAccept (cutId : String) (accept : Background) (now : Int)
  | setMoveCutRelease (cutId : String) (release : Background)

/-- The driver goes on with the row that the store returned. -/
def Checkpoints.saved (s : Checkpoints) (result : Rows × MoveRow) : Checkpoints :=
  ⟨result.1,s.copies.insert result.2.move.cutId result.2⟩

def Checkpoints.wrote (s : Checkpoints) (rows : Rows) : Checkpoints := { s with rows }

def perform (s : Checkpoints) : Label → Except String Checkpoints
  | .admitAgentMove row checkedRefs reads =>
    (admitAgentMove s.rows row checkedRefs reads).map fun result => s.wrote result.1
  | .admitReceivedMove row => (admitReceivedMove s.rows row).map fun result => s.wrote result.1
  | .load cutId => (loadMove s.rows cutId).map fun row => s.saved (s.rows,row)
  | .checkpointAgentMove row clearAbort => (checkpointAgentMove s.rows row clearAbort).map s.saved
  | .activateAgentMove row boundElsewhere installed =>
    (activateAgentMoveCarrying s.rows row boundElsewhere installed).map s.saved
  | .requestAgentMoveAbort cutId now =>
    (requestAgentMoveAbort s.rows cutId now).map fun result => s.wrote result.1
  | .consumeMoveAbortRetry cutId => (consumeMoveAbortRetry s.rows cutId).map fun result => s.wrote result.1
  | .setMoveCutAccept cutId accept now => (setMoveCutAccept s.rows cutId accept now).map s.wrote
  | .setMoveCutRelease cutId release => (setMoveCutRelease s.rows cutId release).map s.wrote

/-- A call that fails leaves everything as it was. -/
def step (s : Checkpoints) (label : Label) : Option Checkpoints :=
  match perform s label with
  | .ok s' => some s'
  | .error _ => some s

/-- The receiver is at the boundary or past it. -/
def crossed (step : MoveStep) : Bool := step matches .activating | .activated | .done | .takenOver

/-- The steps a driver saves over the one it holds. A receiver becomes activated
by its own transaction alone. -/
def drives (side : MoveSide) (before after : MoveStep) : Bool :=
  before == after || !before.isTerminal && match side with
    | .source => true
    | .receiver => match after with
      | .imported | .staged | .claimed | .aborted => before.beforeBoundary .receiver
      | .activating => before == .claimed
      | .done | .takenOver => before == .activated
      | _ => false

/-- The columns that no driver edits; a release record it knows of stays the one
it loaded. -/
def edits (copy row : MoveRow) : Bool :=
  row.move.cutId == copy.move.cutId && row.move.agentId == copy.move.agentId &&
    row.move.side == copy.move.side && row.requestKey == copy.requestKey &&
    row.requestBody == copy.requestBody &&
    (row.move.cutRelease.isNone || row.move.cutRelease == copy.move.cutRelease)

/-- What the callers keep to: a driver saves an edit of its copy and only a
source's clears an abort, an admitted row has no release record yet, and the
release task writes a record that is there. -/
def allowed (s : Checkpoints) : Label → Bool
  | .admitAgentMove row _ _ | .admitReceivedMove row => row.move.cutRelease.isNone
  | .checkpointAgentMove row clearAbort => (s.copies.get? row.move.cutId).any fun copy =>
    edits copy row && drives copy.move.side copy.move.step row.move.step &&
      (copy.move.side == .source || !clearAbort)
  | .activateAgentMove row _ _ => (s.copies.get? row.move.cutId).any fun copy => edits copy row
  | .setMoveCutRelease cutId _ => (s.rows.get? cutId).any fun row => row.move.cutRelease.isSome
  | _ => true

def Allowed (s : Checkpoints) (label : Label) : Prop := allowed s label = true

section Rows

variable {rows rows' : Rows} {row : MoveRow}

theorem loadMove_ok {cutId : String} (ok : loadMove rows cutId = .ok row) : rows.get? cutId = some row := by
  unfold loadMove at ok
  split at ok
  next found stored => cases ok; exact stored
  next => cases ok

theorem writeRow_ok (ok : writeRow rows row = .ok rows') :
    conflicts rows row = false ∧ rows' = rows.insert row.move.cutId row := by
  unfold writeRow at ok
  split at ok
  next => cases ok
  next free => cases ok; exact ⟨by simpa using free,rfl⟩

theorem insertRow_ok (ok : insertRow rows row = .ok rows') :
    rows.get? row.move.cutId = none ∧ conflicts rows row = false ∧
      rows' = rows.insert row.move.cutId row := by
  unfold insertRow at ok
  split at ok
  next => cases ok
  next free =>
    cases ok
    rw [Bool.or_eq_true,not_or,Bool.not_eq_true,Bool.not_eq_true] at free
    have absent : rows.get? row.move.cutId = none := by simpa [Table.has] using free.1
    exact ⟨absent,free.2,rfl⟩

theorem checkSlot_room {agentId : String} (ok : checkSlot rows agentId = .ok ()) :
    (openMoves rows).length < openMoveCap := by
  unfold checkSlot at ok
  split at ok
  next => cases ok
  split at ok
  next => cases ok
  next room => exact not_le.mp room

/-- No two rows share a request key, and no two open ones an agent. -/
def Apart (rows : Rows) : Prop :=
  ∀ a b x y, rows.get? a = some x → rows.get? b = some y → a ≠ b → clashes x y = false

theorem clashes_comm (x y : MoveRow) : clashes x y = clashes y x := by
  have keys : (x.requestKey.isSome && x.requestKey == y.requestKey) =
      (y.requestKey.isSome && y.requestKey == x.requestKey) := by
    cases left : x.requestKey <;> cases right : y.requestKey <;> simp [eq_comm]
  have agents : (x.move.agentId == y.move.agentId) = (y.move.agentId == x.move.agentId) := by
    simp [Bool.beq_comm]
  rw [clashes,clashes,keys,agents,Bool.and_comm x.isOpen y.isOpen]

theorem apart_insert (apart : Apart rows) (free : conflicts rows row = false) :
    Apart (rows.insert row.move.cutId row) := by
  have others : ∀ cut other, rows.get? cut = some other → cut ≠ row.move.cutId → clashes row other = false := by
    intro cut other stored different
    by_contra clash
    have found : conflicts rows row = true := by
      apply Table.any_eq_true.mpr
      exact ⟨cut,other,stored,by simp [different,eq_true_of_ne_false clash]⟩
    rw [free] at found
    cases found
  intro a b x y atA atB different
  rw [Table.get?_insert] at atA atB
  split at atA
  next left =>
    cases atA
    rw [if_neg fun right => different (left.trans right.symm)] at atB
    exact others b y atB fun right => different (left.trans right.symm)
  next left =>
    split at atB
    next right => cases atB; rw [clashes_comm]; exact others a x atA left
    next => exact apart a b x y atA atB different

theorem openMoves_insert (rows : Rows) (row : MoveRow) :
    (openMoves (rows.insert row.move.cutId row)).length +
        (if (rows.get? row.move.cutId).any MoveRow.isOpen then 1 else 0) =
      (openMoves rows).length + if row.isOpen then 1 else 0 := by
  simp only [openMoves,← List.countP_eq_length_filter]
  exact Table.countP_insert rows (fun x => x.2.isOpen) row.move.cutId row

end Rows

section Next

/-- The driver says that the abort is over. -/
def Label.clears (cut : String) : Label → Bool
  | .checkpointAgentMove row clearAbort => clearAbort && row.move.cutId == cut
  | _ => false

/-- The release task writes its record. -/
def Label.releases (cut : String) : Label → Bool
  | .setMoveCutRelease cutId _ => cutId == cut
  | _ => false

/-- The columns that name a move. -/
structure Same (old new : MoveRow) : Prop where
  named : new.move.cutId = old.move.cutId
  agent : new.move.agentId = old.move.agentId
  side : new.move.side = old.move.side
  key : new.requestKey = old.requestKey
  body : new.requestBody = old.requestBody

theorem Same.refl (row : MoveRow) : Same row row := ⟨rfl,rfl,rfl,rfl,rfl⟩

theorem Same.trans {a b c : MoveRow} (first : Same a b) (second : Same b c) : Same a c :=
  ⟨second.named.trans first.named,second.agent.trans first.agent,second.side.trans first.side,
    second.key.trans first.key,second.body.trans first.body⟩

/-- The steps one call takes a stored row through. -/
def moves (side : MoveSide) (before after : MoveStep) : Bool :=
  drives side before after || (side == .receiver && before == .activating && after == .activated)

def activatedYet (step : MoveStep) : Bool := step matches .activated | .done | .takenOver

/-- A receiver has no release record before it is activated. -/
def Unreleased (row : MoveRow) : Prop :=
  row.move.side = .receiver → activatedYet row.move.step = false → row.move.cutRelease = none

/-- What one call leaves of a stored row. -/
structure Next (label : Label) (cut : String) (old new : MoveRow) : Prop extends Same old new where
  moved : moves old.move.side old.move.step new.move.step = true
  boundary : old.move.side = .receiver → new.move.step = .activating →
    old.move.step = .activating ∨ old.move.abortRequested = none
  abort : ∀ request, old.move.abortRequested = some request →
    (label.clears cut = true ∧ old.move.side = .source) ∨
    ∃ retry, new.move.abortRequested = some { request with retryPending := retry }
  release : ∀ record, old.move.cutRelease = some record →
    (label.releases cut = true ∧ new.move.cutRelease.isSome) ∨ new.move.cutRelease = some record
  unreleased : Unreleased old → Unreleased new

theorem drives_refl (side : MoveSide) (step : MoveStep) : drives side step step = true := by simp [drives]

theorem moves_refl (side : MoveSide) (step : MoveStep) : moves side step step = true := by
  simp [moves,drives_refl]

theorem terminal_moves {side : MoveSide} {before after : MoveStep} (moved : moves side before after = true)
    (terminal : before.isTerminal = true) : after = before := by
  revert moved terminal
  cases side <;> cases before <;> cases after <;> decide

theorem crossed_moves {before after : MoveStep} (moved : moves .receiver before after = true)
    (past : crossed before = true) : crossed after = true := by
  revert moved past
  cases before <;> cases after <;> decide

theorem activated_moves {before after : MoveStep} (moved : moves .receiver before after = true)
    (past : activatedYet before = true) : activatedYet after = true := by
  revert moved past
  cases before <;> cases after <;> decide

/-- A receiver that has not crossed goes on to the boundary from before it, and
to no step past it. -/
theorem uncrossed_moves {before after : MoveStep} (moved : moves .receiver before after = true)
    (short : crossed before = false) : crossed after = false ∨ after = .activating := by
  revert moved short
  cases before <;> cases after <;> decide

variable {label : Label} {cut : String} {old new : MoveRow}

theorem Next.refl (label : Label) (cut : String) (row : MoveRow) : Next label cut row row where
  toSame := .refl row
  moved := moves_refl _ _
  boundary := fun _ step => .inl step
  abort := fun request asked => .inr ⟨request.retryPending,asked⟩
  release := fun _ => .inr
  unreleased := id

/-- A call that leaves the step alone. -/
theorem Next.still (same : Same old new) (step : new.move.step = old.move.step)
    (abort : ∀ request, old.move.abortRequested = some request →
      ∃ retry, new.move.abortRequested = some { request with retryPending := retry })
    (release : new.move.cutRelease = old.move.cutRelease) : Next label cut old new where
  toSame := same
  moved := by rw [step]; exact moves_refl _ _
  boundary := fun _ after => .inl (step ▸ after)
  abort := fun request asked => .inr (abort request asked)
  release := fun record held => .inr (release.trans held)
  unreleased := by
    intro unreleased side short
    rw [same.side] at side
    rw [step] at short
    exact release.trans (unreleased side short)

/-- A driver's copy stands for the stored row where no other caller edits. -/
structure Agrees (row copy : MoveRow) : Prop extends Same row copy where
  step : copy.move.step = row.move.step
  unreleased : Unreleased copy

theorem edits_same {copy row : MoveRow} (edited : edits copy row = true) :
    Same copy row ∧ (row.move.cutRelease = none ∨ row.move.cutRelease = copy.move.cutRelease) := by
  simp only [edits,Bool.and_eq_true,Bool.or_eq_true,beq_iff_eq,Option.isNone_iff_eq_none] at edited
  obtain ⟨⟨⟨⟨⟨named,agent⟩,side⟩,key⟩,body⟩,release⟩ := edited
  exact ⟨⟨named,agent,side,key,body⟩,release⟩

/-- The merge of a driver's row with what the other callers keep in the stored
one. -/
theorem checkpoint_next {copy row : MoveRow} {clearAbort : Bool} (agrees : Agrees old copy)
    (edited : edits copy row = true) (driven : drives copy.move.side copy.move.step row.move.step = true)
    (clearing : copy.move.side = .source ∨ clearAbort = false)
    (entered : refusesBoundary old.move row.move = false)
    (marked : clearAbort = true → label.clears cut = true) :
    Next label cut old { row with move := Move.checkpointAgentMove old.move row.move clearAbort } := by
  obtain ⟨same,held⟩ := edits_same edited
  have named := agrees.toSame.trans same
  rw [agrees.side,agrees.step] at driven
  rw [agrees.side] at clearing
  have merged : Move.checkpointAgentMove old.move row.move clearAbort = AgentMove.keepBackground
      { row.move with abortRequested := if clearAbort then none
        else if old.move.abortRequested.isSome then old.move.abortRequested
        else row.move.abortRequested } old.move := by
    unfold Move.checkpointAgentMove
    rw [if_neg]
    rintro ⟨activating,claimed,asked⟩
    simp [refusesBoundary,activating,claimed,asked] at entered
  rw [merged]
  refine ⟨⟨named.named,named.agent,named.side,named.key,named.body⟩,?_,?_,?_,?_,?_⟩
  · show moves old.move.side old.move.step row.move.step = true
    rw [moves,driven,Bool.true_or]
  · intro side after
    have activating : row.move.step = .activating := after
    rw [side,activating] at driven
    have before : old.move.step = .activating ∨ old.move.step = .claimed := by
      simp only [drives,Bool.or_eq_true,Bool.and_eq_true,beq_iff_eq] at driven
      exact driven.imp_right And.right
    refine before.imp_right fun claimed => ?_
    simpa [refusesBoundary,activating,claimed] using entered
  · intro request asked
    cases clearAbort with
    | true => exact .inl ⟨marked rfl,clearing.resolve_right (by simp)⟩
    | false => exact .inr ⟨request.retryPending,by simp [AgentMove.keepBackground,asked]⟩
  · intro record recorded
    exact .inr (by simp [AgentMove.keepBackground,recorded])
  · intro unreleased side short
    have receiver : old.move.side = .receiver := named.side.symm.trans side
    have receives : row.move.side = .receiver := side
    rw [receiver] at driven
    have before : activatedYet old.move.step = false := by
      by_contra past
      have after := activated_moves (by rw [moves,driven,Bool.true_or]) (eq_true_of_ne_false past)
      rw [show activatedYet row.move.step = false from short] at after
      cases after
    have copied : copy.move.cutRelease = none := by
      apply agrees.unreleased (agrees.side.trans receiver)
      rw [agrees.step]
      exact before
    have none' : row.move.cutRelease = none := held.elim id fun same => same.trans copied
    simp [AgentMove.keepBackground,unreleased receiver before,receives,none']

theorem activate_next {copy row : MoveRow} {boundElsewhere : Bool} {activated : AgentMove}
    (agrees : Agrees old copy) (edited : edits copy row = true) (before : Unreleased old)
    (ok : Move.activateAgentMove old.move row.move boundElsewhere = .ok activated) :
    Next label cut old { row with move := activated } := by
  have named := agrees.toSame.trans (edits_same edited).1
  unfold Move.activateAgentMove at ok
  split at ok
  next => cases ok
  next shape =>
  split at ok
  next => cases ok
  cases ok
  obtain ⟨side,activating,after,_⟩ : old.move.side = .receiver ∧ old.move.step = .activating ∧
      row.move.step = .activated ∧ ¬ row.move.activatedAtMs.isNone = true := by
    simpa only [not_or,not_not] using shape
  refine ⟨⟨named.named,named.agent,named.side,named.key,named.body⟩,?_,?_,?_,?_,?_⟩
  · show moves old.move.side old.move.step row.move.step = true
    rw [side,activating,after]
    decide
  · exact fun _ _ => .inl activating
  · exact fun request asked => .inr ⟨request.retryPending,asked⟩
  · intro record recorded
    rw [before side (by rw [activating]; rfl)] at recorded
    cases recorded
  · intro _ _ short
    have unfinished : activatedYet row.move.step = false := short
    rw [after] at unfinished
    cases unfinished

/-- What an abort request leaves: the request that was there, or a new one. -/
theorem requestAbort_next {asked : AgentMove} {now : Int}
    (ok : Move.requestAgentMoveAbort old.move = .ok asked) :
    Next label cut old { old with move := asked, updatedAtMs := now } := by
  unfold Move.requestAgentMoveAbort at ok
  split at ok
  next =>
    cases ok
    exact .still ⟨rfl,rfl,rfl,rfl,rfl⟩ rfl (fun request asked => ⟨request.retryPending,asked⟩) rfl
  split at ok
  next => cases ok
  split at ok
  next =>
    cases ok
    exact .still ⟨rfl,rfl,rfl,rfl,rfl⟩ rfl (fun request asked => ⟨true,by simp [asked]⟩) rfl
  split at ok
  next =>
    cases ok
    exact .still ⟨rfl,rfl,rfl,rfl,rfl⟩ rfl (fun request asked => ⟨request.retryPending,asked⟩) rfl
  next absent =>
    cases ok
    exact .still ⟨rfl,rfl,rfl,rfl,rfl⟩ rfl (fun request asked => absurd (by rw [asked]; rfl) absent) rfl

theorem consumeRetry_next :
    Next label cut old { old with move := (Move.consumeMoveAbortRetry old.move).1 } := by
  unfold Move.consumeMoveAbortRetry
  split
  next stored asked =>
    split
    next =>
      refine .still ⟨rfl,rfl,rfl,rfl,rfl⟩ rfl (fun request held => ?_) rfl
      rw [asked] at held
      cases held
      exact ⟨false,rfl⟩
    next => exact .refl label cut old
  next => exact .refl label cut old

end Next

section Effects

variable {s s' : Checkpoints} {label : Label}

/-- What holds in every state the callers reach. -/
structure Sound (s : Checkpoints) : Prop where
  keyed : ∀ cut row, s.rows.get? cut = some row → row.move.cutId = cut
  apart : Apart s.rows
  capped : (openMoves s.rows).length ≤ openMoveCap
  unreleased : ∀ cut row, s.rows.get? cut = some row → Unreleased row
  copied : ∀ cut copy, s.copies.get? cut = some copy → ∃ row, s.rows.get? cut = some row ∧ Agrees row copy

/-- What a call does to the table and the drivers' copies. -/
inductive Effect (label : Label) (s : Checkpoints) : Checkpoints → Prop
  | kept : Effect label s s
  | loaded {cut : String} {row : MoveRow} (stored : s.rows.get? cut = some row) :
      Effect label s ⟨s.rows,s.copies.insert cut row⟩
  | admitted {row : MoveRow} (absent : s.rows.get? row.move.cutId = none)
      (free : conflicts s.rows row = false) (room : (openMoves s.rows).length < openMoveCap)
      (clean : row.move.cutRelease = none) :
      Effect label s ⟨s.rows.insert row.move.cutId row,s.copies⟩
  | edited {old new : MoveRow} (stored : s.rows.get? new.move.cutId = some old)
      (free : conflicts s.rows new = false) (next : Next label new.move.cutId old new)
      (still : new.move.step = old.move.step) :
      Effect label s ⟨s.rows.insert new.move.cutId new,s.copies⟩
  | driven {old new : MoveRow} (stored : s.rows.get? new.move.cutId = some old)
      (free : conflicts s.rows new = false) (next : Next label new.move.cutId old new) :
      Effect label s ⟨s.rows.insert new.move.cutId new,s.copies.insert new.move.cutId new⟩

theorem start_sound : Sound start where
  keyed := by rintro cut row ⟨⟩
  apart := by rintro a b x y ⟨⟩
  capped := Nat.zero_le _
  unreleased := by rintro cut row ⟨⟩
  copied := by rintro cut copy ⟨⟩

theorem admitAgentMove_effect {row : MoveRow} {refs : List MoveRef} {reads : AgentReads}
    {result : Rows × MoveRow} (clean : row.move.cutRelease.isNone = true)
    (ok : admitAgentMove s.rows row refs reads = .ok result) : Effect label s (s.wrote result.1) := by
  unfold admitAgentMove at ok
  split at ok
  next => cases ok
  split at ok
  next =>
    split at ok
    next => cases ok; exact .kept
    next => cases ok
  next =>
    obtain ⟨_,_,ok⟩ := bind_ok ok
    obtain ⟨_,slot,ok⟩ := bind_ok ok
    obtain ⟨written,inserted,ok⟩ := bind_ok ok
    cases ok
    obtain ⟨absent,free,rfl⟩ := insertRow_ok inserted
    exact .admitted absent free (checkSlot_room slot) (by simpa using clean)

theorem admitReceivedMove_effect {row : MoveRow} {result : Rows × MoveRow}
    (clean : row.move.cutRelease.isNone = true) (ok : admitReceivedMove s.rows row = .ok result) :
    Effect label s (s.wrote result.1) := by
  unfold admitReceivedMove at ok
  split at ok
  next => cases ok
  split at ok
  next => cases ok; exact .kept
  next =>
    obtain ⟨_,slot,ok⟩ := bind_ok ok
    obtain ⟨written,inserted,ok⟩ := bind_ok ok
    cases ok
    obtain ⟨absent,free,rfl⟩ := insertRow_ok inserted
    exact .admitted absent free (checkSlot_room slot) (by simpa using clean)

/-- A row written back under its own cut. -/
theorem edited_effect {cutId : String} {old new : MoveRow} {rows : Rows} (sound : Sound s)
    (stored : s.rows.get? cutId = some old) (written : writeRow s.rows new = .ok rows)
    (next : Next label cutId old new) (still : new.move.step = old.move.step) :
    Effect label s (s.wrote rows) := by
  obtain ⟨free,rfl⟩ := writeRow_ok written
  have named : new.move.cutId = cutId := next.named.trans (sound.keyed _ _ stored)
  subst named
  exact .edited stored free next still

theorem driven_effect {cutId : String} {old new : MoveRow} {rows : Rows} (sound : Sound s)
    (stored : s.rows.get? cutId = some old) (next : Next label cutId old new)
    (written : writeRow s.rows new = .ok rows) : Effect label s (s.saved (rows,new)) := by
  obtain ⟨free,rfl⟩ := writeRow_ok written
  have named : new.move.cutId = cutId := next.named.trans (sound.keyed _ _ stored)
  subst named
  exact .driven stored free next

/-- A driver's copy, found with the stored row it agrees with. -/
theorem copy_of {cutId : String} {p : MoveRow → Bool} {stored : MoveRow} (sound : Sound s)
    (found : (s.copies.get? cutId).any p = true) (row : s.rows.get? cutId = some stored) :
    ∃ copy, Agrees stored copy ∧ p copy = true := by
  cases held : s.copies.get? cutId with
  | none => rw [held] at found; cases found
  | some copy =>
    rw [held] at found
    obtain ⟨other,there,agrees⟩ := sound.copied _ _ held
    rw [row] at there
    cases there
    exact ⟨copy,agrees,found⟩

theorem checkpointAgentMove_effect {row : MoveRow} {clearAbort : Bool} {result : Rows × MoveRow}
    (sound : Sound s) (admitted : Allowed s (.checkpointAgentMove row clearAbort))
    (ok : checkpointAgentMove s.rows row clearAbort = .ok result) :
    Effect (.checkpointAgentMove row clearAbort) s (s.saved result) := by
  obtain ⟨current,loaded,ok⟩ := bind_ok ok
  have stored := loadMove_ok loaded
  split at ok
  next =>
    cases ok
    rw [Checkpoints.saved,sound.keyed _ _ stored]
    exact .loaded stored
  next entered =>
    obtain ⟨written,wrote,ok⟩ := bind_ok ok
    cases ok
    obtain ⟨copy,agrees,good⟩ := copy_of sound admitted stored
    simp only [Bool.and_eq_true,Bool.or_eq_true,beq_iff_eq,Bool.not_eq_true'] at good
    refine driven_effect sound stored ?_ wrote
    apply checkpoint_next agrees good.1.1 good.1.2 good.2 (by simpa using entered)
    intro clear
    simp [Label.clears,clear]

theorem activateAgentMove_effect {row : MoveRow} {boundElsewhere : Bool} {installed : Except String Unit}
    {result : Rows × MoveRow} (sound : Sound s)
    (admitted : Allowed s (.activateAgentMove row boundElsewhere installed))
    (ok : activateAgentMoveCarrying s.rows row boundElsewhere installed = .ok result) :
    Effect label s (s.saved result) := by
  obtain ⟨current,loaded,ok⟩ := bind_ok ok
  obtain ⟨activated,accepted,ok⟩ := bind_ok ok
  obtain ⟨_,_,ok⟩ := bind_ok ok
  obtain ⟨written,wrote,ok⟩ := bind_ok ok
  cases ok
  have stored := loadMove_ok loaded
  obtain ⟨copy,agrees,edited⟩ := copy_of sound admitted stored
  exact driven_effect sound stored (activate_next agrees edited (sound.unreleased _ _ stored) accepted) wrote

theorem requestAbort_effect {cutId : String} {now : Int} {result : Rows × MoveRow} (sound : Sound s)
    (ok : requestAgentMoveAbort s.rows cutId now = .ok result) : Effect label s (s.wrote result.1) := by
  obtain ⟨row,loaded,ok⟩ := bind_ok ok
  obtain ⟨asked,requested,ok⟩ := bind_ok ok
  split at ok
  next => cases ok; exact .kept
  next =>
    obtain ⟨written,wrote,ok⟩ := bind_ok ok
    cases ok
    have still : asked.step = row.move.step := by
      rcases requestAgentMoveAbort_ok requested with rfl | ⟨_,_,rfl⟩ <;> rfl
    exact edited_effect sound (loadMove_ok loaded) wrote (requestAbort_next requested) still

theorem consumeRetry_effect {cutId : String} {result : Rows × Bool} (sound : Sound s)
    (ok : consumeMoveAbortRetry s.rows cutId = .ok result) : Effect label s (s.wrote result.1) := by
  obtain ⟨row,loaded,(ok : (if (Move.consumeMoveAbortRetry row.move).2 then _ else _) = _)⟩ := bind_ok ok
  split at ok
  next =>
    obtain ⟨written,wrote,ok⟩ := bind_ok ok
    cases ok
    have still : (Move.consumeMoveAbortRetry row.move).1.step = row.move.step := by
      rcases consumeMoveAbortRetry_cases row.move with same | ⟨_,_,same⟩ <;> rw [same]
    exact edited_effect sound (loadMove_ok loaded) wrote consumeRetry_next still
  next => cases ok; exact .kept

theorem setAccept_effect {cutId : String} {accept : Background} {now : Int} {rows : Rows}
    (sound : Sound s) (ok : setMoveCutAccept s.rows cutId accept now = .ok rows) :
    Effect label s (s.wrote rows) := by
  unfold setMoveCutAccept at ok
  split at ok
  next row stored =>
    refine edited_effect sound stored ok ?_ rfl
    exact .still ⟨rfl,rfl,rfl,rfl,rfl⟩ rfl (fun request asked => ⟨request.retryPending,asked⟩) rfl
  next => cases ok; exact .kept

theorem setRelease_effect {cutId : String} {release : Background} {rows : Rows} (sound : Sound s)
    (admitted : Allowed s (.setMoveCutRelease cutId release))
    (ok : setMoveCutRelease s.rows cutId release = .ok rows) :
    Effect (.setMoveCutRelease cutId release) s (s.wrote rows) := by
  obtain ⟨row,loaded,ok⟩ := bind_ok ok
  have stored := loadMove_ok loaded
  have present : row.move.cutRelease.isSome = true := by
    simpa only [Allowed,allowed,stored,Option.any_some] using admitted
  refine edited_effect sound stored ok ?_ rfl
  refine ⟨⟨rfl,rfl,rfl,rfl,rfl⟩,moves_refl _ _,fun _ => .inl,fun request asked => ?_,fun record _ => ?_,?_⟩
  · exact .inr ⟨request.retryPending,asked⟩
  · exact .inl ⟨by simp [Label.releases],rfl⟩
  · intro unreleased side short
    rw [unreleased side short] at present
    cases present

/-- One case for each call. -/
theorem perform_effect (sound : Sound s) (admitted : Allowed s label) (done : perform s label = .ok s') :
    Effect label s s' := by
  cases label with
  | admitAgentMove row refs reads =>
    obtain ⟨result,ok,rfl⟩ := map_ok done
    exact admitAgentMove_effect admitted ok
  | admitReceivedMove row =>
    obtain ⟨result,ok,rfl⟩ := map_ok done
    exact admitReceivedMove_effect admitted ok
  | load cutId =>
    obtain ⟨row,ok,rfl⟩ := map_ok done
    have stored := loadMove_ok ok
    rw [Checkpoints.saved,sound.keyed _ _ stored]
    exact .loaded stored
  | checkpointAgentMove row clearAbort =>
    obtain ⟨result,ok,rfl⟩ := map_ok done
    exact checkpointAgentMove_effect sound admitted ok
  | activateAgentMove row boundElsewhere installed =>
    obtain ⟨result,ok,rfl⟩ := map_ok done
    exact activateAgentMove_effect sound admitted ok
  | requestAgentMoveAbort cutId now =>
    obtain ⟨result,ok,rfl⟩ := map_ok done
    exact requestAbort_effect sound ok
  | consumeMoveAbortRetry cutId =>
    obtain ⟨result,ok,rfl⟩ := map_ok done
    exact consumeRetry_effect sound ok
  | setMoveCutAccept cutId accept now =>
    obtain ⟨rows,ok,rfl⟩ := map_ok done
    exact setAccept_effect sound ok
  | setMoveCutRelease cutId release =>
    obtain ⟨rows,ok,rfl⟩ := map_ok done
    exact setRelease_effect sound admitted ok

theorem step_effect (sound : Sound s) (admitted : Allowed s label) (taken : step s label = some s') :
    Effect label s s' := by
  unfold step at taken
  split at taken
  next done => cases taken; exact perform_effect sound admitted done
  next => cases taken; exact .kept

/-- A stored row stays under its cut, and goes on as one call lets it. -/
theorem Effect.next (effect : Effect label s s') {cut : String} {old : MoveRow}
    (stored : s.rows.get? cut = some old) :
    ∃ new, s'.rows.get? cut = some new ∧ Next label cut old new := by
  cases effect with
  | kept => exact ⟨old,stored,.refl _ _ _⟩
  | loaded => exact ⟨old,stored,.refl _ _ _⟩
  | admitted absent =>
    refine ⟨old,?_,.refl _ _ _⟩
    rw [Table.get?_insert,if_neg]
    · exact stored
    · rintro rfl
      rw [stored] at absent
      cases absent
  | @edited before after there _ next _ | @driven before after there _ next =>
    by_cases same : cut = after.move.cutId
    · subst same
      rw [stored] at there
      cases there
      exact ⟨_,by rw [Table.get?_insert,if_pos rfl],next⟩
    · exact ⟨old,by rw [Table.get?_insert,if_neg same]; exact stored,.refl _ _ _⟩

theorem isOpen_moves {cut : String} {old new : MoveRow} (next : Next label cut old new)
    (isOpen : new.isOpen = true) : old.isOpen = true := by
  simp only [MoveRow.isOpen,Bool.not_eq_true'] at isOpen ⊢
  by_contra terminal
  have same := terminal_moves next.moved (eq_true_of_ne_false terminal)
  rw [same] at isOpen
  exact terminal isOpen

/-- A row that is written over one of its cut opens no move. -/
theorem openMoves_write {cut : String} {old new : MoveRow} (stored : s.rows.get? new.move.cutId = some old)
    (next : Next label cut old new) :
    (openMoves (s.rows.insert new.move.cutId new)).length ≤ (openMoves s.rows).length := by
  have counted := openMoves_insert s.rows new
  rw [stored,Option.any_some] at counted
  by_cases after : new.isOpen = true
  · rw [isOpen_moves next after,after] at counted
    omega
  · rw [if_neg after] at counted
    omega

theorem agrees_still {cut : String} {old new copy : MoveRow} (agrees : Agrees old copy)
    (next : Next label cut old new) (still : new.move.step = old.move.step) : Agrees new copy where
  named := agrees.named.trans next.named.symm
  agent := agrees.agent.trans next.agent.symm
  side := agrees.side.trans next.side.symm
  key := agrees.key.trans next.key.symm
  body := agrees.body.trans next.body.symm
  step := agrees.step.trans still.symm
  unreleased := agrees.unreleased

theorem Agrees.refl {row : MoveRow} (unreleased : Unreleased row) : Agrees row row where
  toSame := .refl row
  step := rfl
  unreleased := unreleased

theorem Effect.sound (sound : Sound s) (effect : Effect label s s') : Sound s' := by
  cases effect with
  | kept => exact sound
  | @loaded cut row stored =>
    refine { sound with copied := fun other copy held => ?_ }
    rw [Table.get?_insert] at held
    split at held
    next same =>
      cases held
      subst same
      exact ⟨row,stored,.refl (sound.unreleased _ _ stored)⟩
    next => exact sound.copied _ _ held
  | @admitted row absent free room clean =>
    have counted := openMoves_insert s.rows row
    rw [absent,Option.any_none,if_neg (by simp),Nat.add_zero] at counted
    refine ⟨fun cut other stored => ?_,apart_insert sound.apart free,?_,fun cut other stored => ?_,?_⟩
    · rw [Table.get?_insert] at stored
      split at stored
      next same => cases stored; exact same.symm
      next => exact sound.keyed _ _ stored
    · show (openMoves (s.rows.insert row.move.cutId row)).length ≤ openMoveCap
      split at counted <;> omega
    · rw [Table.get?_insert] at stored
      split at stored
      next => cases stored; exact fun _ _ => clean
      next => exact sound.unreleased _ _ stored
    · intro cut copy held
      obtain ⟨other,stored,agrees⟩ := sound.copied _ _ held
      refine ⟨other,?_,agrees⟩
      rw [Table.get?_insert,if_neg]
      · exact stored
      · rintro rfl
        rw [stored] at absent
        cases absent
  | @edited old new stored free next still =>
    refine ⟨fun cut other there => ?_,apart_insert sound.apart free,?_,fun cut other there => ?_,?_⟩
    · rw [Table.get?_insert] at there
      split at there
      next same => cases there; exact same.symm
      next => exact sound.keyed _ _ there
    · exact (openMoves_write stored next).trans sound.capped
    · rw [Table.get?_insert] at there
      split at there
      next => cases there; exact next.unreleased (sound.unreleased _ _ stored)
      next => exact sound.unreleased _ _ there
    · intro cut copy held
      obtain ⟨other,there,agrees⟩ := sound.copied _ _ held
      by_cases same : cut = new.move.cutId
      · subst same
        rw [stored] at there
        cases there
        exact ⟨new,by rw [Table.get?_insert,if_pos rfl],agrees_still agrees next still⟩
      · exact ⟨other,by rw [Table.get?_insert,if_neg same]; exact there,agrees⟩
  | @driven old new stored free next =>
    have clean := next.unreleased (sound.unreleased _ _ stored)
    refine ⟨fun cut other there => ?_,apart_insert sound.apart free,?_,fun cut other there => ?_,?_⟩
    · rw [Table.get?_insert] at there
      split at there
      next same => cases there; exact same.symm
      next => exact sound.keyed _ _ there
    · exact (openMoves_write stored next).trans sound.capped
    · rw [Table.get?_insert] at there
      split at there
      next => cases there; exact clean
      next => exact sound.unreleased _ _ there
    · intro cut copy held
      rw [Table.get?_insert] at held
      rw [Table.get?_insert]
      split at held
      next same => cases held; exact ⟨new,if_pos same,.refl clean⟩
      next other => rw [if_neg other]; exact sound.copied _ _ held

end Effects

section Runs

variable {s s' : Checkpoints} {cut : String}

theorem sound_step {label : Label} (sound : Sound s) (admitted : Allowed s label)
    (taken : step s label = some s') : Sound s' :=
  (step_effect sound admitted taken).sound sound

theorem sound_reach (sound : Sound s) (reached : Reach step Allowed s s') : Sound s' :=
  reached.invariant Sound sound fun _ _ _ => sound_step

/-- The callers keep to their part, and none makes a call that is left out. -/
def Without (left : Label → Bool) (s : Checkpoints) (label : Label) : Prop :=
  Allowed s label ∧ left label = false

theorem Reach.allowed {left : Label → Bool} (reached : Reach step (Without left) s s') :
    Reach step Allowed s s' := reached.mono fun _ _ => And.left

/-- What every call keeps of the rows it finds stays true of the row under a cut. -/
theorem row_reach {left : Label → Bool} {holds : MoveRow → Prop} (sound : Sound s)
    (kept : ∀ label old new, left label = false → Next label cut old new → holds old → holds new)
    (initial : ∃ row, s.rows.get? cut = some row ∧ holds row)
    (reached : Reach step (Without left) s s') : ∃ row, s'.rows.get? cut = some row ∧ holds row := by
  have both : Sound s' ∧ ∃ row, s'.rows.get? cut = some row ∧ holds row := by
    refine reached.invariant (fun u => Sound u ∧ ∃ row, u.rows.get? cut = some row ∧ holds row)
      ⟨sound,initial⟩ ?_
    rintro u label u' ⟨before,row,stored,good⟩ ⟨admitted,stays⟩ taken
    have effect := step_effect before admitted taken
    obtain ⟨new,there,next⟩ := effect.next stored
    exact ⟨effect.sound before,new,there,kept label row new stays next good⟩
  exact both.2

theorem without_nothing (reached : Reach step Allowed s s') :
    Reach step (Without fun _ => false) s s' := reached.mono fun _ _ admitted => ⟨admitted,rfl⟩

/-- A receiver that will not enter the boundary: it is aborted, or an abort
stands before the boundary. -/
def Doomed (row : MoveRow) : Prop :=
  row.move.side = .receiver ∧ crossed row.move.step = false ∧
    (row.move.step.isTerminal = true ∨ row.move.abortRequested.isSome = true)

theorem doomed_next {label : Label} {old new : MoveRow} (next : Next label cut old new)
    (doomed : Doomed old) : Doomed new := by
  obtain ⟨side,short,past⟩ := doomed
  have moved := next.moved
  rw [side] at moved
  refine ⟨next.side.trans side,?_,?_⟩
  · rcases uncrossed_moves moved short with stays | enters
    · exact stays
    · rcases next.boundary side enters with already | unasked
      · rw [already] at short; cases short
      · rcases past with terminal | asked
        · rw [terminal_moves moved terminal]; exact short
        · rw [unasked] at asked; cases asked
  · rcases past with terminal | asked
    · left
      rw [terminal_moves moved terminal]
      exact terminal
    · obtain ⟨request,standing⟩ := Option.isSome_iff_exists.mp asked
      rcases next.abort request standing with ⟨_,source⟩ | ⟨retry,stands⟩
      · rw [side] at source; cases source
      · exact .inr (by rw [stands]; rfl)

theorem crossed_next {label : Label} {old new : MoveRow} (next : Next label cut old new)
    (past : old.move.side = .receiver ∧ crossed old.move.step = true) :
    new.move.side = .receiver ∧ crossed new.move.step = true := by
  have moved := next.moved
  rw [past.1] at moved
  exact ⟨next.side.trans past.1,crossed_moves moved past.2⟩

theorem requestAbort_accepted {now : Int} {rows : Rows} {row : MoveRow} (sound : Sound s)
    (ok : requestAgentMoveAbort s.rows cut now = .ok (rows,row)) :
    rows.get? cut = some row ∧ (row.move.step = .aborted ∨
      row.move.step.beforeBoundary row.move.side = true ∧ row.move.abortRequested.isSome = true) := by
  obtain ⟨stored,loaded,ok⟩ := bind_ok ok
  obtain ⟨asked,requested,ok⟩ := bind_ok ok
  have there := loadMove_ok loaded
  have before : stored.move.step = .aborted ∨ stored.move.step.beforeBoundary stored.move.side = true := by
    unfold Move.requestAgentMoveAbort at requested
    split at requested
    next aborted => exact .inl aborted
    split at requested
    next => cases requested
    next inside => exact .inr (by simpa using inside)
  split at ok
  next unchanged =>
    cases ok
    refine ⟨there,?_⟩
    rcases unchanged with aborted | ⟨standing,_⟩
    · exact .inl aborted
    · exact before.imp_right fun inside => ⟨inside,standing⟩
  next changed =>
    obtain ⟨written,wrote,ok⟩ := bind_ok ok
    cases ok
    obtain ⟨_,rfl⟩ := writeRow_ok wrote
    have inside := before.resolve_left fun aborted => changed (.inl aborted)
    have open' : stored.move.step ≠ .aborted := fun aborted => changed (.inl aborted)
    rw [Move.requestAgentMoveAbort,if_neg open',if_neg (by simp [inside])] at requested
    have named : asked.cutId = cut ∧ asked.step.beforeBoundary asked.side = true ∧
        asked.abortRequested.isSome = true := by
      have keyed := sound.keyed _ _ there
      split at requested
      next stuck =>
        cases requested
        refine ⟨keyed,inside,?_⟩
        rw [AgentMove.abortStuck,Bool.and_eq_true] at stuck
        simpa using stuck.1
      next free =>
        split at requested
        next standing => exact absurd (.inr ⟨standing,by simpa using free⟩) changed
        next => cases requested; exact ⟨keyed,inside,rfl⟩
    refine ⟨?_,.inr named.2⟩
    rw [Table.get?_insert,if_pos named.1.symm]

theorem requestAbort_crossed {row : MoveRow} (stored : s.rows.get? cut = some row)
    (past : row.move.side = .receiver ∧ crossed row.move.step = true) (now : Int) :
    requestAgentMoveAbort s.rows cut now = .error "invalid_state" := by
  have refused : Move.requestAgentMoveAbort row.move = .error "invalid_state" := by
    obtain ⟨side,crossing⟩ := past
    unfold Move.requestAgentMoveAbort
    rw [side,if_neg,if_pos]
    · revert crossing
      cases row.move.step <;> decide
    · rintro aborted
      rw [aborted] at crossing
      cases crossing
  unfold requestAgentMoveAbort loadMove
  rw [stored]
  show (Move.requestAgentMoveAbort row.move >>= _) = _
  rw [refused]
  rfl

/-- An admission leaves its row, or the one that its key found, under the row's cut. -/
theorem admitAgentMove_found {rows : Rows} {row first : MoveRow} {refs : List MoveRef}
    {reads : AgentReads} (sound : Sound s) (ok : admitAgentMove s.rows row refs reads = .ok (rows,first)) :
    row.requestKey.isSome = true ∧ rows.get? first.move.cutId = some first ∧
      first.requestKey = row.requestKey ∧ first.requestBody = row.requestBody := by
  unfold admitAgentMove at ok
  split at ok
  next => cases ok
  next shaped =>
  have keyed : row.requestKey.isSome = true := by
    simp only [Bool.not_eq_true',Bool.not_eq_false,MoveRow.admissible,Bool.and_eq_true] at shaped
    exact shaped.1.2
  refine ⟨keyed,?_⟩
  split at ok
  next cutId existing found =>
    obtain ⟨stored,key⟩ := Table.find?_some found
    split at ok
    next body =>
      cases ok
      rw [sound.keyed _ _ stored]
      exact ⟨stored,beq_iff_eq.mp key,body⟩
    next => cases ok
  next =>
    obtain ⟨_,_,ok⟩ := bind_ok ok
    obtain ⟨_,_,ok⟩ := bind_ok ok
    obtain ⟨written,inserted,ok⟩ := bind_ok ok
    cases ok
    obtain ⟨_,_,rfl⟩ := insertRow_ok inserted
    exact ⟨by rw [Table.get?_insert,if_pos rfl],rfl,rfl⟩

/-- A key that is stored answers for every later request that names it. -/
theorem admitAgentMove_again {row again : MoveRow} {refs : List MoveRef} {reads : AgentReads}
    (sound : Sound s) (stored : s.rows.get? cut = some row) (shaped : again.admissible = true)
    (key : row.requestKey = again.requestKey) :
    admitAgentMove s.rows again refs reads =
      if row.requestBody = again.requestBody then .ok (s.rows,row) else .error "request_key_reused" := by
  have keyed : again.requestKey.isSome = true := by
    simp only [MoveRow.admissible,Bool.and_eq_true] at shaped
    exact shaped.1.2
  unfold admitAgentMove
  rw [if_neg (by simp [shaped])]
  cases found : s.rows.find? fun _ existing => existing.requestKey == again.requestKey with
  | none =>
    have missing := Table.find?_none.mp found cut row stored
    simp [key] at missing
  | some hit =>
    obtain ⟨cutId,existing⟩ := hit
    obtain ⟨there,same⟩ := Table.find?_some found
    have one : cutId = cut := by
      by_contra different
      have free := sound.apart _ _ _ _ there stored different
      rw [clashes,Bool.or_eq_false_iff] at free
      have clash : (existing.requestKey.isSome && existing.requestKey == row.requestKey) = true := by
        rw [beq_iff_eq.mp same,key,keyed]
        simp
      rw [free.1] at clash
      cases clash
    subst one
    rw [stored] at there
    cases there
    rfl

/-- One open move an agent. -/
def OneOpenMove (rows : Rows) : Prop :=
  ∀ a b x y, rows.get? a = some x → rows.get? b = some y → x.isOpen = true → y.isOpen = true →
    x.move.agentId = y.move.agentId → a = b

theorem oneOpen_of_apart {rows : Rows} (apart : Apart rows) : OneOpenMove rows := by
  intro a b x y atA atB openX openY agent
  by_contra different
  have free := apart a b x y atA atB different
  simp [clashes,openX,openY,agent] at free

theorem step_refused {label : Label} {e : String} (refused : perform s label = .error e) :
    step s label = some s := by
  rw [step,refused]

/-- The checkpoints over whole runs: one open move an agent and four in all, an
accepted abort and the boundary exclude each other for good, an abort stays until
its driver clears it, a release record stays as the release task left it, and a
request key answers with its own move. -/
theorem checkpoints_well_formed (reached : Reach step Allowed start s) :
    OneOpenMove s.rows ∧ (openMoves s.rows).length ≤ 4 ∧
    (∀ cut now rows row s', requestAgentMoveAbort s.rows cut now = .ok (rows,row) →
      row.move.side = .receiver → Reach step Allowed (s.wrote rows) s' →
      ∃ row', s'.rows.get? cut = some row' ∧ crossed row'.move.step = false) ∧
    (∀ cut row s', s.rows.get? cut = some row → row.move.side = .receiver →
      crossed row.move.step = true → Reach step Allowed s s' →
      (∃ row', s'.rows.get? cut = some row' ∧ crossed row'.move.step = true) ∧
      ∀ now, requestAgentMoveAbort s'.rows cut now = .error "invalid_state" ∧
        step s' (.requestAgentMoveAbort cut now) = some s') ∧
    (∀ cut row request s', s.rows.get? cut = some row → row.move.abortRequested = some request →
      Reach step (Without (Label.clears cut)) s s' →
      ∃ row' retry, s'.rows.get? cut = some row' ∧
        row'.move.abortRequested = some { request with retryPending := retry }) ∧
    (∀ cut row record s', s.rows.get? cut = some row → row.move.cutRelease = some record →
      (Reach step Allowed s s' → ∃ row', s'.rows.get? cut = some row' ∧ row'.move.cutRelease.isSome) ∧
      (Reach step (Without (Label.releases cut)) s s' →
        ∃ row', s'.rows.get? cut = some row' ∧ row'.move.cutRelease = some record)) ∧
    (∀ row refs reads rows first s', row.move.cutRelease = none →
      admitAgentMove s.rows row refs reads = .ok (rows,first) → Reach step Allowed (s.wrote rows) s' →
      ∃ row', s'.rows.get? first.move.cutId = some row' ∧ Same first row' ∧
        ∀ again refs' reads', again.admissible = true → again.requestKey = row.requestKey →
          admitAgentMove s'.rows again refs' reads' =
            if row.requestBody = again.requestBody then .ok (s'.rows,row')
            else .error "request_key_reused") := by
  have sound := sound_reach start_sound reached
  refine ⟨oneOpen_of_apart sound.apart,sound.capped,?_,?_,?_,?_,?_⟩
  · intro cut now rows row s' accepted side run
    have after : Sound (s.wrote rows) := (@requestAbort_effect _ (.load cut) _ _ _ sound accepted).sound sound
    obtain ⟨there,standing⟩ := requestAbort_accepted sound accepted
    have doomed : Doomed row := by
      refine ⟨side,?_,?_⟩
      · rcases standing with aborted | ⟨before,_⟩
        · rw [aborted]; rfl
        · rw [side] at before
          revert before
          cases row.move.step <;> decide
      · rcases standing with aborted | ⟨_,asked⟩
        · exact .inl (by rw [aborted]; rfl)
        · exact .inr asked
    obtain ⟨row',stored',_,short,_⟩ := row_reach after (fun _ _ _ _ next => doomed_next next)
      ⟨row,there,doomed⟩ (without_nothing run)
    exact ⟨row',stored',short⟩
  · intro cut row s' stored side past run
    obtain ⟨row',stored',crossing⟩ := row_reach sound (fun _ _ _ _ next => crossed_next next)
      ⟨row,stored,side,past⟩ (without_nothing run)
    refine ⟨⟨row',stored',crossing.2⟩,fun now => ?_⟩
    have refused := requestAbort_crossed stored' crossing now
    refine ⟨refused,step_refused (e := "invalid_state") ?_⟩
    rw [perform,refused]
    rfl
  · intro cut row request s' stored asked run
    have kept : ∀ label old new, Label.clears cut label = false → Next label cut old new →
        (∃ retry, old.move.abortRequested = some { request with retryPending := retry }) →
        ∃ retry, new.move.abortRequested = some { request with retryPending := retry } := by
      rintro label old new stays next ⟨retry,standing⟩
      rcases next.abort _ standing with ⟨clears,_⟩ | stands
      · rw [stays] at clears; cases clears
      · exact stands
    obtain ⟨row',stored',retry,stands⟩ := row_reach sound kept ⟨row,stored,request.retryPending,asked⟩ run
    exact ⟨row',retry,stored',stands⟩
  · intro cut row record s' stored recorded
    refine ⟨fun run => ?_,fun run => ?_⟩
    · have kept : ∀ label old new, false = false → Next label cut old new →
          old.move.cutRelease.isSome = true → new.move.cutRelease.isSome = true := by
        intro label old new _ next present
        obtain ⟨held,there⟩ := Option.isSome_iff_exists.mp present
        rcases next.release _ there with ⟨_,written⟩ | same
        · exact written
        · rw [same]; rfl
      exact row_reach sound kept ⟨row,stored,by rw [recorded]; rfl⟩ (without_nothing run)
    · refine row_reach sound ?_ ⟨row,stored,recorded⟩ run
      intro label old new stays next there
      rcases next.release _ there with ⟨releases,_⟩ | same
      · rw [stays] at releases; cases releases
      · exact same
  · intro row refs reads rows first s' clean admitted run
    have after : Sound (s.wrote rows) :=
      (@admitAgentMove_effect _ (.load "") _ _ _ _ (by rw [clean]; rfl) admitted).sound sound
    obtain ⟨keyed,stored,key,body⟩ := admitAgentMove_found sound admitted
    obtain ⟨row',stored',same⟩ := row_reach after (fun _ _ _ _ next before => before.trans next.toSame)
      ⟨first,stored,Same.refl first⟩ (without_nothing run)
    have later : Sound s' := sound_reach after run
    refine ⟨row',stored',same,fun again refs' reads' shaped again_key => ?_⟩
    rw [admitAgentMove_again later stored' shaped (same.key.trans (key.trans again_key.symm)),same.body,body]

namespace Claimed

def pickedUp : MoveRow where
  move := { (default : AgentMove) with
    cutId := "cut_1", agentId := "agent_1", side := .receiver, step := .pickedUp, abortRequested := none
    cutAccept := none, cutRelease := none }
  requestKey := none
  requestBody := none
  updatedAtMs := 0

def onStep (step : MoveStep) : MoveRow := { pickedUp with move.step := step }

/-- A received move driven to its claim. -/
def labels : List Label := [.admitReceivedMove pickedUp,.load "cut_1",
  .checkpointAgentMove (onStep .imported) false,.checkpointAgentMove (onStep .staged) false,
  .checkpointAgentMove (onStep .claimed) false]

def state : Checkpoints := ⟨Table.insert ∅ "cut_1" (onStep .claimed),Table.insert ∅ "cut_1" (onStep .claimed)⟩

theorem state_reached : Reach step Allowed start state :=
  admits_reach allowed (show exec step start labels = some state by decide +kernel) (by decide +kernel)

/-- The abort comes while the driver holds the row it claimed with; the
checkpoint that would enter the boundary leaves the row at its claim. -/
theorem abort_wins_at_claimed : ∃ rows row s',
    requestAgentMoveAbort state.rows "cut_1" 5 = .ok (rows,row) ∧
    step (state.wrote rows) (.checkpointAgentMove (onStep .activating) false) = some s' ∧
    ∃ row', s'.rows.get? "cut_1" = some row' ∧ crossed row'.move.step = false := by
  let asked : MoveRow := { onStep .claimed with
    move.abortRequested := some ⟨some .operator,none,false⟩, updatedAtMs := 5 }
  let rows : Rows := Table.insert ∅ "cut_1" asked
  have accepted : requestAgentMoveAbort state.rows "cut_1" 5 = .ok (rows,asked) := by decide +kernel
  let s' : Checkpoints := ⟨rows,rows⟩
  have taken : step (state.wrote rows) (.checkpointAgentMove (onStep .activating) false) = some s' := by
    decide +kernel
  have run : Reach step Allowed (state.wrote rows) s' :=
    .step (.checkpointAgentMove (onStep .activating) false) .refl
      (show allowed _ _ = true by decide +kernel) taken
  exact ⟨rows,asked,s',accepted,taken,
    (checkpoints_well_formed state_reached).2.2.1 "cut_1" 5 rows asked s' accepted rfl run⟩

end Claimed

end Runs

end Entorhinal.MoveCheckpoints
