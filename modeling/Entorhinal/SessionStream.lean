import Entorhinal.Lines
import Entorhinal.SessionInstall

/-! The bytes of a session-bindings stream: a line that names the version, a
header line, and one line a binding in ascending key order. JSON is a parameter:
what is written of a header or a row, and what is read back of a line. -/
namespace Entorhinal.Session

abbrev Bytes := List UInt8

def newline : UInt8 := 10

def ascii (text : String) : Bytes := text.toList.map fun c => UInt8.ofNat c.toNat

def magicPrefix : Bytes := ascii "ck-session-bindings/"

/-- The version line without its newline. -/
def magic : Bytes := ascii "ck-session-bindings/v1"

def finishedMagic : Bytes := ascii "ck-session-bindings/v2"

def rowCap : Nat := 16384

def lineCap : Nat := 1048576

def streamCap : Nat := 64 * 1048576

/-- The longest first line a reader looks at. -/
def magicCap : Nat := 64

structure Header where
  agentId : String
  count : Nat
deriving DecidableEq, Repr

/-- The JSON of a header and of a row. A refused line comes with the parser's text. -/
structure Codec where
  header : Header → Bytes
  readHeader : Bytes → Except String Header
  row : CarriedBinding → Bytes
  readRow : Bytes → Except String CarriedBinding

/-- What the stream relies on for these values: JSON has no raw newline, reads back
what it wrote, and a time it reads is an `i64`. -/
structure Codec.Faithful (codec : Codec) (agentId : String) (rows : List CarriedBinding) : Prop where
  headerLine : newline ∉ codec.header ⟨agentId,rows.length⟩
  headerRead : codec.readHeader (codec.header ⟨agentId,rows.length⟩) = .ok ⟨agentId,rows.length⟩
  rowLine : ∀ row ∈ rows, newline ∉ codec.row row
  rowRead : ∀ row ∈ rows, row.timesFit = true → codec.readRow (codec.row row) = .ok row

/-- A refusal of the stream; `incompatibleVersion` is of another version of the
format, named by the bytes after its prefix. -/
inductive StreamError
  | incompatibleVersion (found : Bytes)
  | invalid (message : String)
  | notExportable (message : String)
deriving DecidableEq, Repr

def streamLine (value : Bytes) : Except StreamError Bytes :=
  if lineCap < value.length + 1 then .error (.notExportable "a session binding is too large to carry")
  else .ok (value ++ [newline])

/-- `encode` under the version line `version`. -/
def encode (codec : Codec) (version : Bytes) (agentId : String) (rows : List CarriedBinding) :
    Except StreamError Bytes :=
  if rowCap < rows.length then .error (.notExportable "the agent has more than 16384 session bindings")
  else do
    let header ← streamLine (codec.header ⟨agentId,rows.length⟩)
    let lines ← rows.mapM fun row => streamLine (codec.row row)
    let bytes := version ++ [newline] ++ header ++ lines.flatten
    if streamCap < bytes.length then
      .error (.notExportable "the agent's session bindings exceed the stream cap")
    else return bytes

/-- A line that names a data holder needs the second version. -/
def streamMagic (rows : List CarriedBinding) : Bytes :=
  if rows.any fun row => row.heldOn.isSome then finishedMagic else magic

/-- The next line of at most `cap` bytes, its newline included; none at the end. -/
def nextLine (cap : Nat) (input : Bytes) : Except StreamError (Option (Bytes × Bytes)) :=
  if input.isEmpty then .ok none
  else match Lines.splitLine newline cap input with
    | some read => .ok (some read)
    | none => .error (.invalid "session bindings line is truncated or too long")

def decodeRow (codec : Codec) (finished : Bool) (last : Option RefKey) (input : Bytes) :
    Except StreamError (CarriedBinding × Bytes) := do
  match ← nextLine lineCap input with
  | none => .error (.invalid "session bindings stream is truncated")
  | some (line,rest) => do
    let row ← (codec.readRow line).mapError fun e => .invalid ("bad session binding: " ++ e)
    row.check.mapError .invalid
    if !finished && row.heldOn.isSome then
      .error (.invalid "remote finished bindings require session-bindings/v2")
    else if last.any fun last => decide (row.key ≤ last) then
      .error (.invalid "session bindings are not in strictly ascending ref order")
    else return (row,rest)

/-- The given number of rows, each after the key of the one before. -/
def decodeRows (codec : Codec) (finished : Bool) : Nat → Option RefKey → Bytes →
    Except StreamError (List CarriedBinding × Bytes)
  | 0, _, input => .ok ([],input)
  | count + 1, last, input => do
    let (row,rest) ← decodeRow codec finished last input
    let (rows,tail) ← decodeRows codec finished count (some row.key) rest
    return (row :: rows,tail)

/-- The rows after the header, and nothing after them. -/
def decodeBody (codec : Codec) (finished : Bool) (agentId : String) (header : Header) (input : Bytes) :
    Except StreamError (List CarriedBinding) :=
  if header.agentId ≠ agentId then .error (.invalid "session bindings belong to another agent")
  else if rowCap < header.count then .error (.invalid "session bindings count exceeds its cap")
  else do
    let (rows,tail) ← decodeRows codec finished header.count none input
    if tail.isEmpty then return rows else .error (.invalid "trailing session bindings bytes")

/-- Whether the version line lets rows name a holder. -/
def versionOf (first : Bytes) : Except StreamError Bool :=
  let finished := first == finishedMagic
  if first != magic && !finished then
    if magicPrefix.isPrefixOf first then .error (.incompatibleVersion (first.drop magicPrefix.length))
    else .error (.invalid "bad session bindings magic")
  else .ok finished

def decodeHeader (codec : Codec) (finished : Bool) (agentId : String) (input : Bytes) :
    Except StreamError (List CarriedBinding) := do
  match ← nextLine lineCap input with
  | none => .error (.invalid "session bindings stream has no header")
  | some (line,input) => do
    let header ← (codec.readHeader line).mapError fun e => .invalid ("bad header: " ++ e)
    decodeBody codec finished agentId header input

def decode (codec : Codec) (agentId : String) (input : Bytes) :
    Except StreamError (List CarriedBinding) := do
  let read ← nextLine magicCap input
  let (first,input) := read.getD ([],input)
  let finished ← versionOf first
  decodeHeader codec finished agentId input

/-- The caps of the stream are met. -/
structure WithinCaps (codec : Codec) (version : Bytes) (agentId : String) (rows : List CarriedBinding) :
    Prop where
  count : rows.length ≤ rowCap
  header : (codec.header ⟨agentId,rows.length⟩).length + 1 ≤ lineCap
  lines : ∀ row ∈ rows, (codec.row row).length + 1 ≤ lineCap
  total : (version ++ [newline] ++ (codec.header ⟨agentId,rows.length⟩ ++ [newline]) ++
    rows.flatMap fun row => codec.row row ++ [newline]).length ≤ streamCap

/-- The input is a stream of these rows but for the spelling of its JSON: a version
line that lets a row name a holder only in the second version, a header with the
agent and the exact count, one line a row, nothing after them, and the rows are
checked and strictly ascending. -/
structure Spelled (codec : Codec) (agentId : String) (rows : List CarriedBinding) (input : Bytes) :
    Prop where
  bytes : ∃ (version header : Bytes) (lines : List Bytes), (version = magic ∧ (∀ row ∈ rows, row.heldOn = none) ∨
      version = finishedMagic) ∧
    input = version ++ [newline] ++ (header ++ [newline]) ++ lines.flatMap (· ++ [newline]) ∧
    codec.readHeader header = .ok ⟨agentId,rows.length⟩ ∧
    List.Forall₂ (fun line row => codec.readRow line = .ok row) lines rows
  checked : ∀ row ∈ rows, row.check = .ok ()
  ascending : rows.Pairwise fun a b => a.key < b.key
  count : rows.length ≤ rowCap

section Framing

variable {codec : Codec} {agentId : String} {finished : Bool} {last : Option RefKey}
variable {row : CarriedBinding} {rows : List CarriedBinding} {input rest tail : Bytes}

theorem nextLine_append {cap : Nat} {line : Bytes} (clear : newline ∉ line) (short : line.length + 1 ≤ cap) :
    nextLine cap (line ++ newline :: rest) = .ok (some (line,rest)) := by
  have read : Lines.splitLine newline cap (line ++ newline :: rest) = some (line,rest) :=
    Lines.splitLine_iff.mpr ⟨rfl,clear,short⟩
  have some : ¬ (line ++ newline :: rest).isEmpty = true := by simp
  unfold nextLine
  rw [if_neg some,read]

theorem nextLine_ok {cap : Nat} {line : Bytes} (ok : nextLine cap input = .ok (some (line,rest))) :
    input = line ++ newline :: rest ∧ newline ∉ line ∧ line.length < cap := by
  unfold nextLine at ok
  split at ok
  next => cases ok
  next =>
    split at ok
    next read same => cases ok; exact Lines.splitLine_iff.mp same
    next => cases ok

/-- A row is read back from its line. -/
theorem decodeRow_append (read : codec.readRow (codec.row row) = .ok row)
    (clear : newline ∉ codec.row row) (short : (codec.row row).length + 1 ≤ lineCap)
    (checked : row.check = .ok ()) (holder : row.heldOn.isSome = true → finished = true)
    (after : ∀ key, last = some key → key < row.key) :
    decodeRow codec finished last (codec.row row ++ newline :: rest) = .ok (row,rest) := by
  have version : (!finished && row.heldOn.isSome) = false := by
    cases finished <;> simp_all
  have ascends : (last.any fun last => decide (row.key ≤ last)) = false := by
    cases last with
    | none => rfl
    | some key => simpa using after key rfl
  simp only [decodeRow,nextLine_append clear short,read,checked,version,ascends,bind,Except.bind,
    Except.mapError]
  rfl

theorem decodeRow_ok (ok : decodeRow codec finished last input = .ok (row,rest)) :
    ∃ line, input = line ++ newline :: rest ∧ codec.readRow line = .ok row ∧ row.check = .ok () ∧
      (row.heldOn.isSome = true → finished = true) ∧ ∀ key, last = some key → key < row.key := by
  obtain ⟨read,next,ok⟩ := bind_ok ok
  cases read with
  | none => cases ok
  | some read =>
    obtain ⟨line,after⟩ := read
    obtain ⟨decoded,parsed,ok⟩ := bind_ok ok
    obtain ⟨_,checked,ok⟩ := bind_ok ok
    split at ok
    next => cases ok
    next version =>
      split at ok
      next => cases ok
      next ascends =>
        cases ok
        refine ⟨line,(nextLine_ok next).1,mapError_ok parsed,mapError_ok checked,?_,?_⟩
        · intro held
          simpa [held] using version
        · rintro key rfl
          simpa using ascends

/-- The rows written one after another are read back, up to what follows them. -/
theorem decodeRows_append (read : ∀ row ∈ rows, codec.readRow (codec.row row) = .ok row)
    (clear : ∀ row ∈ rows, newline ∉ codec.row row)
    (short : ∀ row ∈ rows, (codec.row row).length + 1 ≤ lineCap)
    (checked : ∀ row ∈ rows, row.check = .ok ())
    (holders : ∀ row ∈ rows, row.heldOn.isSome = true → finished = true)
    (ascending : rows.Pairwise fun a b => a.key < b.key)
    (after : ∀ key, last = some key → ∀ row ∈ rows, key < row.key) :
    decodeRows codec finished rows.length last
      ((rows.flatMap fun row => codec.row row ++ [newline]) ++ tail) = .ok (rows,tail) := by
  induction rows generalizing last with
  | nil => rfl
  | cons row rows ih =>
    have here : row ∈ row :: rows := List.mem_cons_self
    have there : ∀ other ∈ rows, other ∈ row :: rows := fun _ member => List.mem_cons_of_mem _ member
    obtain ⟨above,sorted⟩ := List.pairwise_cons.mp ascending
    have first := @decodeRow_append _ _ _ _ ((rows.flatMap fun row => codec.row row ++ [newline]) ++ tail)
      (read row here) (clear row here) (short row here) (checked row here) (holders row here)
      (fun key same => after key same row here)
    have later := @ih (some row.key) (fun r m => read r (there r m)) (fun r m => clear r (there r m))
      (fun r m => short r (there r m)) (fun r m => checked r (there r m))
      (fun r m => holders r (there r m)) sorted
      (fun key same other member => Option.some.inj same ▸ above other member)
    have shape : ((row :: rows).flatMap fun row => codec.row row ++ [newline]) ++ tail =
        codec.row row ++ newline :: ((rows.flatMap fun row => codec.row row ++ [newline]) ++ tail) := by
      simp [List.flatMap_cons]
    rw [shape]
    simp only [List.length_cons,decodeRows,first,later,bind,Except.bind]
    rfl

theorem decodeRows_ok {count : Nat} (ok : decodeRows codec finished count last input = .ok (rows,tail)) :
    ∃ lines : List Bytes, input = lines.flatMap (· ++ [newline]) ++ tail ∧ rows.length = count ∧
      List.Forall₂ (fun line row => codec.readRow line = .ok row) lines rows ∧
      (∀ row ∈ rows, row.check = .ok () ∧ (row.heldOn.isSome = true → finished = true) ∧
        ∀ key, last = some key → key < row.key) ∧ rows.Pairwise fun a b => a.key < b.key := by
  induction count generalizing last input rows with
  | zero => cases ok; exact ⟨[],rfl,rfl,.nil,nofun,.nil⟩
  | succ count ih =>
    obtain ⟨⟨row,rest⟩,first,ok⟩ := bind_ok ok
    obtain ⟨⟨others,after⟩,later,ok⟩ := bind_ok ok
    cases ok
    obtain ⟨line,shape,read,checked,version,above⟩ := decodeRow_ok first
    obtain ⟨lines,remaining,length,spelled,each,sorted⟩ := ih later
    refine ⟨line :: lines,?_,by rw [List.length_cons,length],.cons read spelled,?_,?_⟩
    · rw [shape,remaining]
      simp [List.flatMap_cons]
    · intro other member
      rcases List.mem_cons.mp member with rfl | inside
      · exact ⟨checked,version,above⟩
      · obtain ⟨passed,versioned,ascends⟩ := each other inside
        exact ⟨passed,versioned,fun key same => (above key same).trans (ascends row.key rfl)⟩
    · exact List.pairwise_cons.mpr ⟨fun other inside => (each other inside).2.2 row.key rfl,sorted⟩

theorem streamLine_short {value : Bytes} (short : value.length + 1 ≤ lineCap) :
    streamLine value = .ok (value ++ [newline]) := if_neg (Nat.not_lt.mpr short)

theorem mapM_streamLine (short : ∀ row ∈ rows, (codec.row row).length + 1 ≤ lineCap) :
    rows.mapM (fun row => streamLine (codec.row row)) = .ok (rows.map fun row => codec.row row ++ [newline]) := by
  induction rows with
  | nil => rfl
  | cons row rows ih =>
    rw [List.mapM_cons,streamLine_short (short row List.mem_cons_self),
      ih fun other member => short other (List.mem_cons_of_mem _ member)]
    rfl

/-- Within its caps the stream is written. -/
theorem encode_ok {version : Bytes} (caps : WithinCaps codec version agentId rows) :
    encode codec version agentId rows = .ok (version ++ [newline] ++
      (codec.header ⟨agentId,rows.length⟩ ++ [newline]) ++
      rows.flatMap fun row => codec.row row ++ [newline]) := by
  have total := caps.total
  rw [List.flatMap_def] at total ⊢
  unfold encode
  rw [if_neg (Nat.not_lt.mpr caps.count)]
  simp only [streamLine_short caps.header,mapM_streamLine caps.lines,bind,Except.bind]
  rw [if_neg (Nat.not_lt.mpr total)]
  rfl

theorem magic_clear : newline ∉ magic ∧ newline ∉ finishedMagic ∧ magic ≠ finishedMagic ∧
    magic.length + 1 ≤ magicCap ∧ finishedMagic.length + 1 ≤ magicCap := by decide

theorem streamMagic_line (rows : List CarriedBinding) : newline ∉ streamMagic rows ∧
    (streamMagic rows).length + 1 ≤ magicCap ∧
    versionOf (streamMagic rows) = .ok (rows.any fun row => row.heldOn.isSome) := by
  obtain ⟨plain,finished,_,short,long⟩ := magic_clear
  have known : versionOf finishedMagic = .ok true ∧ versionOf magic = .ok false := by decide
  unfold streamMagic
  split
  next held => rw [held]; exact ⟨finished,long,known.1⟩
  next clear => rw [Bool.eq_false_of_not_eq_true clear]; exact ⟨plain,short,known.2⟩

theorem versionOf_ok {first : Bytes} (ok : versionOf first = .ok finished) :
    first = magic ∧ finished = false ∨ first = finishedMagic := by
  have apart := magic_clear.2.2.1
  unfold versionOf at ok
  simp only at ok
  split at ok
  next => split at ok <;> cases ok
  next known =>
    cases ok
    simp only [Bool.and_eq_true,bne_iff_ne,Bool.not_eq_true',beq_eq_false_iff_ne,not_and_or,not_not]
      at known
    rcases known with plain | later
    · exact .inl ⟨plain,by rw [plain]; exact beq_eq_false_iff_ne.mpr apart⟩
    · exact .inr later

/-- Decoding undoes encoding. -/
theorem decode_encode (faithful : codec.Faithful agentId rows) (fits : ∀ row ∈ rows, row.timesFit = true)
    (caps : WithinCaps codec (streamMagic rows) agentId rows) (checked : ∀ row ∈ rows, row.check = .ok ())
    (ascending : rows.Pairwise fun a b => a.key < b.key) :
    ∃ bytes, encode codec (streamMagic rows) agentId rows = .ok bytes ∧
      decode codec agentId bytes = .ok rows := by
  obtain ⟨clear,short,version⟩ := streamMagic_line rows
  refine ⟨_,encode_ok caps,?_⟩
  have body := @decodeRows_append _ (rows.any fun row => row.heldOn.isSome) none
    _ [] (fun row member => faithful.rowRead row member (fits row member)) faithful.rowLine
    caps.lines checked (fun row member held => List.any_eq_true.mpr ⟨row,member,held⟩) ascending nofun
  rw [List.append_nil] at body
  have first := @nextLine_append (codec.header ⟨agentId,rows.length⟩ ++ newline ::
    rows.flatMap fun row => codec.row row ++ [newline]) _ _ clear short
  have second := @nextLine_append (rows.flatMap fun row => codec.row row ++ [newline]) _ _
    faithful.headerLine caps.header
  have header : decodeHeader codec (rows.any fun row => row.heldOn.isSome) agentId
      (codec.header ⟨agentId,rows.length⟩ ++ newline ::
        rows.flatMap fun row => codec.row row ++ [newline]) = .ok rows := by
    simp only [decodeHeader,second,faithful.headerRead,Except.mapError,decodeBody,ne_eq,not_true,if_false,
      Nat.not_lt.mpr caps.count,body,bind,Except.bind]
    rfl
  have shape : streamMagic rows ++ [newline] ++ (codec.header ⟨agentId,rows.length⟩ ++ [newline]) ++
      (rows.flatMap fun row => codec.row row ++ [newline]) = streamMagic rows ++ newline ::
        (codec.header ⟨agentId,rows.length⟩ ++ newline ::
          rows.flatMap fun row => codec.row row ++ [newline]) := by
    simp only [List.append_assoc,List.cons_append,List.nil_append]
  rw [shape]
  simp only [decode,first,Option.getD_some,version,header,bind,Except.bind]

/-- What is accepted is a stream of the rows it returns. -/
theorem decode_spelled (ok : decode codec agentId input = .ok rows) : Spelled codec agentId rows input := by
  obtain ⟨read,first,ok⟩ := bind_ok ok
  obtain ⟨finished,known,ok⟩ := bind_ok ok
  obtain ⟨second,next,ok⟩ := bind_ok ok
  cases second with
  | none => cases ok
  | some second =>
    obtain ⟨header,body⟩ := second
    obtain ⟨⟨owner,count⟩,parsed,ok⟩ := bind_ok ok
    unfold decodeBody at ok
    split at ok
    next => cases ok
    next ours =>
      split at ok
      next => cases ok
      next capped =>
        obtain ⟨⟨found,tail⟩,decoded,ok⟩ := bind_ok ok
        simp only at ok
        split at ok
        next ended =>
          cases ok
          obtain ⟨lines,shape,length,spelled,each,sorted⟩ := decodeRows_ok decoded
          have emptied : tail = [] := List.isEmpty_iff.mp ended
          obtain rfl : owner = agentId := not_not.mp ours
          have read : ∃ version after, read = some (version,after) := by
            cases read with
            | some read => exact ⟨read.1,read.2,rfl⟩
            | none =>
              have short : magic ≠ [] ∧ finishedMagic ≠ [] := by decide
              rcases versionOf_ok known with ⟨same,_⟩ | same
              · exact absurd same.symm short.1
              · exact absurd same.symm short.2
          obtain ⟨version,after,rfl⟩ := read
          refine ⟨⟨version,header,lines,?_,?_,?_,spelled⟩,fun row member => (each row member).1,
            sorted,length ▸ Nat.not_lt.mp capped⟩
          · refine (versionOf_ok known).imp (fun ⟨same,plain⟩ => ⟨same,fun row member => ?_⟩) id
            by_contra held
            have late := (each row member).2.1 (Option.isSome_iff_ne_none.mpr held)
            rw [plain] at late
            cases late
          · have rest : after = header ++ newline :: body := (nextLine_ok next).1
            rw [(nextLine_ok first).1,rest,shape,emptied]
            simp only [List.append_assoc,List.cons_append,List.nil_append,List.append_nil]
          · rw [mapError_ok parsed,length]
        next => cases ok

/-- The first version is written exactly when no row names a holder. -/
theorem streamMagic_iff : streamMagic rows = magic ↔ ∀ row ∈ rows, row.heldOn = none := by
  have apart := magic_clear.2.2.1
  unfold streamMagic
  split
  next held =>
    obtain ⟨row,member,some⟩ := List.any_eq_true.mp held
    constructor
    · intro same
      exact absurd same.symm apart
    · intro clear
      rw [clear row member] at some
      cases some
  next clear =>
    refine ⟨fun _ row member => ?_,fun _ => rfl⟩
    by_contra held
    exact clear (List.any_eq_true.mpr ⟨row,member,Option.isSome_iff_ne_none.mpr held⟩)

end Framing
end Entorhinal.Session
