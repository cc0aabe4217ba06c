import Entorhinal.Register
import Entorhinal.Traverse

/-! The record client's settlement of a compare-and-swap whose answer may be
lost, and the role bodies it carries. A body stands for the bytes of its JSON
text, so decoding checks the fields and not the encoding. -/
namespace Entorhinal.RecordClient

inductive RecordError
  | refused (code : String)
  | noReply
  | protocol
deriving DecidableEq, Repr

def RecordError.code : RecordError → String
  | .refused code => code
  | .noReply => "unavailable"
  | .protocol => "record_protocol"

structure RecordReply (β : Type) where
  absent : Bool
  version : Nat
  body : Option β
  author : Option String
  selfAuthor : String
  stale : Bool
deriving DecidableEq, Repr

/-- The reply that shows one write, or the absence of any. -/
def RecordReply.shows {ι β : Type} (write : Option (Written ι String β)) (selfAuthor : String)
    (stale : Bool) : RecordReply β where
  absent := write.isNone
  version := (write.map (·.version)).getD 0
  body := write.map (·.body)
  author := write.map (·.author)
  selfAuthor := selfAuthor
  stale := stale

inductive CasSettlement (β : Type)
  | landed (version : Nat)
  | moved (reply : RecordReply β)
deriving DecidableEq, Repr

/-- An answer that leaves it open whether the write landed. -/
def unsettled : Except RecordError Nat → Bool
  | .ok _ => false
  | .error e => e.code == "version_moved" || e == .noReply

/-- The body read decodes to the value the attempt would have written. -/
def matchesBody {β γ : Type} [DecidableEq γ] (decode : β → Except String γ) (expected : γ)
    (body : Option β) : Bool :=
  match body with
  | none => false
  | some found => match decode found with
    | .ok value => value == expected
    | .error _ => false

theorem matchesBody_true {β γ : Type} [DecidableEq γ] {decode : β → Except String γ} {expected : γ}
    {body : Option β} (same : matchesBody decode expected body = true) :
    ∃ found, body = some found ∧ decode found = .ok expected := by
  cases body with
  | none => cases same
  | some found =>
    cases value : decode found with
    | error code => simp [matchesBody,value] at same
    | ok v => exact ⟨found,rfl,by simpa [matchesBody,value] using same⟩

/-- `cas_settled` after the attempt was sent: `answer` is what the attempt got,
`read` what a read of the subject gets where one is made. -/
def casSettled {β γ : Type} [DecidableEq γ] (answer : Except RecordError Nat)
    (read : Except RecordError (RecordReply β)) (author : String) (body : β)
    (decode : β → Except String γ) : Except RecordError (CasSettlement β) :=
  match answer with
  | .ok version => .ok (.landed version)
  | .error e =>
    if e.code == "version_moved" || e == .noReply then
      match read with
      | .error e => .error e
      | .ok reply =>
        if reply.stale then .error (.refused "unavailable")
        else match decode body with
          | .error code => .error (.refused code)
          | .ok expected =>
            if !reply.absent && reply.author == some author && matchesBody decode expected reply.body
            then .ok (.landed reply.version) else .ok (.moved reply)
    else .error e

/-- What was settled as landed was answered so, or stands in the record that a
fresh read showed, under this author and with an equal body. -/
theorem casSettled_landed {β γ : Type} [DecidableEq γ] {answer : Except RecordError Nat}
    {read : Except RecordError (RecordReply β)} {author : String} {body : β}
    {decode : β → Except String γ} {version : Nat}
    (settled : casSettled answer read author body decode = .ok (.landed version)) :
    answer = .ok version ∨ ∃ reply found value, read = .ok reply ∧ reply.stale = false ∧
      reply.absent = false ∧ reply.version = version ∧ reply.author = some author ∧
      reply.body = some found ∧ decode found = .ok value ∧ decode body = .ok value := by
  cases answer with
  | ok v => cases settled; exact .inl rfl
  | error e =>
    right
    simp only [casSettled] at settled
    split at settled
    next =>
      cases read with
      | error e => cases settled
      | ok reply =>
        simp only at settled
        split at settled
        next => cases settled
        next fresh =>
          cases decoded : decode body with
          | error code => simp [decoded] at settled
          | ok expected =>
            simp only [decoded] at settled
            split at settled
            next matching =>
              cases settled
              simp only [Bool.and_eq_true,Bool.not_eq_true',beq_iff_eq] at matching
              obtain ⟨⟨present,author⟩,same⟩ := matching
              obtain ⟨found,shown,value⟩ := matchesBody_true same
              exact ⟨reply,found,expected,rfl,by simpa using fresh,present,rfl,author,shown,value,rfl⟩
            next => cases settled
    next => cases settled

end Entorhinal.RecordClient
