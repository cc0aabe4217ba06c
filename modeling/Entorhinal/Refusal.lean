import Entorhinal.Traverse

/-! Refusals of the store's operations: a code, a text and the fields of the
detail object, if there is one. -/
namespace Entorhinal

inductive Detail
  | text (value : Option String)
  | number (value : Int)
deriving DecidableEq, Repr

structure AgentMutationError where
  code : String
  message : String
  detail : List (String × Detail)
deriving DecidableEq, Repr

/-- The largest `i64`. Record versions are `u64` on the wire and `i64` in the store. -/
def i64Max : Int := 9223372036854775807

def i64Min : Int := -9223372036854775808

end Entorhinal
