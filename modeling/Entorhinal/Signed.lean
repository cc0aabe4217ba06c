import Entorhinal.Jcs
import Entorhinal.Names

/-! What every signed document is checked for: its fields, its domain and its numbers. -/
namespace Entorhinal.Package

open Json (Floats)

/-- The digits and signs of a time in UTC seconds. -/
def time (text : String) : Bool :=
  text.toList.length == 20 && text.toList.zipIdx.all fun (c,i) =>
    if i = 4 ∨ i = 7 then c == '-'
    else if i = 10 then c == 'T'
    else if i = 13 ∨ i = 16 then c == ':'
    else if i = 19 then c == 'Z'
    else c.isDigit

variable {F : Type} [Floats F]

def positive : Json F → Option Nat
  | .number n => (n.safe.filter fun k => decide (1 ≤ k)).map Int.toNat
  | _ => none

/-- A signed document of the domain with all of the fields, the optional ones and no others. -/
def shape (text domain : String) (fields optional : List String) (code : RefusalCode) :
    Except Refusal (Json F) :=
  match Json.parseSigned text with
  | some (.object members,sourceKeys) =>
    match sourceKeys.find? fun k => !(fields.contains k || optional.contains k) with
    | some k => .error (.at code k)
    | none => match fields.find? fun k => (Table.lookup members k).isNone with
      | some k => .error (.at code k)
      | none =>
        if ((Json.object members).field "schema").asStr ≠ some domain then .error (.at code "schema")
        else match members.find? fun f => !f.2.signedNumbers with
          | some f => .error (.at code f.1)
          | none => .ok (.object members)
  | _ => .error (.at code "json")

end Entorhinal.Package
