import Entorhinal.Json

/-! The grammar of JSON texts. A derivation keeps the number literals that stand in the text, in
their order; a string contributes none, whatever its characters are. -/
namespace Entorhinal.Json

/-- The parts of an exponent as they are written, after either letter. -/
def exponentSpelled (mark : Char) : Option (Sign × List Char) → List Char
  | none => []
  | some (sign,digits) => mark :: (sign.text ++ digits)

def Literal.spelled (literal : Literal) (mark : Char) : List Char :=
  (if literal.negative then ['-'] else []) ++
    (literal.digits ++ (fractionText literal.fraction ++ exponentSpelled mark literal.exponent))

namespace Grammar

def Blanks (text : List Char) : Prop := ∀ c ∈ text, isBlank c = true

/-- What stands between the quotes of a string. -/
inductive Body : List Char → Prop
  | done : Body []
  | plain {c : Char} {rest : List Char} (unquoted : c ≠ '\x22') (unescaped : c ≠ '\\') (printed : 32 ≤ c.toNat) :
    Body rest → Body (c :: rest)
  | escape {c : Char} {rest : List Char} (short : c ∈ ['\x22','\\','/','b','f','n','r','t']) :
    Body rest → Body ('\\' :: c :: rest)
  | unicode {digits rest : List Char} (four : digits.length = 4) (hex : ∀ d ∈ digits, (hexValue d).isSome = true) :
    Body rest → Body ('\\' :: 'u' :: (digits ++ rest))

def quoted (body : List Char) : List Char := '\x22' :: (body ++ ['\x22'])

inductive Symbol
  | value
  | element
  | elements
  | member
  | members
deriving DecidableEq, Repr

/-- `Derives symbol text literals`: the text is one of the symbol, with these literals. -/
inductive Derives : Symbol → List Char → List Literal → Prop
  | word {text : List Char} (known : text ∈ [['n','u','l','l'],['t','r','u','e'],['f','a','l','s','e']]) :
    Derives .value text []
  | string {body : List Char} (inside : Body body) : Derives .value (quoted body) []
  | number {literal : Literal} {mark : Char} (valid : literal.Valid) (letter : mark = 'e' ∨ mark = 'E') :
    Derives .value (literal.spelled mark) [literal]
  | emptyArray {blanks : List Char} (blank : Blanks blanks) : Derives .value ('[' :: (blanks ++ [']'])) []
  | array {text : List Char} {literals : List Literal} :
    Derives .elements text literals → Derives .value ('[' :: (text ++ [']'])) literals
  | emptyObject {blanks : List Char} (blank : Blanks blanks) : Derives .value ('\x7b' :: (blanks ++ ['\x7d'])) []
  | object {text : List Char} {literals : List Literal} :
    Derives .members text literals → Derives .value ('\x7b' :: (text ++ ['\x7d'])) literals
  | element {before text after : List Char} {literals : List Literal} (first : Blanks before) (last : Blanks after) :
    Derives .value text literals → Derives .element (before ++ (text ++ after)) literals
  | oneElement {text : List Char} {literals : List Literal} :
    Derives .element text literals → Derives .elements text literals
  | moreElements {text rest : List Char} {literals others : List Literal} :
    Derives .element text literals → Derives .elements rest others →
      Derives .elements (text ++ ',' :: rest) (literals ++ others)
  | member {before body after text : List Char} {literals : List Literal} (first : Blanks before) (inside : Body body)
    (last : Blanks after) : Derives .element text literals →
      Derives .member (before ++ (quoted body ++ (after ++ ':' :: text))) literals
  | oneMember {text : List Char} {literals : List Literal} :
    Derives .member text literals → Derives .members text literals
  | moreMembers {text rest : List Char} {literals others : List Literal} :
    Derives .member text literals → Derives .members rest others →
      Derives .members (text ++ ',' :: rest) (literals ++ others)

/-- A document with its number literals. -/
def WellFormed (text : String) (literals : List Literal) : Prop := Derives .element text.toList literals

end Grammar

theorem Literal.spelled_lower (literal : Literal) : literal.spelled 'e' = literal.text := by
  obtain ⟨negative,digits,fraction,exponent⟩ := literal
  cases exponent <;> rfl

end Entorhinal.Json
