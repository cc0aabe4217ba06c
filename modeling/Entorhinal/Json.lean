import Entorhinal.JsonNumber
import Mathlib.Data.String.Basic

/-! JSON trees, the compact text of a tree, and the reader of such texts: duplicate
keys are kept in the order of the source, and containers nest to a limit. -/
namespace Entorhinal

inductive Json (F : Type)
  | null
  | bool (value : Bool)
  | number (number : Json.Number F)
  | string (text : String)
  | array (items : List (Json F))
  | object (fields : List (String × Json F))
deriving Repr

namespace Json

variable {F : Type}

section Equality
variable [DecidableEq F]

mutual
def same : Json F → Json F → Bool
  | .null,.null => true
  | .bool a,.bool b => a == b
  | .number a,.number b => decide (a = b)
  | .string a,.string b => a == b
  | .array a,.array b => sameItems a b
  | .object a,.object b => sameFields a b
  | _,_ => false

def sameItems : List (Json F) → List (Json F) → Bool
  | [],[] => true
  | a :: as,b :: bs => same a b && sameItems as bs
  | _,_ => false

def sameFields : List (String × Json F) → List (String × Json F) → Bool
  | [],[] => true
  | (k,a) :: as,(l,b) :: bs => k == l && same a b && sameFields as bs
  | _,_ => false
end

mutual
theorem same_iff : ∀ a b : Json F, same a b = true ↔ a = b
  | .null,b => by cases b <;> simp [same]
  | .bool x,b => by cases b <;> simp [same]
  | .number x,b => by cases b <;> simp [same]
  | .string x,b => by cases b <;> simp [same]
  | .array x,b => by
    cases b with
    | array y => simpa [same] using sameItems_iff x y
    | _ => simp [same]
  | .object x,b => by
    cases b with
    | object y => simpa [same] using sameFields_iff x y
    | _ => simp [same]

theorem sameItems_iff : ∀ a b : List (Json F), sameItems a b = true ↔ a = b
  | [],b => by cases b <;> simp [sameItems]
  | x :: xs,b => by
    cases b with
    | nil => simp [sameItems]
    | cons y ys => simp [sameItems,same_iff x y,sameItems_iff xs ys]

theorem sameFields_iff : ∀ a b : List (String × Json F), sameFields a b = true ↔ a = b
  | [],b => by cases b <;> simp [sameFields]
  | (k,x) :: xs,b => by
    cases b with
    | nil => simp [sameFields]
    | cons y ys =>
      obtain ⟨l,y⟩ := y
      simp [sameFields,same_iff x y,sameFields_iff xs ys]
end

instance : DecidableEq (Json F) := fun a b => decidable_of_iff _ (same_iff a b)

end Equality

mutual
/-- How many containers stand inside one another. -/
def nesting : Json F → Nat
  | .array items => nestingItems items + 1
  | .object fields => nestingFields fields + 1
  | _ => 0

def nestingItems : List (Json F) → Nat
  | [] => 0
  | item :: rest => max item.nesting (nestingItems rest)

def nestingFields : List (String × Json F) → Nat
  | [] => 0
  | (_,value) :: rest => max value.nesting (nestingFields rest)
end

def hex (n : Nat) : Char := Nat.digitChar n

/-- Control characters, the quote and the backslash are escaped, nothing else. -/
def escape (c : Char) : List Char :=
  if c = '\x22' then ['\\','\x22']
  else if c = '\\' then ['\\','\\']
  else if c.toNat = 8 then ['\\','b']
  else if c.toNat = 9 then ['\\','t']
  else if c.toNat = 10 then ['\\','n']
  else if c.toNat = 12 then ['\\','f']
  else if c.toNat = 13 then ['\\','r']
  else if c.toNat < 32 then ['\\','u','0','0',hex (c.toNat / 16),hex (c.toNat % 16)]
  else [c]

def quoteChars (text : List Char) : List Char := '\x22' :: (text.flatMap escape ++ ['\x22'])

def quote (text : String) : List Char := quoteChars text.toList

section Writer
variable [Doubles F]

mutual
def emit : Json F → List Char
  | .null => ['n','u','l','l']
  | .bool true => ['t','r','u','e']
  | .bool false => ['f','a','l','s','e']
  | .number n => n.literal.text
  | .string text => quote text
  | .array [] => ['[',']']
  | .array (item :: rest) => '[' :: (item.emit ++ emitItems rest)
  | .object [] => ['\x7b','\x7d']
  | .object ((key,value) :: rest) => '\x7b' :: (quote key ++ ':' :: (value.emit ++ emitFields rest))

/-- The items after the first, and the end of the array. -/
def emitItems : List (Json F) → List Char
  | [] => [']']
  | item :: rest => ',' :: (item.emit ++ emitItems rest)

def emitFields : List (String × Json F) → List Char
  | [] => ['\x7d']
  | (key,value) :: rest => ',' :: (quote key ++ ':' :: (value.emit ++ emitFields rest))
end

end Writer

def isBlank (c : Char) : Bool := c == ' ' || c == '\n' || c == '\t' || c == '\r'

def skip (text : List Char) : List Char := text.dropWhile isBlank

def hexValue (c : Char) : Option Nat :=
  if 48 ≤ c.toNat ∧ c.toNat ≤ 57 then some (c.toNat - 48)
  else if 97 ≤ c.toNat ∧ c.toNat ≤ 102 then some (c.toNat - 87)
  else if 65 ≤ c.toNat ∧ c.toNat ≤ 70 then some (c.toNat - 55)
  else none

def hex4 : List Char → Option (Nat × List Char)
  | a :: b :: c :: d :: rest =>
    match hexValue a,hexValue b,hexValue c,hexValue d with
    | some a,some b,some c,some d => some (((a * 16 + b) * 16 + c) * 16 + d,rest)
    | _,_,_,_ => none
  | _ => none

/-- The character of a `\u` escape; a pair of surrogates is one. -/
def readUnicode (text : List Char) : Option (Char × List Char) :=
  match hex4 text with
  | none => none
  | some (n,rest) =>
    if 56320 ≤ n ∧ n ≤ 57343 then none
    else if 55296 ≤ n ∧ n ≤ 56319 then match rest with
      | '\\' :: 'u' :: rest => match hex4 rest with
        | none => none
        | some (low,rest) =>
          if 56320 ≤ low ∧ low ≤ 57343 then
            some (Char.ofNat (65536 + (n - 55296) * 1024 + (low - 56320)),rest)
          else none
      | _ => none
    else some (Char.ofNat n,rest)

def readEscape : List Char → Option (Char × List Char)
  | [] => none
  | c :: rest =>
    if c = '\x22' ∨ c = '\\' ∨ c = '/' then some (c,rest)
    else if c = 'b' then some (Char.ofNat 8,rest)
    else if c = 'f' then some (Char.ofNat 12,rest)
    else if c = 'n' then some (Char.ofNat 10,rest)
    else if c = 'r' then some (Char.ofNat 13,rest)
    else if c = 't' then some (Char.ofNat 9,rest)
    else if c = 'u' then readUnicode rest
    else none

/-- The rest of a string whose first quote is gone. The fuel bounds the characters. -/
def readString : Nat → List Char → Option (List Char × List Char)
  | fuel + 1,c :: rest =>
    if c = '\x22' then some ([],rest)
    else if c = '\\' then match readEscape rest with
      | none => none
      | some (d,rest) => (readString fuel rest).map fun read => (d :: read.1,read.2)
    else if c.toNat < 32 then none
    else (readString fuel rest).map fun read => (c :: read.1,read.2)
  | _,_ => none

def readWord (word : List Char) (value : Json F) (text : List Char) : Option (Json F × List Char) :=
  if text.take word.length = word then some (value,text.drop word.length) else none

/-- A key and the colon after it. -/
def readKey (text : List Char) : Option (String × List Char) :=
  match skip text with
  | '\x22' :: rest => match readString rest.length rest with
    | none => none
    | some (key,rest) => match skip rest with
      | ':' :: rest => some (String.ofList key,rest)
      | _ => none
  | _ => none

section Reader
variable [Doubles F]

def readNumber (text : List Char) : Option (Json F × List Char) :=
  match scan text with
  | none => none
  | some (literal,rest) => (Number.ofLiteral literal).map fun n => (.number n,rest)

mutual
/-- A value at the head of a text. Each container takes one from the depth and fails at
the last; the fuel bounds the characters. -/
def readValue : Nat → Nat → List Char → Option (Json F × List Char)
  | 0,_,_ => none
  | fuel + 1,depth,text =>
    match skip text with
    | [] => none
    | c :: rest =>
      if c = 'n' then readWord ['u','l','l'] .null rest
      else if c = 't' then readWord ['r','u','e'] (.bool true) rest
      else if c = 'f' then readWord ['a','l','s','e'] (.bool false) rest
      else if c = '\x22' then
        (readString rest.length rest).map fun read => (.string (String.ofList read.1),read.2)
      else if c = '[' then
        if depth ≤ 1 then none
        else if (skip rest).head? = some ']' then some (.array [],(skip rest).tail)
        else match readValue fuel (depth - 1) rest with
          | none => none
          | some (item,rest) => (readItems fuel (depth - 1) rest).map fun read =>
            (.array (item :: read.1),read.2)
      else if c = '\x7b' then
        if depth ≤ 1 then none
        else if (skip rest).head? = some '\x7d' then some (.object [],(skip rest).tail)
        else match readKey rest with
          | none => none
          | some (key,rest) => match readValue fuel (depth - 1) rest with
            | none => none
            | some (value,rest) => (readFields fuel (depth - 1) rest).map fun read =>
              (.object ((key,value) :: read.1),read.2)
      else readNumber (c :: rest)

def readItems : Nat → Nat → List Char → Option (List (Json F) × List Char)
  | 0,_,_ => none
  | fuel + 1,depth,text =>
    match skip text with
    | [] => none
    | c :: rest =>
      if c = ']' then some ([],rest)
      else if c = ',' then match readValue fuel depth rest with
        | none => none
        | some (item,rest) => (readItems fuel depth rest).map fun read => (item :: read.1,read.2)
      else none

def readFields : Nat → Nat → List Char → Option (List (String × Json F) × List Char)
  | 0,_,_ => none
  | fuel + 1,depth,text =>
    match skip text with
    | [] => none
    | c :: rest =>
      if c = '\x7d' then some ([],rest)
      else if c = ',' then match readKey rest with
        | none => none
        | some (key,rest) => match readValue fuel depth rest with
          | none => none
          | some (value,rest) => (readFields fuel depth rest).map fun read => ((key,value) :: read.1,read.2)
      else none
end

/-- Containers nest to one less than this. -/
def depthLimit : Nat := 128

/-- A text that is one value, with blanks around it. -/
def parse (text : List Char) : Option (Json F) :=
  match readValue (text.length + 1) depthLimit text with
  | none => none
  | some (value,rest) => if (skip rest).isEmpty then some value else none

end Reader

end Json
end Entorhinal
