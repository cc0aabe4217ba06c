import Entorhinal.JsonValue
import Mathlib.Data.List.Sort
import Mathlib.Data.List.DropRight
import Mathlib.Order.Lattice

/-! Canonical JSON: keys in the order of their UTF-16 units, numbers as ECMAScript writes
them, and the strict reading of signed documents, whose numbers are integers. -/
namespace Entorhinal.Json

/-- The integers that a double holds exactly, with their neighbours. -/
def maxSafe : Nat := 9007199254740991

def trimZeros (digits : List Char) : List Char := digits.rdropWhile (· == '0')

/-- What a program asks of its doubles: the one nearest to an integer, the integer that one
is, its sign, and the shortest decimal that is read back as its amount, as digits and
exponent. Small integers are exact, and their shortest decimal is their digits. -/
class Floats (F : Type) extends Doubles F where
  ofInt : Int → F
  whole : F → Option Int
  negative : F → Bool
  shortest : F → List Char × Int
  whole_ofInt : ∀ k : Int, k.natAbs ≤ maxSafe → whole (ofInt k) = some k
  whole_large : ∀ k j : Int, maxSafe < k.natAbs → whole (ofInt k) = some j → maxSafe < j.natAbs
  negative_whole : ∀ (x : F) (k : Int), whole x = some k → k ≠ 0 → negative x = decide (k < 0)
  shortest_whole : ∀ (x : F) (k : Int), whole x = some k → k ≠ 0 → k.natAbs ≤ maxSafe →
    shortest x = (trimZeros (Nat.toDigits 10 k.natAbs),((Nat.toDigits 10 k.natAbs).length : Int) - 1)

section
variable {F : Type} [Floats F]

def Number.asF64 : Number F → F
  | .posInt n => Floats.ofInt n.val
  | .negInt n => Floats.ofInt (-(n.val + 1 : Int))
  | .float x => x

/-- The value as an integer, where it is one of the exact ones. -/
def Number.safe (n : Number F) : Option Int :=
  (Floats.whole n.asF64).filter fun k => decide (k.natAbs ≤ maxSafe)

def intText (k : Int) : List Char := (if k < 0 then ['-'] else []) ++ Nat.toDigits 10 k.natAbs

/-- The digits with their point, or with an exponent where there are too many zeros. -/
def arrange (digits : List Char) (exponent : Int) : List Char :=
  let k : Int := digits.length
  let n := exponent + 1
  if k ≤ n ∧ n ≤ 21 then digits ++ List.replicate (n - k).toNat '0'
  else if 0 < n ∧ n ≤ 21 then digits.take n.toNat ++ '.' :: digits.drop n.toNat
  else if -6 < n ∧ n ≤ 0 then '0' :: '.' :: (List.replicate (-n).toNat '0' ++ digits)
  else
    (if digits.length = 1 then digits else digits.take 1 ++ '.' :: digits.drop 1) ++
      'e' :: ((if 0 ≤ exponent then ['+'] else []) ++ intText exponent)

def numberText (x : F) : List Char :=
  if Floats.whole x = some 0 then ['0']
  else
    let (digits,exponent) := Floats.shortest x
    (if Floats.negative x then ['-'] else []) ++ arrange (trimZeros digits) exponent

end

def utf16 (c : Char) : List Nat :=
  if c.toNat < 65536 then [c.toNat] else [55296 + (c.toNat - 65536) / 1024,56320 + (c.toNat - 65536) % 1024]

def units (key : String) : List Nat := key.toList.flatMap utf16

def sortKeys {α : Type} (fields : List (String × α)) : List (String × α) :=
  fields.insertionSort fun a b => units a.1 ≤ units b.1

/-- Parts with commas between them. -/
def join : List (List Char) → List Char
  | [] => []
  | part :: rest => part ++ rest.flatMap (',' :: ·)

section
variable {F : Type} [Floats F]

mutual
def jcs : Json F → List Char
  | .null => ['n','u','l','l']
  | .bool true => ['t','r','u','e']
  | .bool false => ['f','a','l','s','e']
  | .number n => numberText n.asF64
  | .string text => quote text
  | .array items => '[' :: (join (jcsItems items) ++ [']'])
  | .object fields => '\x7b' :: (join ((sortKeys (jcsFields fields)).map fun f => quote f.1 ++ ':' :: f.2) ++ ['\x7d'])

def jcsItems : List (Json F) → List (List Char)
  | [] => []
  | item :: rest => item.jcs :: jcsItems rest

def jcsFields : List (String × Json F) → List (String × List Char)
  | [] => []
  | (key,value) :: rest => (key,value.jcs) :: jcsFields rest
end

mutual
/-- Every number is an exact integer. -/
def signedNumbers : Json F → Bool
  | .number n => n.safe.isSome
  | .array items => signedItems items
  | .object fields => signedFields fields
  | _ => true

def signedItems : List (Json F) → Bool
  | [] => true
  | item :: rest => item.signedNumbers && signedItems rest

def signedFields : List (String × Json F) → Bool
  | [] => true
  | (_,value) :: rest => value.signedNumbers && signedFields rest
end

def jcsText (value : Json F) : String := String.ofList value.jcs

end

section
variable {F : Type}

mutual
/-- No object has a key twice. -/
def distinct : Json F → Bool
  | .array items => distinctItems items
  | .object fields => decide (fields.map Prod.fst).Nodup && distinctFields fields
  | _ => true

def distinctItems : List (Json F) → Bool
  | [] => true
  | item :: rest => item.distinct && distinctItems rest

def distinctFields : List (String × Json F) → Bool
  | [] => true
  | (_,value) :: rest => value.distinct && distinctFields rest
end

/-- The keys of an object as they stand in the source. -/
def sourceKeys : Json F → List String
  | .object fields => fields.map Prod.fst
  | _ => []

end

/-- What follows a string whose first quote is gone. -/
def skipString : List Char → List Char
  | [] => []
  | '\x22' :: rest => rest
  | ['\\'] => []
  | '\\' :: _ :: rest => skipString rest
  | _ :: rest => skipString rest

def isNumberChar (c : Char) : Bool := c.isDigit || c == '.' || c == 'e' || c == 'E' || c == '+' || c == '-'

/-- No number of the text has a fraction or an exponent, and none is `-0`. -/
def integerNumberTokens : Nat → List Char → Bool
  | fuel + 1,c :: rest =>
    if c = '\x22' then integerNumberTokens fuel (skipString rest)
    else if c = '-' ∨ c.isDigit = true then
      let token := c :: rest.takeWhile isNumberChar
      if token = ['-','0'] ∨ token.any (fun d => d == '.' || d == 'e' || d == 'E') = true then false
      else integerNumberTokens fuel (rest.dropWhile isNumberChar)
    else integerNumberTokens fuel rest
  | _,_ => true

section
variable {F : Type} [Doubles F]

def parseDistinct (text : List Char) : Option (Json F) := (parse text).filter distinct

/-- A document without repeated keys. -/
def parseStrict (text : String) : Option (Json F) := (parseDistinct text.toList).map ordered

/-- A signed document, and its keys as they stand in the source. -/
def parseSigned (text : String) : Option (Json F × List String) :=
  if integerNumberTokens text.toList.length text.toList then
    (parseDistinct text.toList).map fun tree => (tree.ordered,tree.sourceKeys)
  else none

end

end Entorhinal.Json
