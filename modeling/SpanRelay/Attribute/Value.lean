import SpanRelay.Dictionary
import SpanRelay.Number.Layout

/-!
Attribute values and the ordered sets of attributes that spans and resources carry.
-/
namespace SpanRelay

inductive AttributeValue where
  | text (value : String)
  | int (value : Int64)
  | double (value : Binary64)
  | bool (value : Bool)
  | array (items : List AttributeValue)
  deriving Repr, Inhabited

abbrev Attributes := Dictionary String AttributeValue

namespace AttributeValue

def asText? : AttributeValue → Option String
  | text s => some s
  | _ => none

def asInt? : AttributeValue → Option Int64
  | int n => some n
  | _ => none

def asDouble? : AttributeValue → Option Binary64
  | double x => some x
  | _ => none

def asBool? : AttributeValue → Option Bool
  | bool b => some b
  | _ => none

def integerText (n : Int) : List Char :=
  if n < 0 then '-' :: Nat.toDigits 10 n.natAbs else Nat.toDigits 10 n.natAbs

mutual

/-- Text of a value, without quotes around strings. -/
def display : AttributeValue → List Char
  | text s => s.toList
  | int n => integerText n.toInt
  | double x => Layout.plain.text x
  | bool true => ['t', 'r', 'u', 'e']
  | bool false => ['f', 'a', 'l', 's', 'e']
  | array items => '[' :: displayAll items ++ [']']

def displayAll : List AttributeValue → List Char
  | [] => []
  | [v] => v.display
  | v :: rest => v.display ++ ',' :: ' ' :: displayAll rest

end

mutual

/-- Doubles are compared as numbers, so a NaN makes two values unequal. -/
def equal : AttributeValue → AttributeValue → Bool
  | text s, text t => s == t
  | int m, int n => m == n
  | double x, double y => x.equal y
  | bool b, bool c => b == c
  | array xs, array ys => equalAll xs ys
  | _, _ => false

def equalAll : List AttributeValue → List AttributeValue → Bool
  | [], [] => true
  | x :: xs, y :: ys => x.equal y && equalAll xs ys
  | _, _ => false

end

end AttributeValue

/-- Two sets of attributes are equal when keys, values and order agree. -/
def Attributes.equal (a b : Attributes) : Bool :=
  a.keys == b.keys && AttributeValue.equalAll a.values b.values

end SpanRelay
