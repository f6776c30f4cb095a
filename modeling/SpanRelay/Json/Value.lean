import SpanRelay.Number.Layout
import SpanRelay.Text.Bytes
import SpanRelay.Text.Hex

/-!
JSON documents as written: number and string literals are kept byte for byte, so that a document
prints back as it was read. The constructors at the end write text, integers and doubles.
-/
namespace SpanRelay

inductive Json where
  | null
  | bool (value : Bool)
  | number (literal : Bytes)
  /-- The bytes between the quotes. -/
  | string (content : Bytes)
  | array (items : List Json)
  | object (members : List (Bytes × Json))
  deriving Repr, Inhabited

namespace Json

/-! ## String literals -/

def escapeByte (b : UInt8) : Bytes :=
  if b = 0x22 then [0x5c, 0x22]
  else if b = 0x5c then [0x5c, 0x5c]
  else if b = 0x08 then [0x5c, 0x62]
  else if b = 0x0c then [0x5c, 0x66]
  else if b = 0x0a then [0x5c, 0x6e]
  else if b = 0x0d then [0x5c, 0x72]
  else if b = 0x09 then [0x5c, 0x74]
  else if b < 0x20 then [0x5c, 0x75] ++ Bytes.ofAscii (Hex.padded 4 b.toNat)
  else [b]

def quoted (s : String) : Bytes := (Bytes.ofString s).flatMap escapeByte

def isHexDigit (b : UInt8) : Bool :=
  decide (0x30 ≤ b ∧ b ≤ 0x39 ∨ 0x41 ≤ b ∧ b ≤ 0x46 ∨ 0x61 ≤ b ∧ b ≤ 0x66)

def hexValue (b : UInt8) : Nat :=
  if b ≤ 0x39 then b.toNat - 0x30 else if b ≤ 0x46 then b.toNat - 0x37 else b.toNat - 0x57

/-- Four hexadecimal digits at the front. -/
def hexQuad? : Bytes → Option (Nat × Bytes)
  | a :: b :: c :: d :: rest =>
    if [a, b, c, d].all isHexDigit then
      some ([a, b, c, d].foldl (fun n x => 16 * n + hexValue x) 0, rest)
    else none
  | _ => none

/-- What the byte after a backslash stands for, `u` apart. -/
def simpleEscape? (b : UInt8) : Option UInt8 :=
  if b = 0x22 ∨ b = 0x5c ∨ b = 0x2f then some b
  else if b = 0x62 then some 0x08
  else if b = 0x66 then some 0x0c
  else if b = 0x6e then some 0x0a
  else if b = 0x72 then some 0x0d
  else if b = 0x74 then some 0x09
  else none

def utf8Of (code : Nat) : Bytes := Bytes.ofString (String.singleton (Char.ofNat code))

/-- One character of a string literal, decoded, and the rest. Surrogates must come in pairs. -/
def unescapeOne? : Bytes → Option (Bytes × Bytes)
  | 0x5c :: 0x75 :: rest =>
    match hexQuad? rest with
    | none => none
    | some (high, rest) =>
      if 0xdc00 ≤ high ∧ high ≤ 0xdfff then none
      else if 0xd800 ≤ high ∧ high ≤ 0xdbff then
        match rest with
        | 0x5c :: 0x75 :: rest =>
          match hexQuad? rest with
          | some (low, rest) =>
            if 0xdc00 ≤ low ∧ low ≤ 0xdfff then
              some (utf8Of (0x10000 + (high - 0xd800) * 0x400 + (low - 0xdc00)), rest)
            else none
          | none => none
        | _ => none
      else some (utf8Of high, rest)
  | 0x5c :: b :: rest => (simpleEscape? b).map fun c => ([c], rest)
  | b :: rest => if b = 0x5c then none else some ([b], rest)
  | [] => none

def unescape : Nat → Bytes → Option Bytes
  | _, [] => some []
  | 0, _ :: _ => none
  | fuel + 1, bytes =>
    match unescapeOne? bytes with
    | some (decoded, rest) => (unescape fuel rest).map (decoded ++ ·)
    | none => none

/-- The text a string literal denotes, if its escapes and its UTF-8 are sound. -/
def text? (content : Bytes) : Option String :=
  (unescape content.length content).bind Bytes.toString?

/-! ## Writing values -/

def ofText (s : String) : Json := .string (quoted s)

def ofNat (n : Nat) : Json := .number (Bytes.ofAscii (Nat.toDigits 10 n))

def ofInt (n : Int) : Json :=
  if n < 0 then .number (0x2d :: Bytes.ofAscii (Nat.toDigits 10 n.natAbs)) else ofNat n.toNat

/-- A double that is not finite is written as null. -/
def ofDouble (x : Binary64) : Json :=
  if x.isFinite then .number (Bytes.ofAscii (Layout.json.text x)) else .null

def record (members : List (String × Json)) : Json :=
  .object (members.map fun m => (quoted m.1, m.2))

end Json
end SpanRelay
