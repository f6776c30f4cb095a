import SpanRelay.Payload.Basic
import SpanRelay.Storage.Error
import SpanRelay.Text.Blank

/-!
The file of a stored payload. Its name holds the timestamp; its content is a line for each header,
an empty line, and the body as it is. Lines end with CR LF, and a CR by itself belongs to the line.
-/
namespace SpanRelay.RetryFile

/-! ## Names -/

def namePrefix : List Char := "retry-".toList

def nameSuffix : List Char := ".json".toList

/-- Nineteen digits, more if the number needs them. -/
def paddedDigits (n : Nat) : List Char :=
  let digits := Nat.toDigits 10 n
  List.replicate (19 - digits.length) '0' ++ digits

def name (timestamp : UInt64) : String :=
  String.ofList (namePrefix ++ paddedDigits timestamp.toNat ++ nameSuffix)

def strip? (front : List Char) (text : List Char) : Option (List Char) :=
  if text.take front.length = front then some (text.drop front.length) else none

def stripEnd? (back : List Char) (text : List Char) : Option (List Char) :=
  (strip? back.reverse text.reverse).map List.reverse

def decimal? (digits : List Char) : Option UInt64 :=
  if digits.isEmpty || !digits.all Char.isDigit then none
  else
    let n := digits.foldl (fun n c => n * 10 + (c.toNat - '0'.toNat)) 0
    if n < UInt64.size then some (UInt64.ofNat n) else none

/-- The timestamp in a name: any number of digits, also behind a plus sign. -/
def timestamp? (name : String) : Option UInt64 :=
  match (strip? namePrefix name.toList).bind (stripEnd? nameSuffix) with
  | some ('+' :: digits) => decimal? digits
  | some digits => decimal? digits
  | none => none

/-! ## Content -/

def lineEnd : Bytes := [0x0d, 0x0a]

def headerLine (h : String × String) : Bytes :=
  Bytes.ofString h.1 ++ [0x3a, 0x20] ++ Bytes.ofString h.2 ++ lineEnd

def render (p : Payload) : Bytes := p.headers.flatMap headerLine ++ lineEnd ++ p.body

/-- Name and value of a line: what is before the first colon, and what is behind it without leading
white space. -/
def header? (line : Bytes) : Except Corruption (String × String) :=
  match Bytes.toString? line with
  | none => .error .notText
  | some s =>
    match s.toList.span (· ≠ ':') with
    | (name, _ :: value) => .ok (String.ofList name, String.ofList (Blank.trimStart value))
    | (_, []) => .error .noSeparator

/-- Reads on behind some headers and the beginning of a line, both kept in reverse. -/
def scan (headers : List (String × String)) (line : Bytes) :
    Bytes → Except Corruption (List (String × String) × Bytes)
  | 0x0d :: 0x0a :: rest =>
    if line.isEmpty then .ok (headers.reverse, rest)
    else
      match header? line.reverse with
      | .ok h => scan (h :: headers) [] rest
      | .error c => .error c
  | b :: rest => scan headers (b :: line) rest
  | [] => .error .cutShort

def parse (timestamp : UInt64) (content : Bytes) : Except Corruption Payload :=
  (scan [] [] content).map fun r => ⟨timestamp, r.1, r.2⟩

end SpanRelay.RetryFile
