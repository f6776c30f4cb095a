import SpanRelay.Json.Value

/-!
Reading JSON documents. Literals are checked for their form only; what a string or a number denotes
is decided where it is used, so a document with an undecodable string in a skipped place reads.
-/
namespace SpanRelay.Json

def isBlankByte (b : UInt8) : Bool := b == 0x20 || b == 0x0a || b == 0x09 || b == 0x0d

def skipBlanks (bytes : Bytes) : Bytes := bytes.dropWhile isBlankByte

def isDigitByte (b : UInt8) : Bool := decide (0x30 ≤ b ∧ b ≤ 0x39)

/-- Content of a string literal whose opening quote is gone, and what follows its closing quote. -/
def scanString : Bytes → Option (Bytes × Bytes)
  | 0x22 :: rest => some ([], rest)
  | 0x5c :: b :: rest =>
    if b = 0x75 then
      if (hexQuad? rest).isSome then
        (scanString rest).map fun r => (0x5c :: b :: r.1, r.2)
      else none
    else if (simpleEscape? b).isSome then
      (scanString rest).map fun r => (0x5c :: b :: r.1, r.2)
    else none
  | b :: rest =>
    if b < 0x20 ∨ b = 0x5c then none
    else (scanString rest).map fun r => (b :: r.1, r.2)
  | [] => none

/-- Digits at the front, at least one. -/
def scanDigits (bytes : Bytes) : Option (Bytes × Bytes) :=
  match bytes.span isDigitByte with
  | ([], _) => none
  | r => some r

def scanFraction : Bytes → Option (Bytes × Bytes)
  | 0x2e :: rest => (scanDigits rest).map fun r => (0x2e :: r.1, r.2)
  | rest => some ([], rest)

def scanExponent : Bytes → Option (Bytes × Bytes)
  | b :: s :: rest =>
    if b = 0x65 ∨ b = 0x45 then
      if s = 0x2b ∨ s = 0x2d then (scanDigits rest).map fun r => (b :: s :: r.1, r.2)
      else (scanDigits (s :: rest)).map fun r => (b :: r.1, r.2)
    else some ([], b :: s :: rest)
  | [b] => if b = 0x65 ∨ b = 0x45 then none else some ([], [b])
  | [] => some ([], [])

/-- A number literal without its sign; a leading zero stands alone. -/
def scanMagnitude (bytes : Bytes) : Option (Bytes × Bytes) :=
  match scanDigits bytes with
  | none => none
  | some (whole, rest) =>
    if whole.head? = some 0x30 ∧ whole.length ≠ 1 then none
    else match scanFraction rest with
      | none => none
      | some (fraction, rest) =>
        (scanExponent rest).map fun r => (whole ++ fraction ++ r.1, r.2)

def scanNumber : Bytes → Option (Bytes × Bytes)
  | 0x2d :: rest => (scanMagnitude rest).map fun r => (0x2d :: r.1, r.2)
  | rest => scanMagnitude rest

mutual

def value : Nat → Bytes → Option (Json × Bytes)
  | 0, _ => none
  | fuel + 1, bytes =>
    match skipBlanks bytes with
    | 0x6e :: 0x75 :: 0x6c :: 0x6c :: rest => some (.null, rest)
    | 0x74 :: 0x72 :: 0x75 :: 0x65 :: rest => some (.bool true, rest)
    | 0x66 :: 0x61 :: 0x6c :: 0x73 :: 0x65 :: rest => some (.bool false, rest)
    | 0x22 :: rest => (scanString rest).map fun r => (.string r.1, r.2)
    | 0x5b :: rest =>
      match skipBlanks rest with
      | 0x5d :: rest => some (.array [], rest)
      | rest => (items fuel rest).map fun r => (.array r.1, r.2)
    | 0x7b :: rest =>
      match skipBlanks rest with
      | 0x7d :: rest => some (.object [], rest)
      | rest => (members fuel rest).map fun r => (.object r.1, r.2)
    | rest => (scanNumber rest).map fun r => (.number r.1, r.2)

def items : Nat → Bytes → Option (List Json × Bytes)
  | 0, _ => none
  | fuel + 1, bytes =>
    match value fuel bytes with
    | none => none
    | some (j, rest) =>
      match skipBlanks rest with
      | 0x2c :: rest => (items fuel rest).map fun r => (j :: r.1, r.2)
      | 0x5d :: rest => some ([j], rest)
      | _ => none

def members : Nat → Bytes → Option (List (Bytes × Json) × Bytes)
  | 0, _ => none
  | fuel + 1, bytes =>
    match skipBlanks bytes with
    | 0x22 :: rest =>
      match scanString rest with
      | none => none
      | some (name, rest) =>
        match skipBlanks rest with
        | 0x3a :: rest =>
          match value fuel rest with
          | none => none
          | some (j, rest) =>
            match skipBlanks rest with
            | 0x2c :: rest => (members fuel rest).map fun r => ((name, j) :: r.1, r.2)
            | 0x7d :: rest => some ([(name, j)], rest)
            | _ => none
        | _ => none
    | _ => none

end

/-- The document that takes up all of the bytes. -/
def parse? (bytes : Bytes) : Option Json :=
  match value (bytes.length + 1) bytes with
  | some (j, rest) => if skipBlanks rest = [] then some j else none
  | none => none

/-- Values of the named members: an object has each of them once and may have others, an array has
just these in this order. -/
def record? (names : List String) : Json → Option (List Json)
  | .array items => if items.length = names.length then some items else none
  | .object members =>
    match members.mapM fun m => (text? m.1).map (·, m.2) with
    | none => none
    | some keyed => names.mapM fun n =>
        match keyed.filter fun m => m.1 == n with
        | [(_, j)] => some j
        | _ => none
  | _ => none

def asText? : Json → Option String
  | .string content => text? content
  | _ => none

end SpanRelay.Json
