import SpanRelay.Json.Value

/-! JSON documents as bytes, with no space between tokens. -/
namespace SpanRelay.Json

def stringLiteral (content : Bytes) : Bytes := 0x22 :: content ++ [0x22]

mutual

def render : Json → Bytes
  | .null => [0x6e, 0x75, 0x6c, 0x6c]
  | .bool true => [0x74, 0x72, 0x75, 0x65]
  | .bool false => [0x66, 0x61, 0x6c, 0x73, 0x65]
  | .number literal => literal
  | .string content => stringLiteral content
  | .array items => 0x5b :: renderItems items ++ [0x5d]
  | .object members => 0x7b :: renderMembers members ++ [0x7d]

def renderItems : List Json → Bytes
  | [] => []
  | [j] => render j
  | j :: k :: rest => render j ++ 0x2c :: renderItems (k :: rest)

def renderMembers : List (Bytes × Json) → Bytes
  | [] => []
  | [(name, j)] => stringLiteral name ++ 0x3a :: render j
  | (name, j) :: m :: rest =>
    stringLiteral name ++ 0x3a :: render j ++ 0x2c :: renderMembers (m :: rest)

end

end SpanRelay.Json
