import SpanRelay.Text.Bytes

/-! A body ready to be sent, with its headers and the wall time at which it was made. -/
namespace SpanRelay

structure Payload where
  timestamp : UInt64
  headers : List (String × String)
  body : Bytes
  deriving DecidableEq, Repr

namespace Payload

def asciiLower (s : String) : List Char := s.toList.map Char.toLower

/-- Value of the first header of that name, ASCII letters of either case being the same. -/
def header? (p : Payload) (name : String) : Option String :=
  (p.headers.find? fun h => asciiLower h.1 == asciiLower name).map Prod.snd

end Payload
end SpanRelay
