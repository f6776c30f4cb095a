import SpanRelay.Attribute.Value

/-!
Limits on attributes. A limit asked for outside its range is replaced by the default, so every
limit is at least one. Long texts keep their first characters and get a marker that counts the
ones cut off.
-/
namespace SpanRelay

structure AttributeLimits where
  text : Nat
  array : Nat
  count : Nat
  deriving DecidableEq, Repr, Inhabited

namespace AttributeLimits

def longestKey : Nat := 128

def standard : AttributeLimits := ⟨1024, 1000, 128⟩

def withinOr (asked most default : Nat) : Nat :=
  if 1 ≤ asked ∧ asked ≤ most then asked else default

def ofRequested (text array count : Nat) : AttributeLimits :=
  ⟨withinOr text 10000 standard.text, withinOr array 10000 standard.array,
    withinOr count 1000 standard.count⟩

def acceptsKey (key : String) : Bool := !key.isEmpty && decide (key.length ≤ longestKey)

def cutMarker (cut : Nat) : String :=
  String.ofList ("*** ".toList ++ Nat.toDigits 10 cut ++ " CHARS TRUNCATED".toList)

def clampText (l : AttributeLimits) (s : String) : String :=
  if s.length ≤ l.text then s
  else String.ofList (s.toList.take l.text) ++ cutMarker (s.length - l.text)

mutual

def clamp (l : AttributeLimits) : AttributeValue → AttributeValue
  | .text s => .text (l.clampText s)
  | .array items => .array (l.clampFirst l.array items)
  | .int n => .int n
  | .double x => .double x
  | .bool b => .bool b

/-- Clamps the first `room` items and leaves the others out. -/
def clampFirst (l : AttributeLimits) : Nat → List AttributeValue → List AttributeValue
  | _, [] => []
  | 0, _ => []
  | room + 1, v :: rest => l.clamp v :: l.clampFirst room rest

end

theorem clampFirst_eq_map (l : AttributeLimits) (room : Nat) (items : List AttributeValue) :
    l.clampFirst room items = (items.take room).map l.clamp := by
  induction items generalizing room with
  | nil => cases room <;> rfl
  | cons v rest ih =>
    cases room with
    | zero => simp [clampFirst]
    | succ n => simp [clampFirst, ih]

end AttributeLimits
end SpanRelay
