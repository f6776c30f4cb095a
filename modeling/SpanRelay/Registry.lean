/-!
Callbacks in the order in which they run: by ascending priority, and by time of addition among
equals. A callback that is already there is not added again.
-/
namespace SpanRelay

/-- A callback is named by its place in the table of callbacks. -/
abbrev CallbackRef := Nat

structure Registration where
  priority : Int
  callback : CallbackRef
  deriving DecidableEq, Repr

def Registration.normalPriority : Int := 10000

structure Registry where
  entries : List Registration
  deriving DecidableEq, Repr, Inhabited

namespace Registry

def empty : Registry := ⟨[]⟩

def size (r : Registry) : Nat := r.entries.length

def isEmpty (r : Registry) : Bool := r.entries.isEmpty

def contains (r : Registry) (callback : CallbackRef) : Bool :=
  r.entries.any fun e => e.callback = callback

/-- Where the entries that pass end, if they come first. They are looked for by halves, among
`count` entries from `base` on. -/
def boundary (passes : Registration → Bool) (entries : List Registration) (base count : Nat) : Nat :=
  if count = 0 then base
  else
    let middle := base + count / 2
    if (entries[middle]?).any passes then
      boundary passes entries (middle + 1) (count - count / 2 - 1)
    else boundary passes entries base (count / 2)
termination_by count

/-- Puts an entry behind those of its own or a lower priority. -/
def place (item : Registration) (entries : List Registration) : List Registration :=
  let last := boundary (fun e => decide (e.priority ≤ item.priority)) entries 0 entries.length
  entries.take last ++ item :: entries.drop last

/-- Places an item and counts it, unless its callback is there. -/
def enter (acc : Nat × Registry) (item : Registration) : Nat × Registry :=
  if acc.2.contains item.callback then acc else (acc.1 + 1, ⟨place item acc.2.entries⟩)

/-- Answers how many of the callbacks were new. -/
def addAll (r : Registry) (items : List Registration) : Nat × Registry :=
  let (added, next) := items.foldl enter (0, r)
  (added, if 0 < added then next else r)

/-- Answers whether the callback was new. -/
def add (r : Registry) (item : Registration) : Bool × Registry :=
  let (added, r) := r.addAll [item]
  (added == 1, r)

theorem add_eq (r : Registry) (item : Registration) :
    r.add item =
      if r.contains item.callback then (false, r) else (true, ⟨place item r.entries⟩) := by
  unfold add addAll enter
  by_cases h : r.contains item.callback = true <;> simp [h]

/-! ## Calls -/

inductive Call where
  | add (item : Registration)
  | addAll (items : List Registration)
  | snapshot

/-- What a call adds. -/
def Call.added : Call → List Registration
  | add item => [item]
  | addAll items => items
  | snapshot => []

/-- A registry with the snapshots that were taken of it, in turn. -/
structure Watched where
  registry : Registry
  shots : List (List Registration)

namespace Watched

def start : Watched := ⟨.empty, []⟩

def call (w : Watched) : Call → Watched
  | .add item => { w with registry := (w.registry.add item).2 }
  | .addAll items => { w with registry := (w.registry.addAll items).2 }
  | .snapshot => { w with shots := w.shots ++ [w.registry.entries] }

def after (w : Watched) (calls : List Call) : Watched := calls.foldl call w

end Watched
end Registry
end SpanRelay
