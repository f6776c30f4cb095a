import SpanRelay.Clock

/-!
Holds keep a span from being handed over. Each has a deadline; the queue of deadlines is kept in
the order in which they fire, by time and then by age of the hold.
-/
namespace SpanRelay

/-- A span is named by its place among the spans recorded so far. -/
abbrev SpanRef := Nat

/-- A hold is named by its place among the holds made so far, as a running number of 64 bits would
name it up to 2 ^ 64 holds. -/
abbrev HoldId := Nat

structure Timer where
  /-- Exact nanoseconds since the anchor of the clock. -/
  deadline : Nanos
  hold : HoldId
  deriving DecidableEq, Repr

namespace Timer

def before (a b : Timer) : Bool :=
  decide (a.deadline < b.deadline ∨ a.deadline = b.deadline ∧ a.hold < b.hold)

def ticks (t : Timer) : Ticks := UInt64.ofNat t.deadline

end Timer

structure Hold where
  span : SpanRef
  timer : Timer
  /-- The time at which it is released counts for the end of the span. -/
  upgraded : Bool
  deriving DecidableEq, Repr

/-- No hold lasts longer than a year. -/
def Hold.longest : Nanos := Nanos.ofSeconds (365 * 24 * 60 * 60)

structure DeadlineQueue where
  timers : List Timer
  running : Bool
  deriving DecidableEq, Repr

namespace DeadlineQueue

def empty : DeadlineQueue := ⟨[], true⟩

def insertTimer (t : Timer) : List Timer → List Timer
  | [] => [t]
  | s :: rest => if t.before s then t :: s :: rest else s :: insertTimer t rest

/-- A queue that was shut down takes nothing more. -/
def schedule (q : DeadlineQueue) (t : Timer) : DeadlineQueue :=
  if q.running then { q with timers := insertTimer t q.timers } else q

def cancel (q : DeadlineQueue) (t : Timer) : DeadlineQueue :=
  { q with timers := q.timers.erase t }

def pending (q : DeadlineQueue) : Nat := q.timers.length

/-- Takes out the first timer if its time has come. -/
def popDue? (q : DeadlineQueue) (now : Nanos) : Option (Timer × DeadlineQueue) :=
  match q.timers with
  | [] => none
  | t :: rest => if t.deadline ≤ now then some (t, { q with timers := rest }) else none

def shutdown (_ : DeadlineQueue) : DeadlineQueue := ⟨[], false⟩

theorem mem_insertTimer (t s : Timer) (timers : List Timer) :
    s ∈ insertTimer t timers ↔ s = t ∨ s ∈ timers := by
  induction timers with
  | nil => simp [insertTimer]
  | cons u rest ih =>
    by_cases h : t.before u = true <;> simp [insertTimer, h, ih, or_left_comm]

end DeadlineQueue
end SpanRelay
