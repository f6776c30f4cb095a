import SpanRelay.Worker.Machine

/-!
A worker and its callers, one atomic step at a time. A call of `stop` lowers the running flag,
wakes the worker, takes the thread if it is there to take, waits for it in that case, and returns.
-/
namespace SpanRelay

inductive StopPoint where
  | lowering
  | waking
  | taking
  | joining
  | returned
  deriving DecidableEq, Repr

structure Crew (σ : Type) where
  machine : Machine σ
  /-- Calls of `stop` from other threads, by the time of the call. -/
  stops : List StopPoint

/-- What happens next: the thread goes one step on, its rest is over, or a call is made or goes on.
-/
inductive Move where
  | worker
  | elapse
  | start
  | wake
  | callStop
  | stop (call : Nat)
  deriving DecidableEq, Repr

namespace Crew

variable {σ : Type} [Signalled σ]

def create (m : Machine σ) : Crew σ := ⟨m, []⟩

def signal (c : Crew σ) (f : Signals → Signals) : Machine σ :=
  { c.machine with world := Signalled.modify c.machine.world f }

/-- The next step of a call of `stop`; none when it has returned or has to wait. -/
def advance? (c : Crew σ) : StopPoint → Option (Machine σ × StopPoint)
  | .lowering => some (c.signal fun s => { s with running := false }, .waking)
  | .waking => some (c.signal .wake, .taking)
  | .taking =>
    if (Signalled.signals c.machine.world).joinable then
      some (c.signal fun s => { s with joinable := false }, .joining)
    else some (c.machine, .returned)
  | .joining => if c.machine.phase = .finished then some (c.machine, .returned) else none
  | .returned => none

def move? (c : Crew σ) : Move → Option (Crew σ)
  | .worker => c.machine.step?.map fun machine => { c with machine }
  | .elapse => c.machine.elapse?.map fun machine => { c with machine }
  | .start => some { c with machine := c.machine.start }
  | .wake => some { c with machine := c.machine.wake }
  | .callStop => some { c with stops := c.stops ++ [.lowering] }
  | .stop call =>
    match c.stops[call]? with
    | none => none
    | some point =>
      (c.advance? point).map fun (machine, next) => ⟨machine, c.stops.set call next⟩

/-- All moves in turn, as far as each is possible. -/
def run? (c : Crew σ) : List Move → Option (Crew σ)
  | [] => some c
  | move :: rest => (c.move? move).bind (run? · rest)

end Crew
end SpanRelay
