import SpanRelay.Recorder.Moves
import SpanRelay.Relay.Contention
import SpanRelay.Worker.Moves

/-!
A running relay between producers, flushes and its worker. The worker goes through a turn of its
first task one atomic step at a time, and so does each flush; what producers do and the steps of the
worker outside of these turns come in between, in any order.
-/
namespace SpanRelay.Relay

structure Traffic where
  crew : Crew Relay
  /-- Where the worker is in a turn of its first task. -/
  turn : SendPoint
  /-- Calls of `flush`, by the time of the call. -/
  flushes : List FlushPoint

/-- What happens next: a move of the crew, something that is recorded, or a flush. -/
inductive TrafficMove where
  | crew (move : SpanRelay.Move)
  | record (m : Recorder.Move)
  | connect (connected : Bool)
  | callFlush
  | flush (call : Nat)

/-- A startup that makes the task of a courier and, after it, the others. -/
def leading (deliver : Courier) (startup : Relay → Option (List (Task Relay)) × Relay) (y : Relay) :
    Option (List (Task Relay)) × Relay :=
  let (others, y) := startup y
  (others.map (courierTask deliver :: ·), y)

/-- What the startup of a relay makes beside the task that sends batches. -/
def otherStartup (config : RelayConfig) (fresh : BitVec 128) (y : Relay) :
    Option (List (Task Relay)) × Relay :=
  let (tasks, y) := startup config fresh y
  (tasks.map List.tail, y)

namespace Traffic

def create (deliver : Courier) (startup : Relay → Option (List (Task Relay)) × Relay) (y : Relay) :
    Traffic :=
  ⟨.create (.create y (leading deliver startup)), .reading, []⟩

def machine (x : Traffic) : Machine Relay := x.crew.machine

def world (x : Traffic) : Relay := x.crew.machine.world

def recorder (x : Traffic) : Recorder := x.crew.machine.world.recorder

def withMachine (x : Traffic) (machine : Machine Relay) : Traffic :=
  { x with crew := { x.crew with machine } }

def withWorld (x : Traffic) (world : Relay) : Traffic := x.withMachine { x.machine with world }

/-- The next step of the worker in a turn of its first task. -/
def attend (deliver : Courier) (x : Traffic) (worked : Bool) : Traffic :=
  match x.turn with
  | .answered result =>
    { x.withMachine ({ x.machine with phase := .passing 1 (worked || result.worked) }.note
        (.execute 0 result)) with
      turn := .reading }
  | point =>
    let (turn, world) := point.advance deliver x.world
    { x.withWorld world with turn }

/-- Is it the first task whose turn it is? -/
def sends? (x : Traffic) : Option Bool :=
  match x.machine.phase with
  | .passing 0 worked => if x.machine.tasks.isEmpty then none else some worked
  | _ => none

def move? (deliver : Courier) (x : Traffic) : TrafficMove → Option Traffic
  | .crew .worker =>
    match x.sends? with
    | some worked => some (x.attend deliver worked)
    | none => (x.crew.move? .worker).map fun crew => { x with crew }
  | .crew move => (x.crew.move? move).map fun crew => { x with crew }
  | .record m => some (x.withWorld { x.world with recorder := x.recorder.move m })
  | .connect connected => some (x.withWorld { x.world with connected })
  | .callFlush => some { x with flushes := x.flushes ++ [.demanding] }
  | .flush call =>
    match x.flushes[call]? with
    | none | some .returned => none
    | some point =>
      let (next, world) := point.advance x.world
      some { x.withWorld world with flushes := x.flushes.set call next }

/-- All moves in turn, as far as each is possible. -/
def run? (deliver : Courier) (x : Traffic) : List TrafficMove → Option Traffic
  | [] => some x
  | move :: rest => (x.move? deliver move).bind (run? deliver · rest)

end Traffic
end SpanRelay.Relay
