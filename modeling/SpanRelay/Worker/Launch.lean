import SpanRelay.Worker.Moves

/-!
The start of a worker, one atomic step at a time. The call of `start` that finds the startup takes
it, raises the running flag, asks for a thread, and keeps the thread for a caller of `stop` to wait
for. If it is refused a thread it lowers the flag again; the startup is gone by then. The crew may
make moves in between, and with none in between this is `Machine.start`.
-/
namespace SpanRelay

/-- How far the call that takes the startup has come. -/
inductive LaunchPoint where
  | untaken
  | raising
  | spawning
  | keeping
  | started
  | lowering
  | refused
  deriving DecidableEq, Repr

namespace LaunchPoint

/-- Has the call made a thread? -/
def hasThread : LaunchPoint → Bool
  | keeping | started => true
  | untaken | raising | spawning | lowering | refused => false

/-- Has the call raised the flag? -/
def hasRaised : LaunchPoint → Bool
  | untaken | raising => false
  | spawning | keeping | started | lowering | refused => true

/-- Has the call raised the flag, and not lowered it again? -/
def isRaised : LaunchPoint → Bool
  | spawning | keeping | started | lowering => true
  | untaken | raising | refused => false

end LaunchPoint

structure Launch (σ : Type) where
  crew : Crew σ
  point : LaunchPoint

/-- What happens next: a move of the crew, a call of `start`, or a step of the call that has taken
the startup. If the step asks for a thread, it is told whether there is one for it. -/
inductive LaunchMove where
  | crew (move : Move)
  | callStart
  | launch (granted : Bool)
  deriving DecidableEq, Repr

namespace Launch

/-- The moves of the crew among these. -/
def crewMoves : List LaunchMove → List Move
  | [] => []
  | .crew move :: rest => move :: crewMoves rest
  | .callStart :: rest | .launch _ :: rest => crewMoves rest

variable {σ : Type} [Signalled σ]

def create (m : Machine σ) : Launch σ := ⟨.create m, .untaken⟩

def machine (x : Launch σ) : Machine σ := x.crew.machine

def withMachine (x : Launch σ) (machine : Machine σ) (point : LaunchPoint) : Launch σ :=
  ⟨{ x.crew with machine }, point⟩

/-- The next step of the call that has taken the startup; none before there is one, and when it has
returned. -/
def advance? (x : Launch σ) (granted : Bool) : Option (Launch σ) :=
  match x.point with
  | .untaken | .started | .refused => none
  | .raising => some (x.withMachine x.machine.raise .spawning)
  | .spawning =>
    if granted then some (x.withMachine x.machine.spawn .keeping)
    else some { x with point := .lowering }
  | .keeping => some (x.withMachine x.machine.keep .started)
  | .lowering => some (x.withMachine x.machine.lower .refused)

/-- A move that is possible. A start is a move of its own here, and none of the crew. -/
def move? (x : Launch σ) : LaunchMove → Option (Launch σ)
  | .crew move =>
    if move = .start then none else (x.crew.move? move).map fun crew => { x with crew }
  | .callStart => some (if x.point = .untaken then { x with point := .raising } else x)
  | .launch granted => x.advance? granted

/-- All moves in turn, as far as each is possible. -/
def run? (x : Launch σ) : List LaunchMove → Option (Launch σ)
  | [] => some x
  | move :: rest => (x.move? move).bind (run? · rest)

end Launch
end SpanRelay
