import SpanRelay.Worker.Machine

/-! Tasks that follow a script and note what they do, to watch a worker by. -/
namespace SpanRelay

inductive Cue where
  | ok
  | work
  | idle
  | wake
  | running
  | stop
  | fail
  /-- A word of no meaning, after which nothing is done. -/
  | other (label : String)
  deriving DecidableEq, Repr

inductive Note where
  | attached (task : Nat) (cue : Cue)
  | executed (task : Nat) (cue : Cue)
  | detached (task : Nat) (cue : Cue)
  | sawRunning (task : Nat) (running : Bool)
  | passEnded
  deriving DecidableEq, Repr

structure Stage where
  signals : Signals
  /-- What is left of the script of each task. -/
  scripts : List (List Cue)
  /-- Newest first. -/
  notes : List Note
  deriving DecidableEq, Repr

instance : Signalled Stage where
  signals := Stage.signals
  withSignals s signals := { s with signals }
  signals_withSignals _ _ := rfl

namespace Stage

def note (s : Stage) (n : Note) : Stage := { s with notes := n :: s.notes }

def act (s : Stage) (task : Nat) : Cue → TaskResult × Stage
  | .ok | .idle | .other _ => (.done false, s)
  | .work => (.done true, s)
  | .wake => (.done false, Signalled.raiseWake s)
  | .running => (.done false, s.note (.sawRunning task s.signals.running))
  | .stop => (.done false, Signalled.stopFromTask s)
  | .fail => (.failed, s)

/-- The next cue of a task, idle when its script is used up. -/
def takeCue (s : Stage) (task : Nat) : Cue × Stage :=
  match s.scripts[task]? with
  | some (cue :: rest) => (cue, { s with scripts := s.scripts.set task rest })
  | _ => (.idle, s)

def scriptedTask (task : Nat) (attach detach : Cue) : Task Stage where
  attach s := ((s.note (.attached task attach)).act task attach).2
  execute s :=
    let (cue, s) := s.takeCue task
    (s.note (.executed task cue)).act task cue
  detach s := ((s.note (.detached task detach)).act task detach).2

/-- Comes last in each pass and marks its end. -/
def passMarker : Task Stage where
  attach := id
  execute s := (.done false, s.note .passEnded)
  detach := id

def tasksFor (cues : List (Cue × Cue)) : List (Task Stage) :=
  cues.mapIdx (fun i c => scriptedTask i c.1 c.2) ++ [passMarker]

/-- A worker for scripted tasks; a startup that fails leaves it without any. -/
def worker (scripts : List (List Cue)) (cues : List (Cue × Cue)) (startupFails : Bool) :
    Machine Stage :=
  .create ⟨.initial, scripts, []⟩ fun s => (if startupFails then none else some (tasksFor cues), s)

end Stage
end SpanRelay
