import SpanRelay.Worker.Signals

/-!
A worker thread as a machine. It runs a startup that makes the tasks, attaches them, and then goes
through them in passes; after a pass without work it rests until it is woken. Once it is no longer
running it detaches the tasks. A call that fails ends that call only.
-/
namespace SpanRelay

/-- How a call to a task ended. -/
inductive TaskResult where
  | done (worked : Bool)
  | failed
  deriving DecidableEq, Repr

def TaskResult.worked : TaskResult → Bool
  | done worked => worked
  | failed => false

structure Task (σ : Type) where
  attach : σ → σ
  execute : σ → TaskResult × σ
  detach : σ → σ

/-- What the thread called, and when it began a pass. -/
inductive WorkerCall where
  | startup
  | attach (task : Nat)
  | pass
  | execute (task : Nat) (result : TaskResult)
  | detach (task : Nat)
  deriving DecidableEq, Repr

inductive Phase where
  | unstarted
  | starting
  | attaching (next : Nat)
  /-- Before a pass: is the worker still running? -/
  | deciding
  | passing (next : Nat) (worked : Bool)
  /-- After a pass: is there a reason to rest? -/
  | judging (worked : Bool)
  | resting
  | detaching (next : Nat)
  | finished
  deriving DecidableEq, Repr

structure Machine (σ : Type) where
  world : σ
  /-- Makes the tasks; without an answer it failed. -/
  startup : σ → Option (List (Task σ)) × σ
  tasks : List (Task σ)
  phase : Phase
  /-- What the thread did so far, newest first. -/
  history : List WorkerCall

namespace Machine

variable {σ : Type} [Signalled σ]

def create (world : σ) (startup : σ → Option (List (Task σ)) × σ) : Machine σ :=
  ⟨world, startup, [], .unstarted, []⟩

def note (m : Machine σ) (call : WorkerCall) : Machine σ := { m with history := call :: m.history }

/-- Passes begun so far. -/
def passes (m : Machine σ) : Nat := m.history.count .pass

/-- The next step of the thread; none when there is no thread or it rests without a wake. -/
def step? (m : Machine σ) : Option (Machine σ) :=
  match m.phase with
  | .unstarted | .finished => none
  | .starting =>
    let (tasks, world) := m.startup m.world
    some ({ m with world, tasks := tasks.getD [], phase := .attaching 0 }.note .startup)
  | .attaching next =>
    match m.tasks[next]? with
    | some t =>
      some ({ m with world := t.attach m.world, phase := .attaching (next + 1) }.note (.attach next))
    | none => some { m with phase := .deciding }
  | .deciding =>
    if Signalled.isRunning m.world then
      some ({ m with phase := .passing 0 false }.note .pass)
    else some { m with phase := .detaching 0 }
  | .passing next worked =>
    match m.tasks[next]? with
    | some t =>
      let (result, world) := t.execute m.world
      let m := { m with world, phase := .passing (next + 1) (worked || result.worked) }
      some (m.note (.execute next result))
    | none => some { m with phase := .judging worked }
  | .judging worked =>
    if !worked && Signalled.isRunning m.world then some { m with phase := .resting }
    else some { m with phase := .deciding }
  | .resting =>
    if (Signalled.signals m.world).woken then
      some
        { m with
          world := Signalled.modify m.world fun s => { s with woken := false }
          phase := .deciding }
    else none
  | .detaching next =>
    match m.tasks[next]? with
    | some t =>
      some ({ m with world := t.detach m.world, phase := .detaching (next + 1) }.note (.detach next))
    | none => some { m with phase := .finished }

/-- The sleep of a resting worker is over. -/
def elapse? (m : Machine σ) : Option (Machine σ) :=
  match m.phase with
  | .resting =>
    some
      { m with
        world := Signalled.modify m.world fun s => { s with woken := false }
        phase := .deciding }
  | _ => none

/-- Lets the thread run until it has no step, with something else happening after each step. -/
def settle (between : σ → σ) : Nat → Machine σ → Machine σ
  | 0, m => m
  | fuel + 1, m =>
    match m.step? with
    | none => m
    | some next => settle between fuel { next with world := between next.world }

/-! ## From outside -/

/-! ### The steps of a start -/

def raise (m : Machine σ) : Machine σ :=
  { m with world := Signalled.modify m.world fun s => { s with running := true } }

def lower (m : Machine σ) : Machine σ :=
  { m with world := Signalled.modify m.world fun s => { s with running := false } }

/-- From now on there is a thread. -/
def spawn (m : Machine σ) : Machine σ := { m with phase := .starting }

/-- The thread can be waited for. -/
def keep (m : Machine σ) : Machine σ :=
  { m with world := Signalled.modify m.world fun s => { s with joinable := true } }

/-- Starts the thread; only the first call does. Its steps are made at once; `Launch` lets others
come in between, and the system refuse a thread. -/
def start (m : Machine σ) : Machine σ :=
  match m.phase with
  | .unstarted => m.raise.spawn.keep
  | _ => m

/-! ### Other calls -/

def wake (m : Machine σ) : Machine σ := { m with world := Signalled.raiseWake m.world }

/-- Tells the thread to stop; the caller then waits for it if nobody else does. -/
def askToStop (m : Machine σ) : Machine σ :=
  { m with world := Signalled.modify m.world fun _ => ⟨false, true, false⟩ }

def isRunning (m : Machine σ) : Bool := Signalled.isRunning m.world

end Machine
end SpanRelay
