import SpanRelay.Backlog
import SpanRelay.Callback
import SpanRelay.ContextStack
import SpanRelay.Event
import SpanRelay.Sampler
import SpanRelay.Span.Basic
import SpanRelay.Worker.Signals

/-!
All spans that were recorded, who still holds on to them, and where they go when they have ended.
-/
namespace SpanRelay

/-- Where an ended span goes. -/
inductive Sink where
  | nowhere
  /-- Through sampling and the end callbacks into the backlog. -/
  | batch
  deriving DecidableEq, Repr

/-- The counters are without a bound, but none exceeds the number of spans recorded, so that cells of 64 bits
hold the same numbers up to 2 ^ 64 spans. -/
structure Batcher where
  trigger : Nat
  timeout : Nanos
  backlog : Backlog
  lastBatch : Ticks
  forced : Bool
  /-- A worker is known that can be woken. -/
  bound : Bool
  ended : Nat
  sampledOut : Nat
  rejected : Nat
  batched : Nat
  deriving DecidableEq, Repr

def Batcher.start (trigger : Nat) (timeout : Nanos) (now : Ticks) : Batcher :=
  ⟨trigger, timeout, .empty, now, false, false, 0, 0, 0, 0⟩

/-- A span that is tracked under a token, and the time at which it ends if it is found leaked. -/
structure Binding where
  span : SpanRef
  autoEnd : Option Ticks
  deriving DecidableEq, Repr

structure Recorder where
  clock : Clock
  limits : AttributeLimits
  /-- Spans can be held. -/
  timed : Bool
  sink : Sink
  sampler : Sampler
  spans : Array Span
  /-- Spans that a producer or a backlog holds on to, once for each time. -/
  handles : List SpanRef
  /-- Shared by all backlogs. -/
  links : Links
  holds : Array Hold
  /-- Holds that a producer holds on to. -/
  heldHolds : List HoldId
  deadlines : DeadlineQueue
  threadStacks : Dictionary Nat ContextStack
  /-- Threads whose stack is in use and cannot be reached. -/
  borrowed : List Nat
  tokens : Dictionary String Binding
  callbacks : Array Callback
  onStart : Registry
  onEnd : Registry
  batcher : Batcher
  signals : Signals
  /-- What was observed, newest first. -/
  log : List Event
  deriving Repr

namespace Recorder

def start (clock : Clock) (limits : AttributeLimits) (timed : Bool) (sink : Sink)
    (sampler : Sampler) (trigger : Nat) (timeout : Nanos) : Recorder where
  clock
  limits
  timed
  sink
  sampler
  spans := #[]
  handles := []
  links := .empty
  holds := #[]
  heldHolds := []
  deadlines := .empty
  threadStacks := .empty
  borrowed := []
  tokens := .empty
  callbacks := #[]
  onStart := .empty
  onEnd := .empty
  batcher := .start trigger timeout clock.ticks
  signals := .initial
  log := []

def span? (r : Recorder) (ref : SpanRef) : Option Span := r.spans[ref]?

def put (r : Recorder) (ref : SpanRef) (s : Span) : Recorder :=
  { r with spans := r.spans.setIfInBounds ref s }

def modify (r : Recorder) (ref : SpanRef) (f : Span → Span) : Recorder :=
  match r.span? ref with
  | some s => r.put ref (f s)
  | none => r

def emit (r : Recorder) (e : Event) : Recorder := { r with log := e :: r.log }

/-- Wakes the worker if there is one. -/
def wakeWorker (r : Recorder) : Recorder :=
  if r.batcher.bound then { r with signals := r.signals.wake } else r

/-- Adds a callback to the table, unless one of its kind has its label already. -/
def define (r : Recorder) (c : Callback) : CallbackRef × Recorder :=
  match r.callbacks.findIdx? fun d => d.label == c.label && d.atEnd == c.atEnd with
  | some ref => (ref, r)
  | none => (r.callbacks.size, { r with callbacks := r.callbacks.push c })

/-! ## Who holds on to a span -/

def addHandle (r : Recorder) (ref : SpanRef) : Recorder := { r with handles := ref :: r.handles }

def dropHandle (r : Recorder) (ref : SpanRef) : Recorder :=
  { r with handles := r.handles.erase ref }

def dropHold (r : Recorder) (id : HoldId) : Recorder :=
  { r with heldHolds := r.heldHolds.erase id }

def holdConcerns (r : Recorder) (ref : SpanRef) (id : HoldId) : Bool :=
  match r.holds[id]? with
  | some h => h.span == ref
  | none => false

def isAlive (r : Recorder) (ref : SpanRef) : Bool :=
  r.handles.contains ref || r.tokens.entries.any (fun e => e.2.span == ref) ||
    r.heldHolds.any (r.holdConcerns ref) || r.deadlines.timers.any fun t => r.holdConcerns ref t.hold

/-- Alive and not yet ended, so that it can be a parent. -/
def isLive (r : Recorder) (ref : SpanRef) : Bool :=
  r.isAlive ref &&
    match r.span? ref with
    | some s => !s.isEnded
    | none => false

/-! ## Backlogs -/

/-- Adds a span to a backlog, which holds on to it. -/
def addTo (r : Recorder) (b : Backlog) (ref : SpanRef) : Backlog × Recorder :=
  let (b, links) := b.add r.links ref
  (b, { r with links }.addHandle ref)

/-- Takes the spans out of a backlog, oldest first, and lets go of them. -/
def takeFrom (r : Recorder) (b : Backlog) : (List SpanRef × Backlog) × Recorder :=
  let (batch, b, links) := b.takeBatch r.links
  ((batch, b), batch.foldr (fun ref r => r.dropHandle ref) { r with links })

/-! ## Context stacks of the threads -/

def stackOf (r : Recorder) (thread : Nat) : ContextStack := (r.threadStacks.get? thread).getD .empty

def setStack (r : Recorder) (thread : Nat) (s : ContextStack) : Recorder :=
  { r with threadStacks := r.threadStacks.insert thread s }

/-- Changes the stack of a thread, which is left alone while it is in use. -/
def onStack (r : Recorder) (thread : Nat) (f : ContextStack → ContextStack) : Recorder :=
  if r.borrowed.contains thread then r else r.setStack thread (f (r.stackOf thread))

def attach (r : Recorder) (thread : Nat) (ref : SpanRef) : Recorder :=
  r.onStack thread fun s => s.attach ref

def detach (r : Recorder) (thread : Nat) (ref : SpanRef) : Recorder :=
  r.onStack thread fun s => s.detach r.isLive ref

def clearStack (r : Recorder) (thread : Nat) : Recorder := r.onStack thread fun _ => .empty

def current? (r : Recorder) (thread : Nat) : Option SpanRef × Recorder :=
  if r.borrowed.contains thread then (none, r)
  else ((r.stackOf thread).current? r.isLive, r.onStack thread (·.prune r.isLive))

def contextOf? (r : Recorder) (ref : SpanRef) : Option SpanContext :=
  (r.span? ref).map Span.context

def currentContext? (r : Recorder) (thread : Nat) : Option SpanContext × Recorder :=
  let (current, r) := r.current? thread
  (current.bind r.contextOf?, r)

/-- The newest open span of a category on the stack of a thread. -/
def findOpen? (r : Recorder) (thread : Nat) (category : SpanCategory) :
    Option SpanRef × Recorder :=
  if r.borrowed.contains thread then (none, r)
  else
    ((r.stackOf thread).find? r.isLive fun ref => (r.span? ref).any (·.category == category),
      r.onStack thread (·.prune r.isLive))

/-- Runs an operation while the stack of the thread is in use. -/
def whileBorrowed (r : Recorder) (thread : Nat) (op : Recorder → α × Recorder) : α × Recorder :=
  let before := r.borrowed
  let (answer, r) := op { r with borrowed := thread :: before }
  (answer, { r with borrowed := before })

end Recorder
end SpanRelay
