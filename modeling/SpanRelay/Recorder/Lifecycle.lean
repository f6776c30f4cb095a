import SpanRelay.Recorder.HandOver
import SpanRelay.Text.UpperCase

/-!
Operations on recorded spans: creating, ending, discarding and holding them. Every operation names
the thread on which it runs, because spans are attached to the context of their thread.
-/
namespace SpanRelay

structure SpanRequest where
  name : String
  category : SpanCategory
  start : Option Ticks
  /-- Absent for the current span of the thread; an invalid one for none. -/
  parent : Option SpanContext
  makesContext : Bool
  firstClass : Option Bool
  kind : SpanKind
  metrics : Option SpanMetrics
  deriving Repr

def SpanRequest.named (name : String) : SpanRequest :=
  ⟨name, .custom, none, none, true, none, .internal, none⟩

namespace Recorder

/-! ## Creating -/

def parentFor (r : Recorder) (thread : Nat) : Option SpanContext → Option SpanContext × Recorder
  | some explicit => (if explicit.isValid then some explicit else none, r)
  | none => r.currentContext? thread

/-- A new span before any callback has seen it. -/
def build (r : Recorder) (thread : Nat) (fresh : FreshIds) (q : SpanRequest) :
    SpanRef × Recorder :=
  let (parent, r) := r.parentFor thread q.parent
  let trace := match parent with
    | some p => if p.trace = 0 then fresh.trace else p.trace
    | none => fresh.trace
  let s := Span.create ⟨trace, fresh.span⟩ ((parent.map SpanContext.span).getD 0) q.kind q.category
    (q.start.getD r.clock.ticks) q.makesContext q.metrics r.limits q.name
  let s := if q.category.marksFirstClass then
      s.setInternal Span.firstClassKey (.bool (q.firstClass.getD parent.isNone))
    else s
  let ref := r.spans.size
  let r := { r with spans := r.spans.push s }.addHandle ref
  (ref, if q.makesContext then r.attach thread ref else r)

/-- Runs start callbacks in order, whatever becomes of each. -/
def runStartCallbacks (thread : Nat) (ref : SpanRef) : List Registration → Recorder → Recorder
  | [], r => r
  | item :: rest, r =>
    let callback := r.callbackAt item.callback
    let r := r.emit (.calledAtStart callback.label ref)
    runStartCallbacks thread ref rest
      (runActs (handOver thread) thread callback.label ref callback.acts true r).2

def create (r : Recorder) (thread : Nat) (fresh : FreshIds) (q : SpanRequest) :
    SpanRef × Recorder :=
  let (ref, r) := r.build thread fresh q
  (ref, runStartCallbacks thread ref r.onStart.entries r)

/-- Builds a span, sets attributes of the library's own, and then shows it to the callbacks. -/
def createWith (r : Recorder) (thread : Nat) (fresh : FreshIds) (q : SpanRequest)
    (own : List (String × String)) : SpanRef × Recorder :=
  let (ref, r) := r.build thread fresh q
  let r := r.modify ref fun s => own.foldl (fun s e => s.setInternal e.1 (.text e.2)) s
  (ref, runStartCallbacks thread ref r.onStart.entries r)

/-- A span for a request over the network; the verb is put into upper case. -/
def createNetwork (r : Recorder) (thread : Nat) (fresh : FreshIds) (url verb : String)
    (q : SpanRequest) : SpanRef × Recorder :=
  let verb := UpperCase.text verb
  r.createWith thread fresh
    { q with name := "[HTTP/" ++ verb ++ "]", category := .network, kind := .client }
    [("http.url", url), ("http.method", verb)]

def createViewLoad (r : Recorder) (thread : Nat) (fresh : FreshIds) (viewType viewName : String)
    (q : SpanRequest) : SpanRef × Recorder :=
  r.createWith thread fresh
    { q with name := "[ViewLoad/" ++ viewType ++ "]" ++ viewName, category := .viewLoad }
    [("bugsnag.view.type", viewType), ("bugsnag.view.name", viewName)]

/-! ## Ending and discarding -/

def tryEnd (r : Recorder) (thread : Nat) (ref : SpanRef) (time : Ticks) : Bool × Recorder :=
  endWith (handOver thread) r thread ref time

def cancelTimers (r : Recorder) (timers : List Timer) : Recorder :=
  if r.timed then { r with deadlines := timers.foldl DeadlineQueue.cancel r.deadlines } else r

def discard (r : Recorder) (thread : Nat) (ref : SpanRef) : Bool × Recorder :=
  match (r.span? ref).bind Span.discard? with
  | none => (false, r)
  | some (timers, s) =>
    let r := (r.put ref s.freeze).cancelTimers timers
    (true, if s.makesContext then r.detach thread ref else r)

/-- Claims a span as processed outside a hand-over. -/
def claim (r : Recorder) (ref : SpanRef) : Bool × Recorder :=
  match (r.span? ref).bind Span.process? with
  | none => (false, r)
  | some s => (true, r.put ref s)

/-! ## Holding -/

def hold (r : Recorder) (ref : SpanRef) (timeout : Nanos) : Option HoldId × Recorder :=
  if !r.timed then (none, r)
  else
    let id := r.holds.size
    let timer : Timer := ⟨r.clock.ticks.toNat + min timeout Hold.longest, id⟩
    match (r.span? ref).bind (·.hold? timer) with
    | none => (none, r)
    | some s =>
      let r := r.put ref s
      (some id,
        { r with
          holds := r.holds.push ⟨ref, timer, false⟩
          heldHolds := id :: r.heldHolds
          deadlines := r.deadlines.schedule timer })

def isActive (r : Recorder) (id : HoldId) : Bool :=
  match r.holds[id]? with
  | some h => (r.span? h.span).any (·.isHeldBy id)
  | none => false

/-- Makes the release time of an active hold count; answers the context of the span. -/
def upgrade (r : Recorder) (id : HoldId) : Option SpanContext × Recorder :=
  match r.holds[id]? with
  | none => (none, r)
  | some h =>
    if r.isActive id then
      (r.contextOf? h.span,
        { r with holds := r.holds.setIfInBounds id { h with upgraded := true } })
    else (none, r)

def release (r : Recorder) (thread : Nat) (id : HoldId) (closeTime : Option Ticks) :
    Bool × Recorder :=
  match r.holds[id]? with
  | none => (false, r)
  | some h =>
    match (r.span? h.span).bind (·.release? id closeTime) with
    | none => (false, r)
    | some freed =>
      let r := ((r.put h.span freed.span).emit (.released id closeTime)).cancelTimers [freed.timer]
      (true, if freed.handOver then handOver thread r h.span else r)

/-- The time at which a hold is released, if it counts for the end of its span. -/
def countedTime (r : Recorder) (id : HoldId) (time : Ticks) : Option Ticks :=
  match r.holds[id]? with
  | some h => if h.upgraded then some time else none
  | none => none

def closeHold (r : Recorder) (thread : Nat) (id : HoldId) (time : Ticks) : Bool × Recorder :=
  r.release thread id (r.countedTime id time)

def cancelHold (r : Recorder) (thread : Nat) (id : HoldId) : Bool × Recorder :=
  r.release thread id none

/-- Releases a hold whose deadline has come. -/
def timeOut (r : Recorder) (thread : Nat) (t : Timer) : Recorder :=
  (r.closeHold thread t.hold t.ticks).2

def fireUpTo : Nat → Nat → Recorder → Recorder
  | 0, _, r => r
  | fuel + 1, thread, r =>
    match r.deadlines.popDue? r.clock.ticks.toNat with
    | none => r
    | some (t, deadlines) => fireUpTo fuel thread ({ r with deadlines }.timeOut thread t)

/-- Fires all deadlines that have come, in their order. -/
def fireDue (r : Recorder) (thread : Nat) : Recorder :=
  fireUpTo r.deadlines.timers.length thread r

end Recorder
end SpanRelay
