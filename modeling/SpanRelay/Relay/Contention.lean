import SpanRelay.Relay.Run

/-!
Flushing a relay while its worker sends, one atomic step at a time. A flush demands a batch and only
then wakes the worker; the send task reads the clock, takes the demand back, and detaches what waits
if a batch is due.
-/
namespace SpanRelay

/-- Takes the backlog out. -/
def Recorder.detachBacklog (r : Recorder) : List SpanRef × Recorder :=
  let ((detached, backlog), r) := r.takeFrom r.batcher.backlog
  (detached, { r with batcher := { r.batcher with backlog } }.emit (.detached detached))

namespace Relay

def modifyBatcher (y : Relay) (f : Batcher → Batcher) : Relay :=
  { y with recorder := { y.recorder with batcher := f y.recorder.batcher } }

/-! ## A flush -/

/-- The next step of a flush. -/
inductive FlushPoint where
  | demanding
  /-- Does the batcher know a worker? -/
  | looking
  | rousing
  | waking
  | returned
  deriving DecidableEq, Repr

def FlushPoint.advance (y : Relay) : FlushPoint → FlushPoint × Relay
  | .demanding => (.looking, y.modifyBatcher fun b => { b with forced := true })
  | .looking => (if y.recorder.batcher.bound then .rousing else .waking, y)
  | .rousing => (.waking, Signalled.raiseWake y)
  | .waking => (.returned, Signalled.raiseWake y)
  | .returned => (.returned, y)

/-! ## A turn of the send task -/

/-- Delivers a batch, with whatever comes of it. -/
abbrev Courier := List SpanRef → Relay → TaskResult × Relay

def routeCourier (route : Route) : Courier := fun spans y =>
  let (result, y) := y.deliverSpans route spans y.resource
  (.done result.isSuccess, y)

/-- Sends each batch by a courier. -/
def courierTask (deliver : Courier) : Task Relay where
  attach := bindWorker
  execute y :=
    match y.record Recorder.collectNextBatch with
    | (none, y) => (.done false, y)
    | (some spans, y) => if spans.isEmpty then (.done false, y) else deliver spans y
  detach := id

/-- The next step of a turn of the send task. -/
inductive SendPoint where
  | reading
  | dating (now : Ticks)
  | asking (now age : Ticks)
  | weighing (now age : Ticks) (forced : Bool)
  | stamping (now : Ticks)
  | detaching
  | sampling (detached : List SpanRef)
  | delivering (kept : List SpanRef)
  | answered (result : TaskResult)
  deriving DecidableEq, Repr

def SendPoint.advance (deliver : Courier) (y : Relay) : SendPoint → SendPoint × Relay
  | .reading => (.dating y.recorder.clock.ticks, y)
  | .dating now => (.asking now (saturatingDifference now y.recorder.batcher.lastBatch), y)
  | .asking now age =>
    (.weighing now age y.recorder.batcher.forced,
      y.modifyBatcher fun b => { b with forced := false })
  | .weighing now age forced =>
    let b := y.recorder.batcher
    let due := forced || decide (b.trigger ≤ b.backlog.size) || decide (b.timeout.saturated ≤ age)
    (if due then .stamping now else .answered (.done false), y)
  | .stamping now => (.detaching, y.modifyBatcher fun b => { b with lastBatch := now })
  | .detaching =>
    let (detached, y) := y.record Recorder.detachBacklog
    (.sampling detached, y)
  | .sampling detached =>
    let (kept, y) := y.record (Recorder.sampleAll detached)
    (if kept.isEmpty then .answered (.done false) else .delivering kept, y)
  | .delivering kept =>
    let (result, y) := deliver kept y
    (.answered result, y)
  | .answered result => (.answered result, y)

end Relay
end SpanRelay
