import SpanRelay.Recorder.HandOver

/-! Taking batches out of the backlog: when it is long enough, old enough, or when it is forced. -/
namespace SpanRelay.Recorder

def batchIsDue (b : Batcher) (now : Ticks) : Bool :=
  b.forced || decide (b.trigger ≤ b.backlog.size) ||
    decide (b.timeout.saturated ≤ saturatingDifference now b.lastBatch)

/-- Whether a batch is due; a batch is forced only once. -/
def askForBatch (r : Recorder) : Bool × Recorder :=
  (batchIsDue r.batcher r.clock.ticks, { r with batcher := { r.batcher with forced := false } })

/-- Detaches the backlog, and answers the spans that the sampler still keeps. -/
def detachBatch (r : Recorder) : List SpanRef × Recorder :=
  let ((detached, backlog), r) := r.takeFrom r.batcher.backlog
  let batcher := { r.batcher with lastBatch := r.clock.ticks, backlog }
  sampleAll detached ({ r with batcher }.emit (.detached detached))

def collectNextBatch (r : Recorder) : Option (List SpanRef) × Recorder :=
  let (due, r) := r.askForBatch
  if due then
    let (kept, r) := r.detachBatch
    (some kept, r)
  else (none, r)

/-- The next batch is due in any case. -/
def forceCurrentBatch (r : Recorder) : Recorder :=
  { r with batcher := { r.batcher with forced := true } }.wakeWorker

end SpanRelay.Recorder
