import SpanRelay.Recorder.Basic

/-!
Ending spans and handing them over. A hand-over claims the span, samples it, runs the end callbacks
and puts it into the backlog. Callbacks may end other spans, whose hand-over then nests; each level
has claimed a span of its own, so the depth is bounded by the number of spans.
-/
namespace SpanRelay.Recorder

/-- What is done with a span whose end is complete and that nothing holds. -/
abbrev HandOver := Recorder → SpanRef → Recorder

/-- Ends a span on a thread unless it has begun to end; answers whether this call ended it. -/
def endWith (hand : HandOver) (r : Recorder) (thread : Nat) (ref : SpanRef) (time : Ticks) :
    Bool × Recorder :=
  match (r.span? ref).bind Span.beginEnd? with
  | none => (false, r)
  | some begun =>
    let r := (r.put ref (begun.recordEnd time)).emit (.ended ref time)
    let r := if begun.makesContext then r.detach thread ref else r
    match (r.span? ref).map Span.finishEnd with
    | none => (true, r)
    | some (ready, finished) =>
      let r := r.put ref finished
      (true, if ready then hand r ref else r)

/-! ## Callbacks -/

/-- One act; answers whether it lets the span pass. -/
def perform (hand : HandOver) (thread : Nat) (label : String) (ref : SpanRef) (r : Recorder) :
    Act → Bool × Recorder
  | .set key value => (true, r.modify ref (·.setAttribute key value))
  | .copy source target =>
    (true, r.modify ref fun s =>
      s.setAttribute target ((s.attributes.get? source).getD (.bool false)))
  | .remove key => (true, r.modify ref fun s => (s.removeAttribute key).2)
  | .rename name => (true, r.modify ref (·.rename name))
  | .claim =>
    match (r.span? ref).bind Span.process? with
    | some s => (true, (r.put ref s).emit (.claimed label true))
    | none => (true, r.emit (.claimed label false))
  | .look =>
    match r.span? ref with
    | some s => (true, r.emit (.looked label s.name s.state s.isSealed s.attributes.size))
    | none => (true, r)
  | .veto => (false, r)
  | .vetoNamed name => (!(r.span? ref).any (·.name == name), r)
  | .vetoHaving key => (!(r.span? ref).any (·.attributes.contains key), r)
  | .fail => (true, r)
  | .enlist item => (true, { r with onEnd := (r.onEnd.add item).2 })
  | .finish other time => (true, (endWith hand r thread other time).2)

/-- The verdict of a callback: it keeps the span if no act vetoed or if it failed in the end. -/
def runActs (hand : HandOver) (thread : Nat) (label : String) (ref : SpanRef) :
    List Act → Bool → Recorder → Bool × Recorder
  | [], keep, r => (keep, r)
  | .fail :: _, _, r => (true, r)
  | act :: rest, keep, r =>
    let (passes, r) := perform hand thread label ref r act
    runActs hand thread label ref rest (keep && passes) r

def callbackAt (r : Recorder) (callback : CallbackRef) : Callback :=
  (r.callbacks[callback]?).getD ⟨"", true, []⟩

/-- Runs end callbacks in order up to the first veto. -/
def runEndCallbacks (hand : HandOver) (thread : Nat) (ref : SpanRef) :
    List Registration → Recorder → Bool × Recorder
  | [], r => (true, r)
  | item :: rest, r =>
    let callback := r.callbackAt item.callback
    let r := r.emit (.calledAtEnd callback.label ref)
    let (keep, r) := runActs hand thread callback.label ref callback.acts true r
    if keep then runEndCallbacks hand thread ref rest r else (false, r)

/-- The verdict of all end callbacks; the time they took is noted if there are any. -/
def judge (hand : HandOver) (thread : Nat) (ref : SpanRef) (r : Recorder) : Bool × Recorder :=
  if r.onEnd.isEmpty then (true, r)
  else
    let started := r.clock.ticks
    let (keep, r) := runEndCallbacks hand thread ref r.onEnd.entries r
    let elapsed := saturatingDifference r.clock.ticks started
    (keep, r.modify ref fun s =>
      s.setInternal Span.callbacksDurationKey (.int (Int64.ofNat elapsed.toNat)))

/-! ## Sampling -/

/-- Whether the sampler keeps a span; the span takes note of the probability. -/
def sample (r : Recorder) (ref : SpanRef) : Bool × Recorder :=
  match r.sampler with
  | .discarding => (false, r)
  | .probability sampler =>
    let p := sampler.probability r.clock.wallMillis
    match r.span? ref with
    | none => (false, r)
    | some s => (p.keeps s.samplingValue, r.put ref (s.setProbability p))

/-- The spans that the sampler keeps, in order. -/
def sampleAll : List SpanRef → Recorder → List SpanRef × Recorder
  | [], r => ([], r)
  | ref :: rest, r =>
    let (keep, r) := r.sample ref
    let (kept, r) := sampleAll rest r
    (if keep then ref :: kept else kept, r)

/-! ## Hand-over -/

def countEnded (r : Recorder) : Recorder :=
  { r with batcher := { r.batcher with ended := r.batcher.ended + 1 } }

def countSampledOut (r : Recorder) : Recorder :=
  { r with batcher := { r.batcher with sampledOut := r.batcher.sampledOut + 1 } }

def countRejected (r : Recorder) : Recorder :=
  { r with batcher := { r.batcher with rejected := r.batcher.rejected + 1 } }

/-- Puts a span into the backlog and wakes the worker when it has grown long enough. -/
def enqueue (r : Recorder) (ref : SpanRef) : Recorder :=
  let (backlog, r) := r.addTo r.batcher.backlog ref
  let r := { r with batcher := { r.batcher with backlog, batched := r.batcher.batched + 1 } }
  let r := r.emit (.batched ref)
  if r.batcher.trigger ≤ backlog.size then r.wakeWorker else r

/-- Claims a span for the backlog; one that is final already is left alone. -/
def receive (hand : HandOver) (thread : Nat) (r : Recorder) (ref : SpanRef) : Recorder :=
  match (r.span? ref).bind Span.process? with
  | none => r
  | some s =>
    let (sampledIn, r) := (r.put ref s).countEnded.sample ref
    if sampledIn then
      let (keep, r) := judge hand thread ref r
      if keep then (r.modify ref Span.freeze).enqueue ref
      else r.countRejected.modify ref Span.freeze
    else r.countSampledOut.modify ref Span.freeze

def handOverTo (thread : Nat) : Nat → HandOver
  | 0, r, _ => r
  | depth + 1, r, ref =>
    let r := r.emit (.handedOver ref)
    match r.sink with
    | .nowhere => r
    | .batch => receive (handOverTo thread depth) thread r ref

def handOver (thread : Nat) (r : Recorder) (ref : SpanRef) : Recorder :=
  handOverTo thread (r.spans.size + 1) r ref

end SpanRelay.Recorder
