import Mathlib.Logic.Relation
import SpanRelay.Proofs.Span
import SpanRelay.Recorder.Batches
import SpanRelay.Recorder.Lifecycle

/-!
The steps that operations of a recorder are made of, as far as spans, log and batcher go. A deed is
a step that also happens within a hand-over, where callbacks run; the other steps begin outside of
one. What is proved of every step holds of every run, however the hand-overs nest. Touches and
strides are the finer counterparts of deeds and steps, which tell all that changes.
-/
namespace SpanRelay

/-- Says what a callback did, or that it was called. -/
def Event.isNeutral : Event → Bool
  | .calledAtStart .. | .calledAtEnd .. | .claimed .. | .looked .. => true
  | _ => false

namespace Recorder

/-! ## Parts of a recorder -/

theorem span?_put {r : Recorder} {ref : SpanRef} {s : Span} (hs : r.span? ref = some s) (t : Span)
    (other : SpanRef) :
    (r.put ref t).span? other = if ref = other then some t else r.span? other := by
  have hlt : ref < r.spans.size := (Array.getElem?_eq_some_iff.mp hs).1
  unfold span? put
  rw [Array.getElem?_setIfInBounds]
  by_cases h : ref = other
  · rw [if_pos h, if_pos h, if_pos hlt]
  · rw [if_neg h, if_neg h]

theorem span?_put_self {r : Recorder} {ref : SpanRef} {s : Span} (hs : r.span? ref = some s)
    (t : Span) : (r.put ref t).span? ref = some t := by
  rw [span?_put hs, if_pos rfl]

theorem modify_of_span? {r : Recorder} {ref : SpanRef} {s : Span} (hs : r.span? ref = some s)
    (f : Span → Span) : r.modify ref f = r.put ref (f s) := by
  simp only [modify, hs]

theorem modify_of_none {r : Recorder} {ref : SpanRef} (hs : r.span? ref = none) (f : Span → Span) :
    r.modify ref f = r := by
  simp only [modify, hs]

/-- How many spans can still be ended. -/
def openCount (r : Recorder) : Nat := r.spans.countP (·.state.isOpen)

theorem openCount_put {r : Recorder} {ref : SpanRef} {s : Span} (hs : r.span? ref = some s)
    (t : Span) :
    (r.put ref t).openCount + (if s.state.isOpen then 1 else 0) =
      r.openCount + if t.state.isOpen then 1 else 0 := by
  obtain ⟨hlt, hget⟩ := Array.getElem?_eq_some_iff.mp hs
  have hpos : s.state.isOpen = true → 0 < r.spans.countP (·.state.isOpen) := fun ho =>
    Array.countP_pos_iff.mpr ⟨s, hget ▸ Array.getElem_mem hlt, ho⟩
  simp only [openCount, put, Array.setIfInBounds, dif_pos hlt, Array.countP_set, hget]
  split <;> rename_i ho
  · have := hpos ho
    omega
  · omega

/-- The same in all by which spans, their holds, callbacks and batches are followed. -/
structure Alike (r t : Recorder) : Prop where
  spans : t.spans = r.spans
  log : t.log = r.log
  links : t.links = r.links
  holds : t.holds = r.holds
  deadlines : t.deadlines = r.deadlines
  timed : t.timed = r.timed
  callbacks : t.callbacks = r.callbacks
  onStart : t.onStart = r.onStart
  backlog : t.batcher.backlog = r.batcher.backlog
  ended : t.batcher.ended = r.batcher.ended
  sampledOut : t.batcher.sampledOut = r.batcher.sampledOut
  rejected : t.batcher.rejected = r.batcher.rejected
  batched : t.batcher.batched = r.batcher.batched

theorem Alike.refl (r : Recorder) : r.Alike r :=
  ⟨rfl, rfl, rfl, rfl, rfl, rfl, rfl, rfl, rfl, rfl, rfl, rfl, rfl⟩

theorem Alike.trans {r t u : Recorder} (h : r.Alike t) (g : t.Alike u) : r.Alike u :=
  ⟨g.spans.trans h.spans, g.log.trans h.log, g.links.trans h.links, g.holds.trans h.holds,
    g.deadlines.trans h.deadlines, g.timed.trans h.timed, g.callbacks.trans h.callbacks,
    g.onStart.trans h.onStart, g.backlog.trans h.backlog, g.ended.trans h.ended,
    g.sampledOut.trans h.sampledOut, g.rejected.trans h.rejected, g.batched.trans h.batched⟩

theorem Alike.span? {r t : Recorder} (h : r.Alike t) (ref : SpanRef) :
    t.span? ref = r.span? ref := by
  unfold Recorder.span?
  rw [h.spans]

theorem Alike.put {r t : Recorder} (h : r.Alike t) (ref : SpanRef) (s : Span) :
    (r.put ref s).Alike (t.put ref s) := by
  refine ⟨?_, h.log, h.links, h.holds, h.deadlines, h.timed, h.callbacks, h.onStart, h.backlog,
    h.ended, h.sampledOut, h.rejected, h.batched⟩
  simp only [Recorder.put, h.spans]

theorem Alike.emit {r t : Recorder} (h : r.Alike t) (e : Event) :
    (r.emit e).Alike (t.emit e) := by
  refine ⟨h.spans, ?_, h.links, h.holds, h.deadlines, h.timed, h.callbacks, h.onStart, h.backlog,
    h.ended, h.sampledOut, h.rejected, h.batched⟩
  simp only [Recorder.emit, h.log]

/-- Work on the stack of a thread changes the stacks alone. -/
theorem exists_onStack_eq (r : Recorder) (thread : Nat) (f : ContextStack → ContextStack) :
    ∃ threadStacks, r.onStack thread f = { r with threadStacks } := by
  unfold onStack
  split
  · exact ⟨r.threadStacks, rfl⟩
  · exact ⟨_, rfl⟩

theorem alike_onStack (r : Recorder) (thread : Nat) (f : ContextStack → ContextStack) :
    r.Alike (r.onStack thread f) := by
  unfold onStack
  split
  · exact .refl r
  · exact ⟨rfl, rfl, rfl, rfl, rfl, rfl, rfl, rfl, rfl, rfl, rfl, rfl, rfl⟩

theorem alike_wakeWorker (r : Recorder) : r.Alike r.wakeWorker := by
  unfold wakeWorker
  split
  · exact ⟨rfl, rfl, rfl, rfl, rfl, rfl, rfl, rfl, rfl, rfl, rfl, rfl, rfl⟩
  · exact .refl r

/-- The observer is told of a hand-over, if there is one. -/
def announce (r : Recorder) (ready : Bool) (ref : SpanRef) : Recorder :=
  if ready then r.emit (.handedOver ref) else r

/-- The recorder once a span was put into the backlog. -/
def intoBacklog (r : Recorder) (ref : SpanRef) : Recorder :=
  let (backlog, links) := r.batcher.backlog.add r.links ref
  { r with links, batcher := { r.batcher with backlog, batched := r.batcher.batched + 1 } }.emit
    (.batched ref)

theorem alike_enqueue (r : Recorder) (ref : SpanRef) :
    (r.intoBacklog ref).Alike (r.enqueue ref) := by
  have hhandle : (r.intoBacklog ref).Alike ((r.intoBacklog ref).addHandle ref) :=
    ⟨rfl, rfl, rfl, rfl, rfl, rfl, rfl, rfl, rfl, rfl, rfl, rfl, rfl⟩
  unfold enqueue
  dsimp only
  split
  · exact hhandle.trans (alike_wakeWorker _)
  · exact hhandle

/-- No start callback claims the span that it is shown. -/
structure Quiet (r : Recorder) : Prop where
  acts : ∀ c ∈ r.callbacks, c.atEnd = false → ∀ act ∈ c.acts, act.claims = false
  starts : ∀ item ∈ r.onStart.entries, ∃ c, r.callbacks[item.callback]? = some c ∧ c.atEnd = false

end Recorder

/-! ## Steps -/

/-- A recorder in the middle of an operation, with the spans that were claimed by a hand-over which
is still under way, the innermost first. -/
structure Scene where
  recorder : Recorder
  underway : List SpanRef

open Recorder

/-- A step that may happen within a hand-over, whose effect on stacks, handles and clock is left
open. A span is claimed by hand-overs only unless claiming is free. -/
inductive Deed (free : Bool) : Scene → Scene → Prop where
  | aside {r t : Recorder} {U : List SpanRef} (h : r.Alike t) : Deed free ⟨r, U⟩ ⟨t, U⟩
  | note {r : Recorder} {U : List SpanRef} {e : Event} (h : e.isNeutral = true) :
      Deed free ⟨r, U⟩ ⟨r.emit e, U⟩
  | edit {r : Recorder} {U : List SpanRef} {ref : SpanRef} {s t : Span}
      (hs : r.span? ref = some s) (h : s.Edit t) : Deed free ⟨r, U⟩ ⟨r.put ref t, U⟩
  | inform {r : Recorder} {U : List SpanRef} {ref : SpanRef} {s : Span}
      (hs : r.span? ref = some s) (a : Attributes) :
      Deed free ⟨r, ref :: U⟩ ⟨r.put ref { s with attributes := a }, ref :: U⟩
  | sample {r : Recorder} {U : List SpanRef} {ref : SpanRef} {s : Span}
      (hs : r.span? ref = some s) (p : Binary64) :
      Deed free ⟨r, U⟩ ⟨r.put ref (s.setProbability p), U⟩
  | finish {r : Recorder} {U : List SpanRef} {ref : SpanRef} {s : Span}
      (hs : r.span? ref = some s) (ho : s.state.isOpen = true) (time : Ticks) :
      Deed free ⟨r, U⟩
        ⟨((r.put ref (s.closed time)).emit (.ended ref time)).announce (s.state == .opened) ref, U⟩
  | claim {r : Recorder} {U : List SpanRef} {ref : SpanRef} {s t : Span} (hf : free = true)
      (hs : r.span? ref = some s) (hp : s.process? = some t) : Deed free ⟨r, U⟩ ⟨r.put ref t, U⟩
  | receive {r : Recorder} {U : List SpanRef} {ref : SpanRef} {s t : Span}
      (hs : r.span? ref = some s) (hp : s.process? = some t)
      (hf : free = false → s.state = .ended) :
      Deed free ⟨r, U⟩ ⟨(r.put ref t).countEnded, ref :: U⟩
  | sampleOut {r : Recorder} {U : List SpanRef} {ref : SpanRef} :
      Deed free ⟨r, ref :: U⟩ ⟨r.countSampledOut.modify ref Span.freeze, U⟩
  | reject {r : Recorder} {U : List SpanRef} {ref : SpanRef} :
      Deed free ⟨r, ref :: U⟩ ⟨r.countRejected.modify ref Span.freeze, U⟩
  | enqueue {r : Recorder} {U : List SpanRef} {ref : SpanRef} :
      Deed free ⟨r, ref :: U⟩ ⟨(r.modify ref Span.freeze).intoBacklog ref, U⟩

abbrev Deeds (free : Bool) : Scene → Scene → Prop := Relation.ReflTransGen (Deed free)

/-! ## What a deed does to a span -/

namespace Recorder

theorem span?_announce (r : Recorder) (ready : Bool) (ref other : SpanRef) :
    (r.announce ready ref).span? other = r.span? other := by
  unfold announce
  split <;> rfl

theorem span?_put_cases {r : Recorder} {ref other : SpanRef} {s t u : Span}
    (hs : r.span? ref = some s) (hu : r.span? other = some u) (hc : s.Change t) :
    ∃ v, (r.put ref t).span? other = some v ∧ u.Change v := by
  rw [span?_put hs]
  by_cases h : ref = other
  · subst h
    obtain rfl := Option.some.inj (hs.symm.trans hu)
    exact ⟨t, if_pos rfl, hc⟩
  · exact ⟨u, by rw [if_neg h, hu], .none⟩

theorem span?_modify_freeze {r : Recorder} {other : SpanRef} {u : Span}
    (hu : r.span? other = some u) (ref : SpanRef) :
    ∃ v, (r.modify ref Span.freeze).span? other = some v ∧ u.Change v := by
  cases hs : r.span? ref with
  | none => exact ⟨u, by rw [modify_of_none hs, hu], .none⟩
  | some s =>
    rw [modify_of_span? hs]
    exact span?_put_cases hs hu .freeze

end Recorder

theorem Deed.span? {free : Bool} {a b : Scene} (h : Deed free a b) {ref : SpanRef} {s : Span}
    (hs : a.recorder.span? ref = some s) :
    ∃ t, b.recorder.span? ref = some t ∧ s.Change t := by
  cases h with
  | aside h => exact ⟨s, (h.span? ref).trans hs, .none⟩
  | note => exact ⟨s, hs, .none⟩
  | edit hs' h => exact span?_put_cases hs' hs (.edit h)
  | inform hs' a => exact span?_put_cases hs' hs (.inform a _)
  | sample hs' p => exact span?_put_cases hs' hs (.inform _ p)
  | finish hs' ho time =>
    rw [span?_announce]
    exact span?_put_cases hs' hs (.close ho time)
  | claim hf hs' hp => exact span?_put_cases hs' hs (.process hp)
  | receive hs' hp hf => exact span?_put_cases hs' hs (.process hp)
  | sampleOut => exact span?_modify_freeze (r := Recorder.countSampledOut _) hs _
  | reject => exact span?_modify_freeze (r := Recorder.countRejected _) hs _
  | enqueue => exact span?_modify_freeze hs _

namespace Recorder

theorem callbacks_modify (r : Recorder) (ref : SpanRef) (f : Span → Span) :
    (r.modify ref f).callbacks = r.callbacks ∧ (r.modify ref f).onStart = r.onStart := by
  unfold modify
  split <;> exact ⟨rfl, rfl⟩

theorem callbacks_announce (r : Recorder) (ready : Bool) (ref : SpanRef) :
    (r.announce ready ref).callbacks = r.callbacks ∧
      (r.announce ready ref).onStart = r.onStart := by
  unfold announce
  split <;> exact ⟨rfl, rfl⟩

theorem openCount_congr {r t : Recorder} (h : t.spans = r.spans) : t.openCount = r.openCount := by
  unfold openCount
  rw [h]

/-- No change makes a span open. -/
theorem openCount_put_le {r : Recorder} {ref : SpanRef} {s t : Span} (hs : r.span? ref = some s)
    (h : t.state.isOpen = true → s.state.isOpen = true) :
    (r.put ref t).openCount ≤ r.openCount := by
  have hc := openCount_put hs t
  by_cases ho : t.state.isOpen = true
  · simp only [h ho, ho, if_true] at hc
    omega
  · simp only [ho, Bool.false_eq_true, if_false] at hc
    omega

theorem openCount_modify_freeze (r : Recorder) (ref : SpanRef) :
    (r.modify ref Span.freeze).openCount ≤ r.openCount := by
  cases hs : r.span? ref with
  | none => simp only [modify_of_none hs, Nat.le_refl]
  | some s =>
    rw [modify_of_span? hs]
    exact openCount_put_le hs id

end Recorder

theorem Deed.callbacks {free : Bool} {a b : Scene} (h : Deed free a b) :
    b.recorder.callbacks = a.recorder.callbacks ∧ b.recorder.onStart = a.recorder.onStart := by
  cases h with
  | aside h => exact ⟨h.callbacks, h.onStart⟩
  | finish => exact callbacks_announce _ _ _
  | sampleOut => exact callbacks_modify _ _ _
  | reject => exact callbacks_modify _ _ _
  | @enqueue r U ref => exact callbacks_modify r ref Span.freeze
  | _ => exact ⟨rfl, rfl⟩

theorem Deed.openCount_le {free : Bool} {a b : Scene} (h : Deed free a b) :
    b.recorder.openCount ≤ a.recorder.openCount := by
  cases h with
  | aside h => exact Nat.le_of_eq (openCount_congr h.spans)
  | note => exact Nat.le_refl _
  | edit hs h => exact openCount_put_le hs fun ho => h.state_pending.1 ▸ ho
  | inform hs a => exact openCount_put_le hs id
  | sample hs p => exact openCount_put_le hs id
  | @finish r U ref s hs ho time =>
    have hspans : (((r.put ref (s.closed time)).emit (.ended ref time)).announce
        (s.state == .opened) ref).spans = (r.put ref (s.closed time)).spans := by
      unfold announce
      split <;> rfl
    rw [openCount_congr hspans]
    exact openCount_put_le hs fun _ => ho
  | claim hf hs hp =>
    refine openCount_put_le hs fun ho => ?_
    rw [(Span.process?_eq_some hp).2] at ho
    contradiction
  | receive hs hp hf =>
    refine openCount_put_le hs fun ho => ?_
    rw [(Span.process?_eq_some hp).2] at ho
    contradiction
  | sampleOut => exact openCount_modify_freeze (Recorder.countSampledOut _) _
  | reject => exact openCount_modify_freeze (Recorder.countRejected _) _
  | @enqueue r U ref => exact openCount_modify_freeze r ref

/-! ## What a run of deeds leaves as it is -/

theorem Deeds.callbacks {free : Bool} {a b : Scene} (h : Deeds free a b) :
    b.recorder.callbacks = a.recorder.callbacks ∧ b.recorder.onStart = a.recorder.onStart := by
  induction h with
  | refl => exact ⟨rfl, rfl⟩
  | tail _ hd ih => exact ⟨hd.callbacks.1.trans ih.1, hd.callbacks.2.trans ih.2⟩

theorem Deeds.openCount_le {free : Bool} {a b : Scene} (h : Deeds free a b) :
    b.recorder.openCount ≤ a.recorder.openCount := by
  induction h with
  | refl => exact Nat.le_refl _
  | tail _ hd ih => exact Nat.le_trans hd.openCount_le ih

/-- A span that is final is found in the same state after any deeds. -/
theorem Deeds.state_of_isFinal {free : Bool} {a b : Scene} (h : Deeds free a b) {ref : SpanRef}
    {s : Span} (hs : a.recorder.span? ref = some s) (hf : s.state.isFinal = true) :
    ∃ t, b.recorder.span? ref = some t ∧ t.state = s.state := by
  induction h with
  | refl => exact ⟨s, hs, rfl⟩
  | tail _ hd ih =>
    obtain ⟨t, ht, hst⟩ := ih
    obtain ⟨u, hu, hc⟩ := hd.span? ht
    exact ⟨u, hu, (hc.state_of_isFinal (hst ▸ hf)).trans hst⟩

end SpanRelay
