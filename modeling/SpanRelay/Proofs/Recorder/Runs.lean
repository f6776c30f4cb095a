import SpanRelay.Proofs.Recorder.HandOverSteps

/-!
The steps that begin outside of a hand-over, and what every sequence of steps leaves as it is: final
states, start callbacks that claim nothing, and what is seen outside.
-/
namespace SpanRelay

namespace Recorder

/-- The recorder once its backlog was taken out, before the spans are sampled again. -/
def emptied (r : Recorder) : Recorder :=
  let ((detached, backlog), r) := r.takeFrom r.batcher.backlog
  let batcher := { r.batcher with lastBatch := r.clock.ticks, backlog }
  { r with batcher }.emit (.detached detached)

/-- The queue of deadlines when a hold is released: as it was, or without the timer that fired. -/
def QueueFor (r : Recorder) (id : HoldId) (q : DeadlineQueue) : Prop :=
  q = r.deadlines ∨ ∃ timer now, r.deadlines.popDue? now = some (timer, q) ∧ timer.hold = id

end Recorder

open Recorder

/-- A step of an operation: a deed, or one that is made outside of every hand-over. -/
inductive Step (free : Bool) : Scene → Scene → Prop where
  | deed {a b : Scene} (h : Deed free a b) : Step free a b
  | create {r : Recorder} {U : List SpanRef} {s : Span} (hs : s.Fresh) :
      Step free ⟨r, U⟩ ⟨{ r with spans := r.spans.push s }, U⟩
  | furnish {r : Recorder} {U : List SpanRef} {ref : SpanRef} {s : Span}
      (hs : r.span? ref = some s) (hf : s.Fresh) (a : Attributes) :
      Step free ⟨r, U⟩ ⟨r.put ref { s with attributes := a }, U⟩
  | discard {r : Recorder} {U : List SpanRef} {ref : SpanRef} {s t : Span} {timers : List Timer}
      (hs : r.span? ref = some s) (hd : s.discard? = some (timers, t)) :
      Step free ⟨r, U⟩ ⟨(r.put ref t.freeze).cancelTimers timers, U⟩
  | hold {r : Recorder} {U : List SpanRef} {ref : SpanRef} {s t : Span} {timer : Timer}
      (hs : r.span? ref = some s) (hi : timer.hold = r.holds.size) (hh : s.hold? timer = some t)
      (ht : r.timed = true) :
      Step free ⟨r, U⟩
        ⟨{ r.put ref t with
            holds := r.holds.push ⟨ref, timer, false⟩
            deadlines := r.deadlines.schedule timer }, U⟩
  | upgrade {r : Recorder} {U : List SpanRef} {id : HoldId} {h : Hold} (hh : r.holds[id]? = some h)
      (ha : r.isActive id = true) :
      Step free ⟨r, U⟩
        ⟨{ r with holds := r.holds.setIfInBounds id { h with upgraded := true } }, U⟩
  | release {r : Recorder} {U : List SpanRef} {id : HoldId} {h : Hold} {s : Span}
      {time : Option Ticks} {freed : Span.Release} {q : DeadlineQueue}
      (hh : r.holds[id]? = some h) (hs : r.span? h.span = some s)
      (hr : s.release? id time = some freed) (hq : r.QueueFor id q)
      (ht : time.isSome = true → h.upgraded = true) :
      Step free ⟨r, U⟩
        ⟨((({ r with deadlines := q }.put h.span freed.span).emit (.released id time)).cancelTimers
          [freed.timer]).announce freed.handOver h.span, U⟩
  | lapse {r : Recorder} {U : List SpanRef} {timer : Timer} {now : Nanos} {q : DeadlineQueue}
      (hp : r.deadlines.popDue? now = some (timer, q)) (ha : r.isActive timer.hold = false) :
      Step free ⟨r, U⟩ ⟨{ r with deadlines := q }, U⟩
  | present {r : Recorder} {U : List SpanRef} (hf : free = true) (ref : SpanRef) :
      Step free ⟨r, U⟩ ⟨r.emit (.handedOver ref), U⟩
  | detach {r : Recorder} {U : List SpanRef} : Step free ⟨r, U⟩ ⟨r.emptied, U⟩
  | enrol {r : Recorder} {U : List SpanRef} {callbacks : Array Callback} {onStart : Registry}
      (hq : free = false → r.Quiet → { r with callbacks, onStart }.Quiet) :
      Step free ⟨r, U⟩ ⟨{ r with callbacks, onStart }, U⟩

abbrev Steps (free : Bool) : Scene → Scene → Prop := Relation.ReflTransGen (Step free)

theorem Deeds.steps {free : Bool} {a b : Scene} (h : Deeds free a b) : Steps free a b :=
  Relation.ReflTransGen.mono (fun _ _ => Step.deed) _ _ h

/-! ## What every step leaves as it is -/

namespace Recorder

theorem Quiet.congr {r t : Recorder} (h : r.Quiet)
    (hc : t.callbacks = r.callbacks ∧ t.onStart = r.onStart) : t.Quiet := by
  refine ⟨?_, ?_⟩
  · rw [hc.1]
    exact h.acts
  · rw [hc.1, hc.2]
    exact h.starts

theorem exists_foldr_dropHandle_eq (batch : List SpanRef) (r : Recorder) :
    ∃ handles, batch.foldr (fun ref r => r.dropHandle ref) r = { r with handles } := by
  induction batch with
  | nil => exact ⟨r.handles, rfl⟩
  | cons ref batch ih =>
    obtain ⟨handles, hh⟩ := ih
    rw [List.foldr_cons, hh]
    exact ⟨handles.erase ref, rfl⟩

/-- Taking out the backlog changes the backlog and its links, and is noted. -/
theorem exists_emptied_eq (r : Recorder) :
    ∃ handles, r.emptied =
      { r with
        handles
        links := (r.batcher.backlog.takeBatch r.links).2.2
        batcher := { r.batcher with
          lastBatch := r.clock.ticks
          backlog := (r.batcher.backlog.takeBatch r.links).2.1 }
        log := .detached (r.batcher.backlog.takeBatch r.links).1 :: r.log } := by
  obtain ⟨handles, hh⟩ := exists_foldr_dropHandle_eq (r.batcher.backlog.takeBatch r.links).1
    { r with links := (r.batcher.backlog.takeBatch r.links).2.2 }
  refine ⟨handles, ?_⟩
  unfold emptied takeFrom
  dsimp only
  rw [hh]
  rfl

theorem callbacks_cancelTimers (r : Recorder) (timers : List Timer) :
    (r.cancelTimers timers).callbacks = r.callbacks ∧
      (r.cancelTimers timers).onStart = r.onStart := by
  unfold cancelTimers
  split <;> exact ⟨rfl, rfl⟩

end Recorder

/-- A recorder whose start callbacks claim nothing stays such a one. -/
theorem Step.quiet {free : Bool} {a b : Scene} (h : Step free a b)
    (hq : free = true ∨ a.recorder.Quiet) : free = true ∨ b.recorder.Quiet := by
  rcases hq with hf | hq
  · exact .inl hf
  cases h with
  | deed h => exact .inr (hq.congr h.callbacks)
  | discard => exact .inr (hq.congr (callbacks_cancelTimers _ _))
  | release =>
    refine .inr (hq.congr ?_)
    exact ⟨(callbacks_announce _ _ _).1.trans (callbacks_cancelTimers _ _).1,
      (callbacks_announce _ _ _).2.trans (callbacks_cancelTimers _ _).2⟩
  | @detach r U =>
    obtain ⟨handles, heq⟩ := exists_emptied_eq r
    exact .inr (hq.congr (by rw [heq]; exact ⟨rfl, rfl⟩))
  | enrol hkeep =>
    cases free with
    | true => exact .inl rfl
    | false => exact .inr (hkeep rfl hq)
  | _ => exact .inr (hq.congr ⟨rfl, rfl⟩)

theorem Steps.quiet {free : Bool} {a b : Scene} (h : Steps free a b)
    (hq : free = true ∨ a.recorder.Quiet) : free = true ∨ b.recorder.Quiet := by
  induction h with
  | refl => exact hq
  | tail _ hs ih => exact hs.quiet ih

/-! ## What a step does to a span -/

namespace Recorder

theorem span?_cancelTimers (r : Recorder) (timers : List Timer) (ref : SpanRef) :
    (r.cancelTimers timers).span? ref = r.span? ref := by
  unfold cancelTimers
  split <;> rfl

theorem log_cancelTimers (r : Recorder) (timers : List Timer) :
    (r.cancelTimers timers).log = r.log := by
  unfold cancelTimers
  split <;> rfl

theorem log_modify (r : Recorder) (ref : SpanRef) (f : Span → Span) :
    (r.modify ref f).log = r.log := by
  unfold modify
  split <;> rfl

theorem span?_put_turn {r : Recorder} {ref other : SpanRef} {s t u : Span}
    (hs : r.span? ref = some s) (hu : r.span? other = some u) (ht : s.Turn t) :
    ∃ v, (r.put ref t).span? other = some v ∧ u.Turn v := by
  rw [span?_put hs]
  by_cases h : ref = other
  · subst h
    obtain rfl := Option.some.inj (hs.symm.trans hu)
    exact ⟨t, if_pos rfl, ht⟩
  · exact ⟨u, by rw [if_neg h, hu], .change .none⟩

end Recorder

theorem Step.span? {free : Bool} {a b : Scene} (h : Step free a b) {ref : SpanRef} {s : Span}
    (hs : a.recorder.span? ref = some s) :
    ∃ t, b.recorder.span? ref = some t ∧ s.Turn t := by
  cases h with
  | deed h =>
    obtain ⟨t, ht, hc⟩ := h.span? hs
    exact ⟨t, ht, .change hc⟩
  | create hf =>
    refine ⟨s, ?_, .change .none⟩
    have hlt := (Array.getElem?_eq_some_iff.mp hs).1
    exact (Array.getElem?_push_lt hlt).trans (Array.getElem?_eq_getElem hlt ▸ hs)
  | furnish hs' hf a => exact span?_put_turn hs' hs (.change (.inform a _))
  | discard hs' hd =>
    simp only [span?_cancelTimers]
    exact span?_put_turn hs' hs (.discard hd)
  | hold hs' hi hh ht => exact span?_put_turn hs' hs (.hold hh)
  | release hh hs' hr hq ht =>
    simp only [span?_announce, span?_cancelTimers]
    exact span?_put_turn hs' hs (.release hr)
  | @detach r U =>
    obtain ⟨handles, heq⟩ := exists_emptied_eq r
    refine ⟨s, ?_, .change .none⟩
    rw [heq]
    exact hs
  | _ => exact ⟨s, hs, .change .none⟩

/-- A span that is final is found in the same state after any steps. -/
theorem Steps.state_of_isFinal {free : Bool} {a b : Scene} (h : Steps free a b) {ref : SpanRef}
    {s : Span} (hs : a.recorder.span? ref = some s) (hf : s.state.isFinal = true) :
    ∃ t, b.recorder.span? ref = some t ∧ t.state = s.state := by
  induction h with
  | refl => exact ⟨s, hs, rfl⟩
  | tail _ hone ih =>
    obtain ⟨t, ht, hst⟩ := ih
    obtain ⟨u, hu, hturn⟩ := hone.span? ht
    exact ⟨u, hu, (hturn.state_of_isFinal (hst ▸ hf)).trans hst⟩

/-! ## What is seen outside -/

namespace Recorder

/-- What a remote end or a plugin has seen, newest first. -/
def outside (r : Recorder) : List Event := r.log.filter Event.isOutside

theorem outside_congr {r t : Recorder} (h : t.log = r.log) : t.outside = r.outside :=
  congrArg (List.filter Event.isOutside) h

theorem outside_emit (r : Recorder) {e : Event} (he : e.isOutside = false) :
    (r.emit e).outside = r.outside := List.filter_cons_of_neg (by simp [he])

theorem outside_announce (r : Recorder) (ready : Bool) (ref : SpanRef) :
    (r.announce ready ref).outside = r.outside := by
  unfold announce
  split
  · exact outside_emit r rfl
  · rfl

/-- What is read off the events that are seen outside depends on them alone. -/
theorem filterMap_log_congr {α : Type} {f : Event → Option α}
    (hf : ∀ e, e.isOutside = false → f e = none) {r t : Recorder} (h : t.outside = r.outside) :
    t.log.filterMap f = r.log.filterMap f := by
  have hsame : (fun e : Event => if e.isOutside then f e else none) = f := by
    funext e
    cases he : e.isOutside with
    | false => exact (hf e he).symm
    | true => rfl
  have hall : ∀ log : List Event, (log.filter Event.isOutside).filterMap f = log.filterMap f :=
    fun log => by rw [List.filterMap_filter, hsame]
  rw [← hall, ← hall r.log]
  exact congrArg (List.filterMap f) h

theorem filterMap_log_emit {α : Type} {f : Event → Option α}
    (hf : ∀ e, e.isOutside = false → f e = none) {r t : Recorder} (h : t.outside = r.outside)
    (e : Event) : (t.emit e).log.filterMap f = (f e).toList ++ r.log.filterMap f := by
  rw [← filterMap_log_congr hf h]
  unfold emit
  cases he : f e with
  | none => exact List.filterMap_cons_none he
  | some x => exact List.filterMap_cons_some he

end Recorder

theorem Deed.outside {free : Bool} {a b : Scene} (h : Deed free a b) :
    b.recorder.outside = a.recorder.outside := by
  cases h with
  | aside ha => exact outside_congr ha.log
  | @note r U e hn => exact outside_emit r (by cases e <;> first | contradiction | rfl)
  | @finish r U ref s hs ho time =>
    exact (outside_announce _ _ _).trans (outside_emit (e := .ended ref time) _ rfl)
  | sampleOut => exact outside_congr (log_modify _ _ _)
  | reject => exact outside_congr (log_modify _ _ _)
  | @enqueue r U ref =>
    exact (outside_emit (e := .batched ref) _ rfl).trans (outside_congr (log_modify r ref _))
  | _ => rfl

theorem Step.outside {free : Bool} {a b : Scene} (h : Step free a b) :
    b.recorder.outside = a.recorder.outside := by
  cases h with
  | deed h => exact h.outside
  | discard => exact outside_congr (log_cancelTimers _ _)
  | @release r U id h s time freed q hh hs hr hq ht =>
    refine (outside_announce _ _ _).trans ((outside_congr (log_cancelTimers _ _)).trans ?_)
    exact outside_emit (e := .released id time) _ rfl
  | @present r U hfree ref => exact outside_emit r (e := .handedOver ref) rfl
  | @detach r U =>
    obtain ⟨handles, heq⟩ := exists_emptied_eq r
    rw [heq]
    exact outside_emit r (e := .detached _) rfl
  | _ => rfl

theorem Steps.outside {free : Bool} {a b : Scene} (h : Steps free a b) :
    b.recorder.outside = a.recorder.outside := by
  induction h with
  | refl => rfl
  | tail _ hs ih => exact hs.outside.trans ih

end SpanRelay
