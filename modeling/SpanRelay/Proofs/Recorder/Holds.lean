import SpanRelay.Proofs.Hold
import SpanRelay.Proofs.Recorder.Touches

/-!
What becomes of holds and their deadlines. A hold that is pending is found in two places, on its
span and in the queue of deadlines; five operations change both, and all others leave both alone.
-/
namespace SpanRelay

open Recorder

namespace Recorder

/-- The timers of the holds that are pending on a span. -/
def pendingOf (r : Recorder) (ref : SpanRef) : List Timer := (r.span? ref).elim [] Span.pending

/-- The latest time at which an upgraded hold of a span was released. -/
def extensionOf (r : Recorder) (ref : SpanRef) : Ticks := (r.span? ref).elim 0 Span.extension

/-- The holds and their timers are the same. -/
structure SameHolds (r t : Recorder) : Prop where
  holds : t.holds = r.holds
  timed : t.timed = r.timed
  clock : t.clock = r.clock
  deadlines : t.deadlines = r.deadlines
  pendingOf : ∀ ref, t.pendingOf ref = r.pendingOf ref
  extensionOf : ∀ ref, t.extensionOf ref = r.extensionOf ref

variable {r t u : Recorder} {ref : SpanRef} {s v : Span}

theorem pendingOf_of_span? (hs : r.span? ref = some s) : r.pendingOf ref = s.pending := by
  unfold pendingOf
  rw [hs, Option.elim_some]

theorem extensionOf_of_span? (hs : r.span? ref = some s) : r.extensionOf ref = s.extension := by
  unfold extensionOf
  rw [hs, Option.elim_some]

theorem pendingOf_put (hs : r.span? ref = some s) (v : Span) (other : SpanRef) :
    (r.put ref v).pendingOf other = if ref = other then v.pending else r.pendingOf other := by
  unfold pendingOf
  rw [span?_put hs]
  split <;> rfl

theorem extensionOf_put (hs : r.span? ref = some s) (v : Span) (other : SpanRef) :
    (r.put ref v).extensionOf other = if ref = other then v.extension else r.extensionOf other := by
  unfold extensionOf
  rw [span?_put hs]
  split <;> rfl

/-! ## What leaves holds alone -/

theorem SameHolds.refl (r : Recorder) : r.SameHolds r :=
  ⟨rfl, rfl, rfl, rfl, fun _ => rfl, fun _ => rfl⟩

/-- With the same spans, the holds and their timers are the same. -/
theorem SameHolds.of_spans (holds : t.holds = r.holds) (timed : t.timed = r.timed)
    (clock : t.clock = r.clock) (deadlines : t.deadlines = r.deadlines)
    (spans : t.spans = r.spans) : r.SameHolds t := by
  have hspan : ∀ ref, t.span? ref = r.span? ref := by
    intro ref
    unfold span?
    rw [spans]
  constructor
  · exact holds
  · exact timed
  · exact clock
  · exact deadlines
  · intro ref
    unfold Recorder.pendingOf
    rw [hspan]
  · intro ref
    unfold Recorder.extensionOf
    rw [hspan]

theorem SameHolds.trans (h : r.SameHolds t) (g : t.SameHolds u) : r.SameHolds u :=
  ⟨g.holds.trans h.holds, g.timed.trans h.timed, g.clock.trans h.clock,
    g.deadlines.trans h.deadlines, fun ref => (g.pendingOf ref).trans (h.pendingOf ref),
    fun ref => (g.extensionOf ref).trans (h.extensionOf ref)⟩

theorem sameHolds_put (hs : r.span? ref = some s)
    (hv : v.pending = s.pending ∧ v.extension = s.extension) : r.SameHolds (r.put ref v) := by
  constructor
  · rfl
  · rfl
  · rfl
  · rfl
  · intro other
    rw [pendingOf_put hs]
    split
    next h => rw [hv.1, ← h, pendingOf_of_span? hs]
    next => rfl
  · intro other
    rw [extensionOf_put hs]
    split
    next h => rw [hv.2, ← h, extensionOf_of_span? hs]
    next => rfl

theorem sameHolds_onStack (r : Recorder) (thread : Nat) (f : ContextStack → ContextStack) :
    r.SameHolds (r.onStack thread f) := by
  unfold onStack
  split
  · exact .refl r
  · exact .of_spans rfl rfl rfl rfl rfl

end Recorder

theorem Touch.sameHolds {K : SpanRef → Prop} {r t : Recorder} (h : Touch K r t) :
    r.SameHolds t := by
  cases h with
  | edit hk hs h => exact sameHolds_put hs ⟨h.state_pending.2, h.extension⟩
  | inform hk hs key value => exact sameHolds_put hs ⟨rfl, rfl⟩
  | advance hs h => exact sameHolds_put hs ⟨h.same.1, h.same.2.1⟩
  | detach hs ho thread => exact sameHolds_onStack r thread _
  | _ => exact .of_spans rfl rfl rfl rfl rfl

theorem Touches.sameHolds {K : SpanRef → Prop} {r t : Recorder} (h : Touches K r t) :
    r.SameHolds t := by
  induction h with
  | refl => exact .refl r
  | tail _ hone ih => exact ih.trans hone.sameHolds

namespace Recorder

variable {r t u : Recorder} {ref : SpanRef} {s v : Span}

theorem clock_build (r : Recorder) (thread : Nat) (fresh : FreshIds) (q : SpanRequest) :
    (r.build thread fresh q).2.clock = r.clock := by
  obtain ⟨spans, handles, threadStacks, heq⟩ := exists_built_eq r thread fresh q
  rw [heq]

/-- A new span stands behind the others, and nothing else is changed by which holds are followed. -/
theorem sameHolds_build (r : Recorder) (thread : Nat) (fresh : FreshIds) (q : SpanRequest) :
    r.SameHolds (r.build thread fresh q).2 := by
  obtain ⟨-, s, t, hs, halike, hpush⟩ := exists_build_eq r thread fresh q
  have hspan : ∀ ref, (r.build thread fresh q).2.span? ref =
      if ref = r.spans.size then some s else r.span? ref := by
    intro ref
    rw [hpush.span?]
    unfold span?
    rw [halike.spans, Array.getElem?_push]
  have hnone : r.span? r.spans.size = none := Array.getElem?_eq_none (Nat.le_refl _)
  constructor
  · exact hpush.holds.trans halike.holds
  · exact hpush.timed.trans halike.timed
  · exact clock_build r thread fresh q
  · exact hpush.deadlines.trans halike.deadlines
  · intro ref
    unfold pendingOf
    rw [hspan]
    split
    next h => rw [h, hnone, Option.elim_some, Option.elim_none, hs.pending]
    next => rfl
  · intro ref
    unfold extensionOf
    rw [hspan]
    split
    next h => rw [h, hnone, Option.elim_some, Option.elim_none, hs.extension]
    next => rfl

theorem sameHolds_modify {f : Span → Span} (hf : ∀ s : Span, s.Edit (f s)) (r : Recorder)
    (ref : SpanRef) : r.SameHolds (r.modify ref f) := by
  apply Touches.sameHolds (K := fun _ => False)
  apply touches_modify
  intro s hs
  exact .edit id hs (hf s)

theorem sameHolds_runStartCallbacks (r : Recorder) (thread : Nat) (ref : SpanRef)
    (items : List Registration) : r.SameHolds (runStartCallbacks thread ref items r) :=
  Touches.sameHolds (touches_runStartCallbacks (setsAside_none r) thread id items)

theorem sameHolds_createWith (r : Recorder) (thread : Nat) (fresh : FreshIds) (q : SpanRequest)
    (own : List (String × String)) : r.SameHolds (r.createWith thread fresh q own).2 := by
  obtain ⟨s, -, hs⟩ := exists_span?_build r thread fresh q
  obtain ⟨a, ha⟩ := Span.exists_foldl_setInternal own s
  unfold createWith
  dsimp only
  rw [modify_of_span? hs, ha]
  have hdressed : r.SameHolds ((r.build thread fresh q).2.put (r.build thread fresh q).1
      { s with attributes := a }) :=
    (sameHolds_build r thread fresh q).trans (sameHolds_put hs ⟨rfl, rfl⟩)
  exact hdressed.trans (sameHolds_runStartCallbacks _ thread _ _)

theorem sameHolds_claim (r : Recorder) (ref : SpanRef) : r.SameHolds (r.claim ref).2 := by
  unfold claim
  split
  · exact .refl r
  next t ht =>
    obtain ⟨s, hs, hp⟩ := Option.bind_eq_some_iff.mp ht
    exact sameHolds_put hs ⟨(Span.Advance.process hp).same.1, (Span.Advance.process hp).same.2.1⟩

theorem sameHolds_enrol (r : Recorder) (c : Callback) (priority : Int) :
    r.SameHolds (r.enrol c priority) := by
  unfold enrol define
  dsimp only
  split <;> split <;> exact .of_spans rfl rfl rfl rfl rfl

theorem sameHolds_collectNextBatch (r : Recorder) : r.SameHolds r.collectNextBatch.2 := by
  obtain ⟨handles, heq⟩ := exists_emptied_eq r.askForBatch.2
  have hemptied : r.SameHolds r.askForBatch.2.emptied := by
    rw [heq]
    exact .of_spans rfl rfl rfl rfl rfl
  unfold collectNextBatch
  dsimp only
  split
  · exact hemptied.trans (Touches.sameHolds (K := fun _ => False) (touches_sampleAll _ _))
  · exact .of_spans rfl rfl rfl rfl rfl

/-- Changes holds, releases them, or sets the clock by which they time out. -/
def Move.concernsHolds : Move → Bool
  | discard .. | hold .. | upgrade _ | closeHold .. | cancelHold .. | expire .. | setClock _ => true
  | _ => false

theorem sameHolds_move (r : Recorder) {m : Move} (hm : m.concernsHolds = false) :
    r.SameHolds (r.move m) := by
  cases m with
  | create thread fresh q =>
    exact (sameHolds_build r thread fresh q).trans (sameHolds_runStartCallbacks _ thread _ _)
  | createWith thread fresh q own => exact sameHolds_createWith r thread fresh q own
  | rename ref name => exact sameHolds_modify (fun _ => .rename name) r ref
  | setAttribute ref key value => exact sameHolds_modify (fun _ => .set key value) r ref
  | removeAttribute ref key => exact sameHolds_modify (fun _ => .remove key) r ref
  | finish thread ref time =>
    exact Touches.sameHolds
      (touches_endWith (touching_handOver _ thread) (setsAside_none r) thread ref time)
  | claim ref => exact sameHolds_claim r ref
  | present thread ref =>
    exact Touches.sameHolds (touching_handOver _ thread r ref (setsAside_none r))
  | setSampler sampler => exact .of_spans rfl rfl rfl rfl rfl
  | enrol atEnd priority label acts => exact sameHolds_enrol r _ priority
  | force =>
    exact Touches.sameHolds (K := fun _ => False) (touches_forceCurrentBatch r)
  | collect => exact sameHolds_collectNextBatch r
  | _ => contradiction

/-! ## Taking a hold, discarding and releasing -/

/-- A hold was added: its timer was put on the span and into the queue. -/
structure Adds (ref : SpanRef) (timer : Timer) (r t : Recorder) : Prop where
  timed : r.timed = true ∧ t.timed = true
  isNew : timer.hold = r.holds.size
  due : r.clock.ticks.toNat ≤ timer.deadline
  holds : t.holds = r.holds.push ⟨ref, timer, false⟩
  clock : t.clock = r.clock
  deadlines : t.deadlines = r.deadlines.schedule timer
  pendingOf : ∀ other,
    t.pendingOf other = if ref = other then r.pendingOf ref ++ [timer] else r.pendingOf other
  extensionOf : ∀ other, t.extensionOf other = r.extensionOf other

theorem hold_cases (r : Recorder) (ref : SpanRef) (timeout : Nanos) :
    r.hold ref timeout = (none, r) ∨ ∃ timer, Adds ref timer r (r.hold ref timeout).2 := by
  unfold hold
  by_cases htimed : r.timed = true
  · rw [if_neg (by simp [htimed])]
    dsimp only
    split
    · exact .inl rfl
    next v hh =>
      obtain ⟨s, hs, hv⟩ := Option.bind_eq_some_iff.mp hh
      obtain ⟨state, hstate, rfl⟩ := Span.hold?_eq_some hv
      have hpending : r.pendingOf ref = s.pending := pendingOf_of_span? hs
      have hextension : r.extensionOf ref = s.extension := extensionOf_of_span? hs
      right
      refine ⟨_, ⟨htimed, htimed⟩, rfl, Nat.le_add_right .., rfl, rfl, rfl, ?_, ?_⟩
      · intro other
        rw [hpending]
        exact pendingOf_put hs _ other
      · intro other
        apply (extensionOf_put hs _ other).trans
        split
        next heq => rw [← heq, hextension]
        next => rfl
  · left
    rw [if_pos (by simp [htimed])]

/-- Discarding does nothing, or it takes the timers of the span off it and out of the queue. -/
theorem discard_cases (r : Recorder) (thread : Nat) (ref : SpanRef) :
    r.discard thread ref = (false, r) ∨
      ∃ (s v : Span), r.span? ref = some s ∧ v.pending = [] ∧ v.extension = s.extension ∧
        (r.discard thread ref).1 = true ∧
        ((r.put ref v).cancelTimers s.pending).SameHolds (r.discard thread ref).2 := by
  cases hd : (r.span? ref).bind Span.discard? with
  | none =>
    left
    simp only [Recorder.discard, hd]
  | some found =>
    obtain ⟨timers, v⟩ := found
    obtain ⟨s, hs, hv⟩ := Option.bind_eq_some_iff.mp hd
    obtain ⟨-, rfl, rfl⟩ := Span.discard?_eq_some hv
    right
    refine ⟨s, Span.freeze { s with state := .discarded, pending := [] }, hs, rfl, rfl, ?_, ?_⟩
    · simp only [Recorder.discard, hd]
    · simp only [Recorder.discard, hd]
      split
      · exact sameHolds_onStack _ thread _
      · exact .refl _

theorem release_of_release? {id : HoldId} {time : Option Ticks} {h : Hold} {freed : Span.Release}
    (hh : r.holds[id]? = some h) (hs : r.span? h.span = some s)
    (hr : s.release? id time = some freed) (thread : Nat) :
    r.release thread id time =
      (true,
        let t := ((r.put h.span freed.span).emit (.released id time)).cancelTimers [freed.timer]
        if freed.handOver then handOver thread t h.span else t) := by
  simp only [Recorder.release, hh, hs, Option.bind_some, hr]

/-- A release finds the hold inactive and does nothing, or it takes the timer of the hold off its
span and out of the queue; the hand-over that may follow leaves the holds alone. -/
theorem release_cases (r : Recorder) (thread : Nat) (id : HoldId) (time : Option Ticks) :
    r.isActive id = false ∧ r.release thread id time = (false, r) ∨
      ∃ (h : Hold) (s v : Span) (timer : Timer), r.holds[id]? = some h ∧
        r.span? h.span = some s ∧ timer ∈ s.pending ∧ timer.hold = id ∧
        v.pending = s.pending.erase timer ∧
        v.extension = time.elim s.extension (max s.extension) ∧
        (r.release thread id time).1 = true ∧
        ((r.put h.span v).cancelTimers [timer]).SameHolds (r.release thread id time).2 := by
  cases hh : r.holds[id]? with
  | none =>
    left
    simp only [isActive, Recorder.release, hh, and_self]
  | some h =>
    cases hr : (r.span? h.span).bind (·.release? id time) with
    | none =>
      left
      apply And.intro (isActive_of_release? hh hr)
      simp only [Recorder.release, hh, hr]
    | some freed =>
      obtain ⟨s, hs, hfreed⟩ := Option.bind_eq_some_iff.mp hr
      obtain ⟨hmem, hid, hspan, -⟩ := Span.release?_eq_some hfreed
      have heq := release_of_release? hh hs hfreed thread
      have hnote : ((r.put h.span freed.span).cancelTimers [freed.timer]).SameHolds
          (((r.put h.span freed.span).emit (.released id time)).cancelTimers [freed.timer]) := by
        dsimp only [cancelTimers, emit, put]
        split <;> exact .of_spans rfl rfl rfl rfl rfl
      right
      refine ⟨h, s, freed.span, freed.timer, rfl, hs, hmem, hid, by rw [hspan], by rw [hspan],
        by rw [heq], ?_⟩
      rw [heq]
      dsimp only
      split
      · apply hnote.trans
        exact Touches.sameHolds (touching_handOver _ thread _ h.span (setsAside_none _))
      · exact hnote

end Recorder
end SpanRelay
