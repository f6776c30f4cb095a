import SpanRelay.Proofs.Recorder.Moves

/-!
Spans are handed over exactly once, when their end is complete and the last hold is released. How
often that happened is counted in the log; what must have happened is told by the state of the span.
-/
namespace SpanRelay

namespace Event

def endsSpan (ref : SpanRef) : Event → Bool
  | .ended s _ => s == ref
  | _ => false

def handsOver (ref : SpanRef) : Event → Bool
  | .handedOver s => s == ref
  | _ => false

end Event

namespace Recorder

/-- How often an end of the span has begun. -/
def ends (r : Recorder) (ref : SpanRef) : Nat := r.log.countP (·.endsSpan ref)

/-- How often the span was handed over. -/
def handOvers (r : Recorder) (ref : SpanRef) : Nat := r.log.countP (·.handsOver ref)

end Recorder

/-- What the state of a span tells of its holds and of what happened to it. -/
structure Span.Settled (s : Span) (ends handOvers : Nat) : Prop where
  held : s.state.isHeld = true ↔ s.pending ≠ []
  whole : s.state ≠ .ending ∧ s.state ≠ .endingHeld
  ends : ends = if s.state.hasEnded then 1 else 0
  handOvers : handOvers = if s.state.isDue then 1 else 0

namespace Recorder

/-- Every span is handed over as its state tells, and nothing else is handed over. -/
structure Exact (r : Recorder) : Prop where
  spans : ∀ ref s, r.span? ref = some s → s.Settled (r.ends ref) (r.handOvers ref)
  others : ∀ ref, r.span? ref = none → r.ends ref = 0 ∧ r.handOvers ref = 0

/-! ## Counting -/

theorem ends_emit (r : Recorder) (e : Event) (ref : SpanRef) :
    (r.emit e).ends ref = r.ends ref + if e.endsSpan ref then 1 else 0 := List.countP_cons

theorem handOvers_emit (r : Recorder) (e : Event) (ref : SpanRef) :
    (r.emit e).handOvers ref = r.handOvers ref + if e.handsOver ref then 1 else 0 :=
  List.countP_cons

theorem counts_congr {r t : Recorder} (h : t.log = r.log) (ref : SpanRef) :
    t.ends ref = r.ends ref ∧ t.handOvers ref = r.handOvers ref := by
  unfold ends handOvers
  rw [h]
  exact ⟨rfl, rfl⟩

theorem counts_emit_of_silent {e : Event} (he : ∀ ref, e.endsSpan ref = false)
    (hh : ∀ ref, e.handsOver ref = false) (r : Recorder) (ref : SpanRef) :
    (r.emit e).ends ref = r.ends ref ∧ (r.emit e).handOvers ref = r.handOvers ref := by
  rw [ends_emit, handOvers_emit, he, hh]
  exact ⟨rfl, rfl⟩

theorem counts_announce (r : Recorder) (ready : Bool) (ref other : SpanRef) :
    (r.announce ready ref).ends other = r.ends other ∧
      (r.announce ready ref).handOvers other =
        r.handOvers other + if ready = true ∧ ref = other then 1 else 0 := by
  unfold announce
  cases ready with
  | false => exact ⟨rfl, by simp⟩
  | true =>
    rw [if_pos rfl, ends_emit, handOvers_emit]
    simp [Event.endsSpan, Event.handsOver]

/-! ## Steps keep the counts exact -/

variable {r u : Recorder} {ref : SpanRef} {s t : Span}

theorem Exact.same (h : r.Exact) (hs : ∀ other, u.span? other = r.span? other)
    (hc : ∀ other, u.ends other = r.ends other ∧ u.handOvers other = r.handOvers other) :
    u.Exact := by
  refine ⟨fun other v hv => ?_, fun other hv => ?_⟩
  · rw [(hc other).1, (hc other).2]
    exact h.spans other v ((hs other).symm.trans hv)
  · rw [(hc other).1, (hc other).2]
    exact h.others other ((hs other).symm.trans hv)

/-- One span is another now, and only its counts have changed. -/
theorem Exact.change (h : r.Exact) (ref : SpanRef) (t : Span)
    (hu : ∀ other, u.span? other = if ref = other then some t else r.span? other)
    (ht : t.Settled (u.ends ref) (u.handOvers ref))
    (hc : ∀ other, ref ≠ other →
      u.ends other = r.ends other ∧ u.handOvers other = r.handOvers other) : u.Exact := by
  refine ⟨fun other v hv => ?_, fun other hv => ?_⟩
  · rw [hu] at hv
    by_cases ho : ref = other
    · rw [if_pos ho] at hv
      obtain rfl := Option.some.inj hv
      exact ho ▸ ht
    · rw [if_neg ho] at hv
      rw [(hc other ho).1, (hc other ho).2]
      exact h.spans other v hv
  · rw [hu] at hv
    by_cases ho : ref = other
    · rw [if_pos ho] at hv
      contradiction
    · rw [if_neg ho] at hv
      rw [(hc other ho).1, (hc other ho).2]
      exact h.others other hv

theorem Exact.put_same (h : r.Exact) (hs : r.span? ref = some s)
    (ht : t.state = s.state ∧ t.pending = s.pending) : (r.put ref t).Exact := by
  refine h.change ref t (span?_put hs t) ?_ fun other _ => ⟨rfl, rfl⟩
  obtain ⟨held, whole, ends, handOvers⟩ := h.spans ref s hs
  rw [← ht.1] at held whole ends handOvers
  rw [← ht.2] at held
  exact ⟨held, whole, ends, handOvers⟩

theorem Exact.modify_freeze (h : r.Exact) (ref : SpanRef) : (r.modify ref Span.freeze).Exact := by
  cases hs : r.span? ref with
  | none => rwa [modify_of_none hs]
  | some s =>
    rw [modify_of_span? hs]
    exact h.put_same hs ⟨rfl, rfl⟩

theorem Exact.finish (h : r.Exact) (hs : r.span? ref = some s) (ho : s.state.isOpen = true)
    (time : Ticks) :
    (((r.put ref (s.closed time)).emit (.ended ref time)).announce
      (s.state == .opened) ref).Exact := by
  obtain ⟨held, -, hends, hhand⟩ := h.spans ref s hs
  refine h.change ref (s.closed time) (fun other => ?_) ?_ fun other hne => ?_
  · rw [span?_announce]
    exact span?_put hs _ other
  · rw [(counts_announce ..).1, (counts_announce ..).2, ends_emit, handOvers_emit]
    change (s.closed time).Settled (r.ends ref + _) (r.handOvers ref + _ + _)
    rw [hends, hhand]
    unfold Span.closed
    constructor <;>
      cases hst : s.state <;>
        simp_all [SpanState.isOpen, SpanState.isHeld, SpanState.hasEnded, SpanState.isDue,
          Event.endsSpan, Event.handsOver]
  · rw [(counts_announce ..).1, (counts_announce ..).2, ends_emit, handOvers_emit]
    simp only [hne, and_false, if_false, Event.endsSpan, Event.handsOver, beq_iff_eq,
      Bool.false_eq_true, Nat.add_zero]
    exact ⟨rfl, rfl⟩

/-- Only a span whose end is complete is claimed, and claiming it changes no count. -/
theorem Exact.receive (h : r.Exact) (hs : r.span? ref = some s) (hp : s.process? = some t)
    (he : s.state = .ended) : (r.put ref t).countEnded.Exact := by
  obtain ⟨held, -, hends, hhand⟩ := h.spans ref s hs
  obtain ⟨-, rfl⟩ := Span.process?_eq_some hp
  refine h.change ref _ (fun other => span?_put hs _ other) ?_ fun other _ => ⟨rfl, rfl⟩
  change Span.Settled _ (r.ends ref) (r.handOvers ref)
  rw [hends, hhand]
  constructor <;>
    simp_all [SpanState.isHeld, SpanState.hasEnded, SpanState.isDue]

theorem Exact.deed {a b : Scene} (hd : Deed false a b) (h : a.recorder.Exact) :
    b.recorder.Exact := by
  cases hd with
  | aside ha => exact h.same ha.span? (counts_congr ha.log)
  | @note r U e hn =>
    refine h.same (fun _ => rfl) (counts_emit_of_silent ?_ ?_ r) <;>
      cases e <;> first | contradiction | exact fun _ => rfl
  | edit hs he => exact h.put_same hs he.state_pending
  | inform hs a => exact h.put_same hs ⟨rfl, rfl⟩
  | sample hs p => exact h.put_same hs ⟨rfl, rfl⟩
  | finish hs ho time => exact h.finish hs ho time
  | claim hf => contradiction
  | receive hs hp hf => exact h.receive hs hp (hf rfl)
  | @sampleOut r U ref =>
    have hcount : r.countSampledOut.Exact := h.same (fun _ => rfl) fun _ => ⟨rfl, rfl⟩
    exact hcount.modify_freeze ref
  | @reject r U ref =>
    have hcount : r.countRejected.Exact := h.same (fun _ => rfl) fun _ => ⟨rfl, rfl⟩
    exact hcount.modify_freeze ref
  | @enqueue r U ref =>
    exact (h.modify_freeze ref).same (fun _ => rfl)
      (counts_emit_of_silent (fun _ => rfl) (fun _ => rfl) (r.modify ref Span.freeze))

theorem Exact.create (h : r.Exact) (hf : s.Fresh) :
    ({ r with spans := r.spans.push s } : Recorder).Exact := by
  have hnew : r.span? r.spans.size = none := Array.getElem?_eq_none (Nat.le_refl _)
  refine h.change r.spans.size s (fun other => ?_) ?_ fun _ _ => ⟨rfl, rfl⟩
  · change (r.spans.push s)[other]? = _
    rw [Array.getElem?_push]
    simp only [eq_comm]
    rfl
  · change s.Settled (r.ends r.spans.size) (r.handOvers r.spans.size)
    rw [(h.others _ hnew).1, (h.others _ hnew).2]
    constructor <;>
      simp [hf.state, hf.pending, SpanState.isHeld, SpanState.hasEnded, SpanState.isDue]

theorem Exact.discard {timers : List Timer} (h : r.Exact) (hs : r.span? ref = some s)
    (hd : s.discard? = some (timers, t)) : ((r.put ref t.freeze).cancelTimers timers).Exact := by
  obtain ⟨-, whole, hends, hhand⟩ := h.spans ref s hs
  obtain ⟨hsome, -, ht⟩ := Span.discard?_eq_some hd
  have hc := counts_congr (log_cancelTimers (r.put ref t.freeze) timers)
  refine h.change ref t.freeze (fun other => ?_) ?_ fun other _ => hc other
  · rw [span?_cancelTimers]
    exact span?_put hs _ other
  · rw [(hc ref).1, (hc ref).2, ht]
    change Span.Settled _ (r.ends ref) (r.handOvers ref)
    rw [hends, hhand]
    constructor <;>
      cases hst : s.state <;>
        simp_all [Span.freeze, SpanState.discard?, SpanState.isHeld, SpanState.hasEnded,
          SpanState.isDue]

theorem Exact.hold {timer : Timer} {holds : Array Hold} {deadlines : DeadlineQueue} (h : r.Exact)
    (hs : r.span? ref = some s) (hh : s.hold? timer = some t) :
    ({ r.put ref t with holds, deadlines } : Recorder).Exact := by
  obtain ⟨-, whole, hends, hhand⟩ := h.spans ref s hs
  obtain ⟨state, hstate, rfl⟩ := Span.hold?_eq_some hh
  refine h.change ref _ (fun other => span?_put hs _ other) ?_ fun other _ => ⟨rfl, rfl⟩
  change Span.Settled _ (r.ends ref) (r.handOvers ref)
  rw [hends, hhand]
  constructor <;>
    cases hst : s.state <;>
      simp_all [SpanState.hold?, SpanState.isHeld, SpanState.hasEnded, SpanState.isDue] <;>
      subst hstate <;> simp_all

theorem Exact.release {id : HoldId} {time : Option Ticks} {freed : Span.Release}
    {q : DeadlineQueue} (h : r.Exact) (hs : r.span? ref = some s)
    (hr : s.release? id time = some freed) :
    ((((({ r with deadlines := q } : Recorder).put ref freed.span).emit
      (.released id time)).cancelTimers [freed.timer]).announce freed.handOver ref).Exact := by
  obtain ⟨held, whole, hends, hhand⟩ := h.spans ref s hs
  obtain ⟨hmem, -, hspan, hready⟩ := Span.release?_eq_some hr
  have hheld : s.state.isHeld = true := held.mpr (List.ne_nil_of_mem hmem)
  let v := (({ r with deadlines := q } : Recorder).put ref freed.span).emit (.released id time)
  have hv : ∀ other, v.ends other = r.ends other ∧ v.handOvers other = r.handOvers other :=
    counts_emit_of_silent (fun _ => rfl) (fun _ => rfl) _
  have hc := counts_congr (log_cancelTimers v [freed.timer])
  refine h.change ref freed.span (fun other => ?_) ?_ fun other hne => ?_
  · rw [span?_announce, span?_cancelTimers]
    exact span?_put (r := { r with deadlines := q }) hs _ other
  · rw [(counts_announce ..).1, (counts_announce ..).2, (hc ref).1, (hc ref).2, (hv ref).1,
      (hv ref).2, hends, hhand, hready, hspan]
    by_cases he : s.pending.erase freed.timer = []
    · constructor <;>
        cases hst : s.state <;>
          simp_all [SpanState.release?, SpanState.isHeld, SpanState.hasEnded, SpanState.isDue]
    · constructor <;>
        cases hst : s.state <;>
          simp_all [SpanState.isHeld, SpanState.hasEnded, SpanState.isDue]
  · rw [(counts_announce ..).1, (counts_announce ..).2, (hc other).1, (hc other).2, (hv other).1,
      (hv other).2]
    simp [hne]

theorem Exact.step {a b : Scene} (hs : Step false a b) (h : a.recorder.Exact) :
    b.recorder.Exact := by
  cases hs with
  | deed hd => exact h.deed hd
  | create hf => exact h.create hf
  | furnish hs hf a => exact h.put_same hs ⟨rfl, rfl⟩
  | discard hs hd => exact h.discard hs hd
  | hold hs hi hh ht => exact h.hold hs hh
  | release hh hs hr hq ht => exact h.release hs hr
  | present hf => contradiction
  | @detach r U =>
    obtain ⟨handles, heq⟩ := exists_emptied_eq r
    rw [heq]
    exact h.same (fun _ => rfl)
      (counts_emit_of_silent (fun _ => rfl) (fun _ => rfl) r)
  | _ => exact h.same (fun _ => rfl) fun _ => ⟨rfl, rfl⟩

theorem Exact.steps {a b : Scene} (hs : Steps false a b) (h : a.recorder.Exact) :
    b.recorder.Exact := by
  induction hs with
  | refl => exact h
  | tail _ hone ih => exact ih.step hone

theorem exact_start (clock : Clock) (limits : AttributeLimits) (timed : Bool) (sink : Sink)
    (sampler : Sampler) (trigger : Nat) (timeout : Nanos) :
    (start clock limits timed sink sampler trigger timeout).Exact :=
  ⟨by simp [start, Recorder.span?], fun _ _ => ⟨rfl, rfl⟩⟩

/-! ## Ends that are won -/

theorem hasEnded_of_change (h : s.Change t) (he : s.state.hasEnded = true) :
    t.state.hasEnded = true := by
  cases h with
  | none => exact he
  | edit h => rwa [h.state_pending.1]
  | inform => exact he
  | close ho time => cases hst : s.state <;> simp_all [SpanState.isOpen, SpanState.hasEnded]
  | process hp =>
    rw [(Span.process?_eq_some hp).2]
    rfl
  | freeze => exact he

theorem hasEnded_of_deeds {free : Bool} {a b : Scene} (h : Deeds free a b)
    (hs : a.recorder.span? ref = some s) (he : s.state.hasEnded = true) :
    ∃ t, b.recorder.span? ref = some t ∧ t.state.hasEnded = true := by
  induction h with
  | refl => exact ⟨s, hs, he⟩
  | tail _ hd ih =>
    obtain ⟨t, ht, hte⟩ := ih
    obtain ⟨u, hu, hc⟩ := hd.span? ht
    exact ⟨u, hu, hasEnded_of_change hc hte⟩

theorem Exact.deeds {a b : Scene} (hs : Deeds false a b) (h : a.recorder.Exact) :
    b.recorder.Exact := h.steps (Deeds.steps hs)

/-- A call that finds a span open ends it, and answers so. -/
theorem exists_hasEnded_tryEnd (hs : r.span? ref = some s) (ho : s.state.isOpen = true)
    (thread : Nat) (time : Ticks) :
    (r.tryEnd thread ref time).1 = true ∧
      ∃ u, (r.tryEnd thread ref time).2.span? ref = some u ∧ u.state.hasEnded = true := by
  obtain ⟨t, halike, heq⟩ := exists_endWith_eq hs ho (handOver thread) thread time
  refine ⟨congrArg Prod.fst heq, ?_⟩
  have hclosed : t.span? ref = some (s.closed time) :=
    (halike.span? ref).trans (span?_put_self hs _)
  have hended : (s.closed time).state.hasEnded = true := by
    unfold Span.closed
    dsimp only
    split <;> rfl
  rw [tryEnd, heq]
  split
  next hready =>
    have hcarry : Deeds false ⟨t.emit (.handedOver ref), []⟩ ⟨handOver thread t ref, []⟩ := by
      refine carries_handOver false thread _ t [] ref (fun _ => ⟨_, hclosed, ?_⟩)
        (Nat.lt_succ_self _)
      have hopened : s.state = .opened := by simpa using hready
      simp [Span.closed, hopened]
    exact hasEnded_of_deeds hcarry hclosed hended
  next => exact ⟨_, hclosed, hended⟩

/-- An end of a span is counted by the one call that answers that it ended the span. -/
theorem Exact.ends_tryEnd (h : r.Exact) (thread : Nat) (ref : SpanRef) (time : Ticks) :
    (r.tryEnd thread ref time).2.ends ref =
      r.ends ref + if (r.tryEnd thread ref time).1 = true then 1 else 0 := by
  by_cases hopen : ∃ s, r.span? ref = some s ∧ s.state.isOpen = true
  · obtain ⟨s, hs, ho⟩ := hopen
    obtain ⟨hwon, u, hu, hue⟩ := exists_hasEnded_tryEnd hs ho thread time
    have hdeeds : Deeds false ⟨r, []⟩ ⟨(r.tryEnd thread ref time).2, []⟩ :=
      deeds_tryEnd r thread ref time
    have hzero := (h.spans ref s hs).ends
    have hone := ((h.deeds hdeeds).spans ref u hu).ends
    rw [hue, if_pos rfl] at hone
    rw [hone, hzero, hwon, if_pos rfl]
    cases hst : s.state <;> simp_all [SpanState.isOpen, SpanState.hasEnded]
  · rw [tryEnd, endWith_of_not_isOpen hopen]
    simp

/-- A discard that succeeds leaves the span discarded. -/
theorem exists_discarded (r : Recorder) (thread : Nat) (ref : SpanRef)
    (h : (r.discard thread ref).1 = true) :
    ∃ t, (r.discard thread ref).2.span? ref = some t ∧ t.state = .discarded := by
  cases hd : (r.span? ref).bind Span.discard? with
  | none =>
    simp only [Recorder.discard, hd] at h
    contradiction
  | some found =>
    obtain ⟨timers, t⟩ := found
    obtain ⟨s, hs, hdiscard⟩ := Option.bind_eq_some_iff.mp hd
    obtain ⟨-, -, ht⟩ := Span.discard?_eq_some hdiscard
    refine ⟨t.freeze, ?_, by rw [ht]; rfl⟩
    simp only [Recorder.discard, hd]
    split
    · rw [(alike_detach _ thread ref).span?, span?_cancelTimers]
      exact span?_put_self hs _
    · rw [span?_cancelTimers]
      exact span?_put_self hs _

/-! ## Runs -/

/-- After any run in which spans are claimed by hand-overs only, a span is in a held state exactly
while a hold is pending on it; it was handed over once if its end was won and no hold is pending,
and not at all otherwise; and once discarded it has no hold, was never handed over and stays
discarded. An end is won by the call that answers that it ended the span. -/
theorem handOvers_play (clock : Clock) (limits : AttributeLimits) (timed : Bool) (sink : Sink)
    (sampler : Sampler) (trigger : Nat) (timeout : Nanos) {moves : List Move}
    (hm : ∀ m ∈ moves, m.isRegular = true) {ref : SpanRef} {s : Span} {r : Recorder}
    (hr : r = (start clock limits timed sink sampler trigger timeout).play moves)
    (hs : r.span? ref = some s) :
    (s.state.isHeld = true ↔ s.pending ≠ []) ∧
      r.handOvers ref = (if 0 < r.ends ref ∧ s.pending = [] then 1 else 0) ∧
      (∀ thread time, (r.tryEnd thread ref time).2.ends ref =
        r.ends ref + if (r.tryEnd thread ref time).1 = true then 1 else 0) ∧
      (∀ thread, (r.discard thread ref).1 = true →
        ∃ t, (r.discard thread ref).2.span? ref = some t ∧ t.state = .discarded) ∧
      (s.state = .discarded → s.pending = [] ∧ r.handOvers ref = 0 ∧
        ∀ more : List Move, (∀ m ∈ more, m.isRegular = true) →
          ∃ t, (r.play more).span? ref = some t ∧ t.state = .discarded) := by
  have hquiet := quiet_start clock limits timed sink sampler trigger timeout
  have hrun : Steps false ⟨start clock limits timed sink sampler trigger timeout, []⟩ ⟨r, []⟩ :=
    hr ▸ steps_play (.inr ⟨hm, hquiet⟩)
  have hexact : r.Exact :=
    (exact_start clock limits timed sink sampler trigger timeout).steps hrun
  obtain ⟨held, whole, hends, hhand⟩ := hexact.spans ref s hs
  refine ⟨held, ?_, fun thread time => hexact.ends_tryEnd thread ref time,
    fun thread => exists_discarded r thread ref, fun hd => ⟨?_, ?_, ?_⟩⟩
  · rw [hhand, hends]
    cases hst : s.state <;>
      simp_all [SpanState.isHeld, SpanState.hasEnded, SpanState.isDue]
  · rw [hd] at held
    simpa [SpanState.isHeld] using held
  · rw [hhand, hd]
    rfl
  · intro more hmore
    have hq : r.Quiet := by simpa using hrun.quiet (.inr hquiet)
    have hmorerun : Steps false ⟨r, []⟩ ⟨r.play more, []⟩ := steps_play (.inr ⟨hmore, hq⟩)
    obtain ⟨t, ht, hst⟩ := hmorerun.state_of_isFinal hs (by rw [hd]; rfl)
    exact ⟨t, ht, hst.trans hd⟩

/-- A span that ends while it is held is handed over when its hold is released. -/
theorem handOvers_play_released :
    let r := (start default .standard true .batch .discarding 100 0).play
      [.create 0 (.ofNumbers 1 1) (.named ""), .hold 0 5, .finish 0 0 7, .closeHold 0 0 9]
    ∃ s, r.span? 0 = some s ∧
      r.handOvers 0 = (if 0 < r.ends 0 ∧ s.pending = [] then 1 else 0) ∧
      r.handOvers 0 = 1 := by
  intro r
  obtain ⟨s, hs⟩ := Option.isSome_iff_exists.mp (by decide +kernel : (r.span? 0).isSome = true)
  refine ⟨s, hs, ?_, by decide +kernel⟩
  exact (handOvers_play default .standard true .batch .discarding 100 0 (by decide) rfl hs).2.1

end Recorder
end SpanRelay
