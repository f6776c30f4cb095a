import SpanRelay.Proofs.Recorder.Holds

/-!
The timers in the queue of deadlines are those of the pending holds of all spans, at any moment of a
run. Releases, discards and deadlines that fire take timers out of both places; holding puts one
into both.
-/
namespace SpanRelay.Recorder

open DeadlineQueue

variable {r t : Recorder} {ref other : SpanRef} {id : HoldId} {gone : List Timer} {a b timer : Timer}

/-- Each pending hold is recorded once, and its timer is in the queue; nothing else is there. -/
structure Scheduled (r : Recorder) : Prop where
  running : r.deadlines.running = true
  inOrder : InOrder r.deadlines.timers
  mem_iff : ∀ timer, timer ∈ r.deadlines.timers ↔ ∃ ref, timer ∈ r.pendingOf ref
  recorded : ∀ ref, ∀ timer ∈ r.pendingOf ref,
    ∃ h, r.holds[timer.hold]? = some h ∧ h.span = ref ∧ h.timer = timer
  nodup : ∀ ref, (r.pendingOf ref).Nodup
  timed : ∀ ref, ∀ timer ∈ r.pendingOf ref, r.timed = true

theorem scheduled_start (clock : Clock) (limits : AttributeLimits) (timed : Bool) (sink : Sink)
    (sampler : Sampler) (trigger : Nat) (timeout : Nanos) :
    (start clock limits timed sink sampler trigger timeout).Scheduled := by
  have hnone : ∀ ref, (start clock limits timed sink sampler trigger timeout).pendingOf ref = [] :=
    fun _ => rfl
  constructor
  · rfl
  · exact List.Pairwise.nil
  · intro timer
    simp only [hnone, List.not_mem_nil, exists_false, iff_false]
    exact List.not_mem_nil
  · simp [hnone]
  · simp [hnone]
  · simp [hnone]

/-- A hold is pending in one place only. -/
theorem Scheduled.unique (h : r.Scheduled) (ha : a ∈ r.pendingOf ref) (hb : b ∈ r.pendingOf other)
    (hid : a.hold = b.hold) : a = b ∧ ref = other := by
  obtain ⟨x, hx, hxref, hxa⟩ := h.recorded ref a ha
  obtain ⟨y, hy, hyref, hyb⟩ := h.recorded other b hb
  rw [hid, hy] at hx
  obtain rfl := Option.some.inj hx
  exact ⟨hxa.symm.trans hyb, hxref.symm.trans hyref⟩

theorem Scheduled.eq_of_hold_eq (h : r.Scheduled) (ha : a ∈ r.deadlines.timers)
    (hb : b ∈ r.deadlines.timers) (hid : a.hold = b.hold) : a = b := by
  obtain ⟨ref, ha⟩ := (h.mem_iff a).mp ha
  obtain ⟨other, hb⟩ := (h.mem_iff b).mp hb
  exact (h.unique ha hb hid).1

theorem Scheduled.hold_lt (h : r.Scheduled) (ha : a ∈ r.deadlines.timers) :
    a.hold < r.holds.size := by
  obtain ⟨ref, ha⟩ := (h.mem_iff a).mp ha
  obtain ⟨x, hx, -, -⟩ := h.recorded ref a ha
  exact (Array.getElem?_eq_some_iff.mp hx).1

theorem isActive_iff :
    r.isActive id = true ↔ ∃ h, r.holds[id]? = some h ∧ ∃ a ∈ r.pendingOf h.span, a.hold = id := by
  unfold isActive
  cases hh : r.holds[id]? with
  | none => simp
  | some h =>
    cases hs : r.span? h.span with
    | none => simp [pendingOf, hs]
    | some s => simp [pendingOf, hs, Span.isHeldBy]

theorem Scheduled.isActive_iff_mem (h : r.Scheduled) :
    r.isActive id = true ↔ ∃ a ∈ r.deadlines.timers, a.hold = id := by
  rw [isActive_iff]
  constructor
  · rintro ⟨x, -, a, ha, hid⟩
    exact ⟨a, (h.mem_iff a).mpr ⟨x.span, ha⟩, hid⟩
  · rintro ⟨a, ha, rfl⟩
    obtain ⟨ref, ha⟩ := (h.mem_iff a).mp ha
    obtain ⟨x, hx, rfl, -⟩ := h.recorded ref a ha
    exact ⟨x, hx, a, ha, rfl⟩

/-! ## Timers that are taken out -/

/-- Some timers were taken out of the queue and off their spans, and no hold was changed else. -/
structure Drops (gone : List Timer) (r t : Recorder) : Prop where
  holds : t.holds = r.holds
  timed : t.timed = r.timed
  clock : t.clock = r.clock
  deadlines : t.deadlines = { r.deadlines with timers := r.deadlines.timers.filter (· ∉ gone) }
  pendingOf : ∀ ref, t.pendingOf ref = (r.pendingOf ref).filter (· ∉ gone)

theorem SameHolds.drops (h : r.SameHolds t) : Drops [] r t := by
  constructor
  · exact h.holds
  · exact h.timed
  · exact h.clock
  · simp [h.deadlines]
  · intro ref
    simp [h.pendingOf ref]

theorem Drops.sameHolds {u : Recorder} (h : Drops gone r t) (g : t.SameHolds u) :
    Drops gone r u :=
  ⟨g.holds.trans h.holds, g.timed.trans h.timed, g.clock.trans h.clock,
    g.deadlines.trans h.deadlines, fun ref => (g.pendingOf ref).trans (h.pendingOf ref)⟩

theorem Drops.mem_timers (d : Drops gone r t) :
    a ∈ t.deadlines.timers ↔ a ∈ r.deadlines.timers ∧ a ∉ gone := by
  rw [d.deadlines]
  simp

theorem Drops.mem_pendingOf (d : Drops gone r t) :
    a ∈ t.pendingOf ref ↔ a ∈ r.pendingOf ref ∧ a ∉ gone := by
  rw [d.pendingOf]
  simp

theorem Scheduled.drops (h : r.Scheduled) (d : Drops gone r t) : t.Scheduled := by
  constructor
  · rw [d.deadlines]
    exact h.running
  · rw [d.deadlines]
    exact h.inOrder.filter _
  · intro timer
    simp only [d.mem_timers, d.mem_pendingOf, h.mem_iff, exists_and_right]
  · intro ref timer hm
    rw [d.holds]
    exact h.recorded ref timer (d.mem_pendingOf.mp hm).1
  · intro ref
    rw [d.pendingOf]
    exact (h.nodup ref).filter _
  · intro ref timer hm
    rw [d.timed]
    exact h.timed ref timer (d.mem_pendingOf.mp hm).1

/-- Timers taken off one span and cancelled are gone from both places. -/
theorem Scheduled.drops_put {s v : Span} (h : r.Scheduled) (hs : r.span? ref = some s)
    (hg : gone ⊆ s.pending) (hv : v.pending = s.pending.filter (· ∉ gone)) :
    Drops gone r ((r.put ref v).cancelTimers gone) := by
  have hpending : r.pendingOf ref = s.pending := pendingOf_of_span? hs
  -- Timers of other spans stay, since a hold is pending in one place only.
  have hspans : ∀ other, (r.put ref v).pendingOf other = (r.pendingOf other).filter (· ∉ gone) := by
    intro other
    rw [pendingOf_put hs]
    split
    next heq => rw [hv, ← heq, hpending]
    next hne =>
      symm
      apply List.filter_eq_self.mpr
      intro a ha
      have hnot : a ∉ gone := fun hm => hne (h.unique (hpending ▸ hg hm) ha rfl).2
      simpa using hnot
  unfold cancelTimers
  split
  · constructor
    · rfl
    · rfl
    · rfl
    · exact foldl_cancel h.inOrder gone
    · exact hspans
  next htimed =>
    have hnone : gone = [] := by
      apply List.eq_nil_iff_forall_not_mem.mpr
      intro a ha
      exact htimed (h.timed ref a (hpending ▸ hg ha))
    constructor
    · rfl
    · rfl
    · rfl
    · simp [hnone, put]
    · exact hspans

/-! ## The five operations -/

theorem Scheduled.discard_cases (h : r.Scheduled) (thread : Nat) (ref : SpanRef) :
    r.discard thread ref = (false, r) ∨
      (r.discard thread ref).1 = true ∧ Drops (r.pendingOf ref) r (r.discard thread ref).2 := by
  rcases Recorder.discard_cases r thread ref with heq | ⟨s, v, hs, hv, -, hanswer, hsame⟩
  · exact .inl heq
  · right
    apply And.intro hanswer
    rw [pendingOf_of_span? hs]
    apply Drops.sameHolds _ hsame
    apply h.drops_put hs (List.Subset.refl _)
    simp [hv]

/-- A release answers whether the hold was active, and takes its timer out if it was. -/
theorem Scheduled.release_cases (h : r.Scheduled) (thread : Nat) (id : HoldId)
    (time : Option Ticks) :
    r.isActive id = false ∧ r.release thread id time = (false, r) ∨
      ∃ timer ∈ r.deadlines.timers, timer.hold = id ∧ (r.release thread id time).1 = true ∧
        Drops [timer] r (r.release thread id time).2 := by
  rcases Recorder.release_cases r thread id time with
    hnone | ⟨x, s, v, timer, hx, hs, hmem, hid, hv, -, hanswer, hsame⟩
  · exact .inl hnone
  · right
    have hpending : r.pendingOf x.span = s.pending := pendingOf_of_span? hs
    have hnodup : s.pending.Nodup := hpending ▸ h.nodup x.span
    refine ⟨timer, (h.mem_iff timer).mpr ⟨x.span, hpending ▸ hmem⟩, hid, hanswer, ?_⟩
    apply Drops.sameHolds _ hsame
    apply h.drops_put hs
    · simpa using hmem
    · rw [hv, ← hnodup.sdiff_eq_filter, List.diff_cons, List.diff_nil]

/-- The hold of a deadline that is in the queue is active, so that a call releases it. -/
theorem Scheduled.release_of_mem (h : r.Scheduled) (ha : a ∈ r.deadlines.timers) (thread : Nat)
    (time : Option Ticks) :
    (r.release thread a.hold time).1 = true ∧ Drops [a] r (r.release thread a.hold time).2 := by
  rcases h.release_cases thread a.hold time with ⟨hnone, -⟩ | ⟨b, hb, hid, hanswer, d⟩
  · rw [h.isActive_iff_mem.mpr ⟨a, ha, rfl⟩] at hnone
    contradiction
  · obtain rfl := h.eq_of_hold_eq hb ha hid
    exact ⟨hanswer, d⟩

theorem Scheduled.release (h : r.Scheduled) (thread : Nat) (id : HoldId) (time : Option Ticks) :
    (r.release thread id time).2.Scheduled := by
  rcases h.release_cases thread id time with ⟨-, heq⟩ | ⟨timer, -, -, -, d⟩
  · rwa [heq]
  · exact h.drops d

theorem Adds.mem_pendingOf (d : Adds ref timer r t) :
    a ∈ t.pendingOf other ↔ a ∈ r.pendingOf other ∨ ref = other ∧ a = timer := by
  rw [d.pendingOf]
  by_cases ho : ref = other
  · rw [if_pos ho, ← ho]
    simp
  · rw [if_neg ho]
    simp [ho]

theorem Scheduled.timers_of_adds (h : r.Scheduled) (d : Adds ref timer r t) :
    t.deadlines = { r.deadlines with timers := insertTimer timer r.deadlines.timers } :=
  d.deadlines.trans (if_pos h.running)

theorem Scheduled.adds (h : r.Scheduled) (d : Adds ref timer r t) : t.Scheduled := by
  have hnew : ∀ other, ∀ a ∈ r.pendingOf other, timer.hold ≠ a.hold := by
    intro other a ha
    rw [d.isNew]
    exact Nat.ne_of_gt (h.hold_lt ((h.mem_iff a).mpr ⟨other, ha⟩))
  have hqueue := h.timers_of_adds d
  constructor
  · rw [hqueue]
    exact h.running
  · rw [hqueue]
    apply h.inOrder.insertTimer
    intro a ha
    obtain ⟨other, ha⟩ := (h.mem_iff a).mp ha
    exact hnew other a ha
  · intro a
    rw [hqueue]
    simp only [mem_insertTimer, d.mem_pendingOf, h.mem_iff, exists_or]
    constructor
    · rintro (rfl | ha)
      · exact .inr ⟨ref, rfl, rfl⟩
      · exact .inl ha
    · rintro (ha | ⟨other, -, ha⟩)
      · exact .inr ha
      · exact .inl ha
  · intro other a ha
    rw [d.holds, Array.getElem?_push]
    rcases d.mem_pendingOf.mp ha with ha | ⟨rfl, rfl⟩
    · rw [if_neg (d.isNew ▸ (hnew other a ha).symm)]
      exact h.recorded other a ha
    · rw [if_pos d.isNew]
      exact ⟨_, rfl, rfl, rfl⟩
  · intro other
    rw [d.pendingOf]
    split
    next ho =>
      apply List.Nodup.append (h.nodup ref) (List.nodup_singleton timer)
      rw [List.disjoint_singleton]
      intro ha
      exact hnew ref timer ha rfl
    next => exact h.nodup other
  · intro _ _ _
    exact d.timed.2

theorem Scheduled.hold (h : r.Scheduled) (ref : SpanRef) (timeout : Nanos) :
    (r.hold ref timeout).2.Scheduled := by
  rcases hold_cases r ref timeout with heq | ⟨timer, d⟩
  · rwa [heq]
  · exact h.adds d

theorem Scheduled.upgrade (h : r.Scheduled) (id : HoldId) : (r.upgrade id).2.Scheduled := by
  unfold Recorder.upgrade
  split
  · exact h
  next x hx =>
    split
    · refine ⟨h.running, h.inOrder, h.mem_iff, ?_, h.nodup, h.timed⟩
      intro ref a ha
      obtain ⟨y, hy, hspan, htimer⟩ := h.recorded ref a ha
      show ∃ z, (r.holds.setIfInBounds id { x with upgraded := true })[a.hold]? = some z ∧ _
      rw [Array.getElem?_setIfInBounds]
      by_cases hid : id = a.hold
      · rw [← hid, hx] at hy
        obtain rfl := Option.some.inj hy
        rw [if_pos hid, if_pos (Array.getElem?_eq_some_iff.mp hx).1]
        exact ⟨_, rfl, hspan, htimer⟩
      · rw [if_neg hid]
        exact ⟨y, hy, hspan, htimer⟩
    · exact h

/-! ## Deadlines that fire -/

/-- A deadline that fires takes the place of a release at that time: where its timer is taken out of
the queue does not matter. -/
theorem Scheduled.timeOut_eq {q : DeadlineQueue} {now : Nanos} (h : r.Scheduled)
    (hp : r.deadlines.popDue? now = some (timer, q)) (thread : Nat) :
    { r with deadlines := q }.timeOut thread timer =
      (r.closeHold thread timer.hold timer.ticks).2 := by
  obtain ⟨hq, -, -⟩ := popDue?_eq_some hp
  have hcancel : q.cancel timer = r.deadlines.cancel timer := cancel_of_popDue? h.inOrder hp
  obtain ⟨ref, hm⟩ := (h.mem_iff timer).mp (by simp [hq])
  obtain ⟨x, hx, rfl, -⟩ := h.recorded ref timer hm
  have hactive : r.isActive timer.hold = true := isActive_iff.mpr ⟨x, hx, timer, hm, rfl⟩
  cases hf : (r.span? x.span).bind
      (·.release? timer.hold (r.countedTime timer.hold timer.ticks)) with
  | none =>
    rw [isActive_of_release? hx hf] at hactive
    contradiction
  | some freed =>
    obtain ⟨s, hs, hfreed⟩ := Option.bind_eq_some_iff.mp hf
    obtain ⟨hmem, hid, -, -⟩ := Span.release?_eq_some hfreed
    have htimer : freed.timer = timer := (h.unique (pendingOf_of_span? hs ▸ hmem) hm hid).1
    have htimed : r.timed = true := h.timed x.span timer hm
    unfold timeOut closeHold
    rw [release_of_release? hx hs hfreed, show countedTime { r with deadlines := q } timer.hold
      timer.ticks = r.countedTime timer.hold timer.ticks from rfl,
      release_of_release? (r := { r with deadlines := q }) hx hs hfreed]
    simp only [cancelTimers, put, emit, htimed, if_true, List.foldl_cons, List.foldl_nil, htimer,
      hcancel]

/-- The timers of the deadlines that fire, in their order. -/
def fired : Nat → Nat → Recorder → List Timer
  | 0, _, _ => []
  | count + 1, thread, r =>
    match r.deadlines.popDue? r.clock.ticks.toNat with
    | none => []
    | some (timer, deadlines) =>
      timer :: fired count thread ({ r with deadlines }.timeOut thread timer)

/-- Letting deadlines fire is releasing their holds one after another, each at its deadline. -/
theorem Scheduled.fireUpTo_eq (h : r.Scheduled) (count thread : Nat) :
    fireUpTo count thread r =
      r.play ((fired count thread r).map fun a => .closeHold thread a.hold a.ticks) := by
  induction count generalizing r with
  | zero => rfl
  | succ count ih =>
    unfold fireUpTo fired
    cases hp : r.deadlines.popDue? r.clock.ticks.toNat with
    | none => rfl
    | some found =>
      obtain ⟨timer, q⟩ := found
      dsimp only
      rw [h.timeOut_eq hp]
      exact ih (h.release thread timer.hold _)

theorem Scheduled.fireUpTo (h : r.Scheduled) (count thread : Nat) :
    (fireUpTo count thread r).Scheduled := by
  rw [h.fireUpTo_eq]
  generalize fired count thread r = timers
  induction timers generalizing r with
  | nil => exact h
  | cons a timers ih => exact ih (h.release thread a.hold _)

/-! ## Runs -/

theorem Scheduled.move (h : r.Scheduled) (m : Move) : (r.move m).Scheduled := by
  cases hm : m.concernsHolds with
  | false => exact h.drops (sameHolds_move r hm).drops
  | true =>
    cases m with
    | discard thread ref =>
      rcases h.discard_cases thread ref with heq | ⟨-, d⟩
      · show (r.discard thread ref).2.Scheduled
        rwa [heq]
      · exact h.drops d
    | hold ref timeout => exact h.hold ref timeout
    | upgrade id => exact h.upgrade id
    | closeHold thread id time => exact h.release thread id _
    | cancelHold thread id => exact h.release thread id none
    | expire thread count => exact h.fireUpTo count thread
    | setClock clock => exact ⟨h.running, h.inOrder, h.mem_iff, h.recorded, h.nodup, h.timed⟩
    | _ => contradiction

theorem Scheduled.play (h : r.Scheduled) (moves : List Move) : (r.play moves).Scheduled := by
  induction moves generalizing r with
  | nil => exact h
  | cons m moves ih => exact ih (h.move m)

end SpanRelay.Recorder
