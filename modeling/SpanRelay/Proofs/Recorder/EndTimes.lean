import SpanRelay.Proofs.Recorder.Holds

/-!
The end time of a span is the latest of the time at which its end was won and of the times at which
upgraded holds were released, before or after that. The two are kept apart: the first in the mark of
the end, the others in the extension.
-/
namespace SpanRelay

/-! ## The latest time -/

namespace Ticks

theorem toNat_max (a b : Ticks) : (max a b).toNat = max a.toNat b.toNat := by
  show (if a ≤ b then b else a).toNat = _
  split
  next h =>
    have hle := UInt64.le_iff_toNat_le.mp h
    omega
  next h =>
    have hlt : ¬ a.toNat ≤ b.toNat := fun hle => h (UInt64.le_iff_toNat_le.mpr hle)
    omega

theorem max_assoc (a b c : Ticks) : max (max a b) c = max a (max b c) := by
  apply UInt64.toNat_inj.mp
  simp only [toNat_max]
  omega

theorem max_zero (a : Ticks) : max a 0 = a := by
  apply UInt64.toNat_inj.mp
  rw [toNat_max]
  exact Nat.max_zero _

theorem max_foldl_max (a b : Ticks) (times : List Ticks) :
    max a (times.foldl max b) = times.foldl max (max a b) := by
  induction times generalizing b with
  | nil => rfl
  | cons t times ih => rw [List.foldl_cons, List.foldl_cons, ih, max_assoc]

end Ticks

/-- The time at which the end of a span was won. -/
def Event.endTime? (ref : SpanRef) : Event → Option Ticks
  | .ended s time => if s = ref then some time else none
  | _ => none

namespace Recorder

/-! ## Releases that count -/

/-- The times at which ends of a span were won, the latest first. -/
def endTimes (r : Recorder) (ref : SpanRef) : List Ticks := r.log.filterMap (Event.endTime? ref)

/-- The time of a release, if the call answers that it released a hold of the span, and if the hold
was upgraded at that moment. -/
def closing (r : Recorder) (thread : Nat) (ref : SpanRef) (id : HoldId) (time : Ticks) :
    List Ticks :=
  if (r.closeHold thread id time).1 = true ∧
      ((r.holds[id]?).any fun h => h.span = ref ∧ h.upgraded = true) = true then [time]
  else []

/-- The times of the deadlines that fire and count. -/
def closingsUpTo (ref : SpanRef) : Nat → Nat → Recorder → List Ticks
  | 0, _, _ => []
  | count + 1, thread, r =>
    match r.deadlines.popDue? r.clock.ticks.toNat with
    | none => []
    | some (timer, deadlines) =>
      let r := { r with deadlines }
      r.closing thread ref timer.hold timer.ticks ++
        closingsUpTo ref count thread (r.timeOut thread timer)

/-- The times of the releases in a move that count for the end of a span. -/
def closingsBy (r : Recorder) (ref : SpanRef) : Move → List Ticks
  | .closeHold thread id time => r.closing thread ref id time
  | .expire thread count => closingsUpTo ref count thread r
  | _ => []

/-- The times of the releases in a run that count for the end of a span. -/
def closings (r : Recorder) (ref : SpanRef) : List Move → List Ticks
  | [] => []
  | m :: moves => r.closingsBy ref m ++ (r.move m).closings ref moves

variable {r t u : Recorder} {ref other : SpanRef} {s v : Span}

theorem extensionOf_cancelTimers (r : Recorder) (timers : List Timer) (ref : SpanRef) :
    (r.cancelTimers timers).extensionOf ref = r.extensionOf ref := by
  unfold extensionOf
  rw [span?_cancelTimers]

theorem extensionOf_release (r : Recorder) (thread : Nat) (id : HoldId) (time : Option Ticks)
    (ref : SpanRef) :
    (r.release thread id time).2.extensionOf ref =
      if (r.release thread id time).1 = true ∧ ((r.holds[id]?).any fun h => h.span = ref) = true then
        time.elim (r.extensionOf ref) (max (r.extensionOf ref))
      else r.extensionOf ref := by
  rcases release_cases r thread id time with
    ⟨-, heq⟩ | ⟨h, s, v, timer, hh, hs, -, -, -, hv, hanswer, hsame⟩
  · rw [heq]
    simp
  · rw [hsame.extensionOf, extensionOf_cancelTimers, extensionOf_put hs, hanswer, hh, hv]
    by_cases href : h.span = ref
    · simp [href, extensionOf_of_span? (href ▸ hs)]
    · simp [href]

/-- A release moves the extension of a span on to its time if it counts. -/
theorem extensionOf_closeHold (r : Recorder) (thread : Nat) (id : HoldId) (time : Ticks)
    (ref : SpanRef) :
    (r.closeHold thread id time).2.extensionOf ref =
      (r.closing thread ref id time).foldl max (r.extensionOf ref) := by
  unfold closing
  rw [closeHold, extensionOf_release]
  unfold countedTime
  cases hh : r.holds[id]? with
  | none => simp
  | some h =>
    cases hup : h.upgraded with
    | false => simp [hup]
    | true =>
      simp only [hup, if_true, Option.any_some, decide_eq_true_eq, and_true, Option.elim_some]
      split <;> rfl

theorem extensionOf_fireUpTo (count thread : Nat) (r : Recorder) (ref : SpanRef) :
    (fireUpTo count thread r).extensionOf ref =
      (closingsUpTo ref count thread r).foldl max (r.extensionOf ref) := by
  induction count generalizing r with
  | zero => rfl
  | succ count ih =>
    unfold fireUpTo closingsUpTo
    cases r.deadlines.popDue? r.clock.ticks.toNat with
    | none => rfl
    | some found =>
      dsimp only
      rw [ih, List.foldl_append, timeOut, extensionOf_closeHold]
      rfl

theorem extensionOf_move (r : Recorder) (m : Move) (ref : SpanRef) :
    (r.move m).extensionOf ref = (r.closingsBy ref m).foldl max (r.extensionOf ref) := by
  cases hm : m.concernsHolds with
  | false =>
    have hnone : r.closingsBy ref m = [] := by
      cases m <;> first | rfl | contradiction
    rw [hnone]
    exact (sameHolds_move r hm).extensionOf ref
  | true =>
    cases m with
    | discard thread target =>
      show (r.discard thread target).2.extensionOf ref = r.extensionOf ref
      rcases discard_cases r thread target with heq | ⟨s, v, hs, -, hv, -, hsame⟩
      · rw [heq]
      · rw [hsame.extensionOf, extensionOf_cancelTimers, extensionOf_put hs]
        split
        next heq => rw [hv, ← heq, extensionOf_of_span? hs]
        next => rfl
    | hold target timeout =>
      show (r.hold target timeout).2.extensionOf ref = r.extensionOf ref
      rcases hold_cases r target timeout with heq | ⟨timer, d⟩
      · rw [heq]
      · exact d.extensionOf ref
    | upgrade id =>
      show (r.upgrade id).2.extensionOf ref = r.extensionOf ref
      unfold upgrade
      split
      · rfl
      · split <;> rfl
    | closeHold thread id time => exact extensionOf_closeHold r thread id time ref
    | cancelHold thread id =>
      show (r.release thread id none).2.extensionOf ref = r.extensionOf ref
      rw [extensionOf_release]
      split <;> rfl
    | expire thread count => exact extensionOf_fireUpTo count thread r ref
    | setClock clock => rfl
    | _ => contradiction

theorem extensionOf_play (r : Recorder) (moves : List Move) (ref : SpanRef) :
    (r.play moves).extensionOf ref = (r.closings ref moves).foldl max (r.extensionOf ref) := by
  induction moves generalizing r with
  | nil => rfl
  | cons m moves ih =>
    show ((r.move m).play moves).extensionOf ref = _
    rw [ih, extensionOf_move, closings, List.foldl_append]

/-! ## The mark of the end -/

end Recorder

/-- What the mark of a span tells of the ends that were won. -/
structure Span.Marked (s : Span) (ends : List Ticks) : Prop where
  ofOpen : s.state.isOpen = true → ends = []
  endMark : s.endMark = ends.headD Span.noEnd
  once : ends.length ≤ 1

/-- The mark is left alone, and no span is opened. -/
def Span.KeepsMark (s t : Span) : Prop :=
  t.endMark = s.endMark ∧ (t.state.isOpen = true → s.state.isOpen = true)

namespace Span

variable {s t : Span}

theorem Edit.keepsMark (h : s.Edit t) : s.KeepsMark t := by
  constructor
  · cases h with
    | rename name =>
      unfold Span.rename
      split <;> rfl
    | set key value =>
      unfold setAttribute countDropped
      split <;> rfl
    | remove key =>
      unfold removeAttribute
      split <;> rfl
  · exact (Turn.change (.edit h)).isOpen

theorem keepsMark_process (h : s.process? = some t) : s.KeepsMark t := by
  obtain ⟨-, rfl⟩ := process?_eq_some h
  exact ⟨rfl, (Turn.change (.process h)).isOpen⟩

theorem keepsMark_discard {timers : List Timer} (h : s.discard? = some (timers, t)) :
    s.KeepsMark t.freeze := by
  obtain ⟨-, -, rfl⟩ := discard?_eq_some h
  exact ⟨rfl, (Turn.discard h).isOpen⟩

theorem keepsMark_hold {timer : Timer} (h : s.hold? timer = some t) : s.KeepsMark t := by
  obtain ⟨state, -, rfl⟩ := hold?_eq_some h
  exact ⟨rfl, (Turn.hold h).isOpen⟩

theorem keepsMark_release {id : HoldId} {time : Option Ticks} {freed : Release}
    (h : s.release? id time = some freed) : s.KeepsMark freed.span := by
  obtain ⟨-, -, hspan, -⟩ := release?_eq_some h
  constructor
  · rw [hspan]
  · exact (Turn.release h).isOpen

/-- The mark of a span that is no longer open stays. -/
theorem Turn.keepsMark (h : s.Turn t) (ho : s.state.isOpen = false) : s.KeepsMark t := by
  cases h with
  | change h =>
    cases h with
    | none => exact ⟨rfl, id⟩
    | edit h => exact h.keepsMark
    | inform => exact ⟨rfl, id⟩
    | close hopen time =>
      rw [ho] at hopen
      contradiction
    | process hp => exact keepsMark_process hp
    | freeze => exact ⟨rfl, id⟩
  | discard h => exact keepsMark_discard h
  | hold h => exact keepsMark_hold h
  | release h => exact keepsMark_release h

end Span

/-- Once a span is no longer open its mark is found again after any steps. -/
theorem Steps.endMark_eq {free : Bool} {a b : Scene} (h : Steps free a b) {ref : SpanRef} {s : Span}
    (hs : a.recorder.span? ref = some s) (ho : s.state.isOpen = false) :
    ∃ t, b.recorder.span? ref = some t ∧ t.endMark = s.endMark ∧ t.state.isOpen = false := by
  induction h with
  | refl => exact ⟨s, hs, rfl, ho⟩
  | tail _ hone ih =>
    obtain ⟨t, ht, hmark, hclosed⟩ := ih
    obtain ⟨u, hu, hturn⟩ := hone.span? ht
    obtain ⟨hsame, hopens⟩ := hturn.keepsMark hclosed
    exact ⟨u, hu, hsame.trans hmark, Bool.eq_false_iff.mpr (mt hopens (Bool.eq_false_iff.mp hclosed))⟩

namespace Recorder

variable {r t u : Recorder} {ref other : SpanRef} {s v : Span}

/-- The marks of all spans tell of the ends that were won, and no other ends were. -/
structure Marked (r : Recorder) : Prop where
  spans : ∀ ref s, r.span? ref = some s → s.Marked (r.endTimes ref)
  others : ∀ ref, r.span? ref = none → r.endTimes ref = []

theorem endTimes_congr (h : t.log = r.log) (ref : SpanRef) : t.endTimes ref = r.endTimes ref := by
  unfold endTimes
  rw [h]

theorem endTimes_emit (r : Recorder) (e : Event) (ref : SpanRef) :
    (r.emit e).endTimes ref = (e.endTime? ref).toList ++ r.endTimes ref := by
  unfold endTimes emit
  cases he : e.endTime? ref with
  | none => exact List.filterMap_cons_none he
  | some x => exact List.filterMap_cons_some he

theorem endTimes_announce (r : Recorder) (ready : Bool) (ref other : SpanRef) :
    (r.announce ready ref).endTimes other = r.endTimes other := by
  unfold announce
  split <;> rfl

theorem Marked.same (h : r.Marked) (hs : ∀ other, u.span? other = r.span? other)
    (he : ∀ other, u.endTimes other = r.endTimes other) : u.Marked := by
  constructor
  · intro other v hv
    rw [he]
    exact h.spans other v ((hs other).symm.trans hv)
  · intro other hv
    rw [he]
    exact h.others other ((hs other).symm.trans hv)

/-- One span is another now, whose mark is right. -/
theorem Marked.change (h : r.Marked)
    (hu : ∀ other, u.span? other = if ref = other then some v else r.span? other)
    (hv : v.Marked (u.endTimes ref))
    (he : ∀ other, ref ≠ other → u.endTimes other = r.endTimes other) : u.Marked := by
  constructor
  · intro other w hw
    rw [hu] at hw
    by_cases ho : ref = other
    · rw [if_pos ho] at hw
      obtain rfl := Option.some.inj hw
      exact ho ▸ hv
    · rw [if_neg ho] at hw
      rw [he other ho]
      exact h.spans other w hw
  · intro other hw
    rw [hu] at hw
    by_cases ho : ref = other
    · rw [if_pos ho] at hw
      contradiction
    · rw [if_neg ho] at hw
      rw [he other ho]
      exact h.others other hw

theorem Marked.put (h : r.Marked) (hs : r.span? ref = some s) (hv : s.KeepsMark v) :
    (r.put ref v).Marked := by
  obtain ⟨hopen, hmark, honce⟩ := h.spans ref s hs
  have hmarked : v.Marked (r.endTimes ref) :=
    ⟨fun ho => hopen (hv.2 ho), hv.1.trans hmark, honce⟩
  exact h.change (span?_put hs v) hmarked fun _ _ => rfl

theorem Marked.modify_freeze (h : r.Marked) (ref : SpanRef) : (r.modify ref Span.freeze).Marked := by
  cases hs : r.span? ref with
  | none => rwa [modify_of_none hs]
  | some s =>
    rw [modify_of_span? hs]
    exact h.put hs ⟨rfl, id⟩

theorem Marked.finish (h : r.Marked) (hs : r.span? ref = some s) (ho : s.state.isOpen = true)
    (time : Ticks) (ready : Bool) :
    (((r.put ref (s.closed time)).emit (.ended ref time)).announce ready ref).Marked := by
  have htimes : ∀ other, (((r.put ref (s.closed time)).emit (.ended ref time)).announce ready
      ref).endTimes other = (if ref = other then [time] else []) ++ r.endTimes other := by
    intro other
    rw [endTimes_announce, endTimes_emit]
    show (if ref = other then some time else none).toList ++ r.endTimes other = _
    split <;> rfl
  apply h.change (v := s.closed time)
  · intro other
    rw [span?_announce]
    exact span?_put hs _ other
  · rw [htimes, if_pos rfl, (h.spans ref s hs).ofOpen ho]
    constructor
    · simp [Span.not_isOpen_closed]
    · rfl
    · simp
  · intro other hne
    rw [htimes, if_neg hne, List.nil_append]

theorem Marked.deed {free : Bool} {a b : Scene} (hd : Deed free a b) (h : a.recorder.Marked) :
    b.recorder.Marked := by
  cases hd with
  | aside ha => exact h.same ha.span? (endTimes_congr ha.log)
  | @note r U e hn =>
    have hsame : ∀ other, (r.emit e).endTimes other = r.endTimes other := by
      intro other
      rw [endTimes_emit]
      cases e <;> first | contradiction | rfl
    exact h.same (fun _ => rfl) hsame
  | edit hs he => exact h.put hs he.keepsMark
  | inform hs a => exact h.put hs ⟨rfl, id⟩
  | sample hs p => exact h.put hs ⟨rfl, id⟩
  | finish hs ho time => exact h.finish hs ho time _
  | claim hf hs hp => exact h.put hs (Span.keepsMark_process hp)
  | receive hs hp hf =>
    exact (h.put hs (Span.keepsMark_process hp)).same (fun _ => rfl) fun _ => rfl
  | @sampleOut r U ref =>
    have hcount : r.countSampledOut.Marked := h.same (fun _ => rfl) fun _ => rfl
    exact hcount.modify_freeze ref
  | @reject r U ref =>
    have hcount : r.countRejected.Marked := h.same (fun _ => rfl) fun _ => rfl
    exact hcount.modify_freeze ref
  | @enqueue r U ref => exact (h.modify_freeze ref).same (fun _ => rfl) fun _ => rfl

theorem Marked.create (h : r.Marked) (hf : s.Fresh) :
    ({ r with spans := r.spans.push s } : Recorder).Marked := by
  have hnew : r.span? r.spans.size = none := Array.getElem?_eq_none (Nat.le_refl _)
  have hspan : ∀ other, ({ r with spans := r.spans.push s } : Recorder).span? other =
      if other = r.spans.size then some s else r.span? other := fun other => Array.getElem?_push
  constructor
  · intro other v hv
    show v.Marked (r.endTimes other)
    rw [hspan] at hv
    by_cases ho : other = r.spans.size
    · rw [if_pos ho] at hv
      obtain rfl := Option.some.inj hv
      rw [ho, h.others _ hnew]
      exact ⟨fun _ => rfl, hf.endMark, Nat.zero_le 1⟩
    · rw [if_neg ho] at hv
      exact h.spans other v hv
  · intro other hv
    show r.endTimes other = []
    rw [hspan] at hv
    by_cases ho : other = r.spans.size
    · rw [if_pos ho] at hv
      contradiction
    · rw [if_neg ho] at hv
      exact h.others other hv

theorem Marked.step {a b : Scene} (hs : Step true a b) (h : a.recorder.Marked) :
    b.recorder.Marked := by
  cases hs with
  | deed hd => exact h.deed hd
  | create hf => exact h.create hf
  | furnish hs hf a => exact h.put hs ⟨rfl, id⟩
  | discard hs hd =>
    exact (h.put hs (Span.keepsMark_discard hd)).same (span?_cancelTimers _ _)
      (endTimes_congr (log_cancelTimers _ _))
  | hold hs hi hh ht =>
    exact (h.put hs (Span.keepsMark_hold hh)).same (fun _ => rfl) fun _ => rfl
  | @release r U id x s time freed q hh hs hr hq ht =>
    have hqueue : ({ r with deadlines := q } : Recorder).Marked := h.same (fun _ => rfl) fun _ => rfl
    have hs : ({ r with deadlines := q } : Recorder).span? x.span = some s := hs
    apply (hqueue.put hs (Span.keepsMark_release hr)).same
    · intro other
      rw [span?_announce, span?_cancelTimers]
      rfl
    · intro other
      rw [endTimes_announce, endTimes_congr (log_cancelTimers _ _), endTimes_emit]
      rfl
  | @detach r U =>
    obtain ⟨handles, heq⟩ := exists_emptied_eq r
    rw [heq]
    exact h.same (fun _ => rfl) fun _ => rfl
  | _ => exact h.same (fun _ => rfl) fun _ => rfl

theorem Marked.steps {a b : Scene} (hs : Steps true a b) (h : a.recorder.Marked) :
    b.recorder.Marked := by
  induction hs with
  | refl => exact h
  | tail _ hone ih => exact ih.step hone

theorem marked_start (clock : Clock) (limits : AttributeLimits) (timed : Bool) (sink : Sink)
    (sampler : Sampler) (trigger : Nat) (timeout : Nanos) :
    (start clock limits timed sink sampler trigger timeout).Marked :=
  ⟨by simp [start, Recorder.span?], fun _ _ => rfl⟩

/-! ## Ends that are won -/

theorem endTimes_suffix_deed {free : Bool} {a b : Scene} (h : Deed free a b) (ref : SpanRef) :
    a.recorder.endTimes ref <:+ b.recorder.endTimes ref := by
  cases h with
  | aside h => exact (endTimes_congr h.log ref).symm ▸ List.suffix_rfl
  | note =>
    rw [endTimes_emit]
    exact List.suffix_append _ _
  | finish =>
    rw [endTimes_announce, endTimes_emit]
    exact List.suffix_append _ _
  | sampleOut => exact (endTimes_congr (log_modify _ _ _) ref).symm ▸ List.suffix_rfl
  | reject => exact (endTimes_congr (log_modify _ _ _) ref).symm ▸ List.suffix_rfl
  | @enqueue r U other =>
    have hsame : (r.modify other Span.freeze).endTimes ref = r.endTimes ref :=
      endTimes_congr (log_modify r other Span.freeze) ref
    exact hsame.symm ▸ List.suffix_rfl
  | _ => exact List.suffix_rfl

theorem endTimes_suffix {free : Bool} {a b : Scene} (h : Deeds free a b) (ref : SpanRef) :
    a.recorder.endTimes ref <:+ b.recorder.endTimes ref := by
  induction h with
  | refl => exact List.suffix_rfl
  | tail _ hd ih => exact ih.trans (endTimes_suffix_deed hd ref)

theorem Marked.length_endTimes_le (h : r.Marked) (ref : SpanRef) : (r.endTimes ref).length ≤ 1 := by
  cases hs : r.span? ref with
  | none => simp [h.others ref hs]
  | some s => exact (h.spans ref s hs).once

theorem Marked.exists_endMark (h : r.Marked) {time : Ticks} {times : List Ticks}
    (hends : r.endTimes ref = time :: times) :
    ∃ s, r.span? ref = some s ∧ s.endMark = time := by
  cases hs : r.span? ref with
  | none =>
    rw [h.others ref hs] at hends
    contradiction
  | some s =>
    have hmark := (h.spans ref s hs).endMark
    rw [hends] at hmark
    exact ⟨s, rfl, hmark⟩

/-- A call wins the end of a span exactly if the span is open; its time is the only one then. -/
theorem Marked.tryEnd (h : r.Marked) (hs : r.span? ref = some s) (thread : Nat) (time : Ticks) :
    (r.tryEnd thread ref time).1 = s.state.isOpen ∧
      (r.tryEnd thread ref time).2.endTimes ref =
        if s.state.isOpen = true then [time] else r.endTimes ref := by
  by_cases ho : s.state.isOpen = true
  · obtain ⟨t, halike, heq⟩ := exists_endWith_eq hs ho (handOver thread) thread time
    have hwon : t.endTimes ref = [time] := by
      rw [endTimes_congr halike.log, endTimes_emit]
      show _ ++ r.endTimes ref = _
      rw [(h.spans ref s hs).ofOpen ho]
      simp [Event.endTime?]
    rw [Recorder.tryEnd, heq, if_pos ho]
    apply And.intro ho.symm
    split
    · have hmarked : t.Marked :=
        (h.finish hs ho time false).same halike.span? (endTimes_congr halike.log)
      have hnote : (t.emit (.handedOver ref)).Marked := hmarked.same (fun _ => rfl) fun _ => rfl
      have hdeeds : Deeds true ⟨t.emit (.handedOver ref), []⟩ ⟨handOver thread t ref, []⟩ :=
        carries_handOver true thread _ t [] ref (fun hf => by contradiction) (Nat.lt_succ_self _)
      have hgrown : [time] <:+ (handOver thread t ref).endTimes ref :=
        hwon ▸ endTimes_suffix hdeeds ref
      have honce := (hnote.steps (Deeds.steps hdeeds)).length_endTimes_le ref
      exact (hgrown.eq_of_length_le honce).symm
    · exact hwon
  · have hopen : ¬ ∃ u, r.span? ref = some u ∧ u.state.isOpen = true := by
      rintro ⟨u, hu, hop⟩
      obtain rfl := Option.some.inj (hs.symm.trans hu)
      exact ho hop
    rw [Recorder.tryEnd, endWith_of_not_isOpen hopen, if_neg ho]
    exact ⟨(Bool.eq_false_iff.mpr ho).symm, rfl⟩

/-! ## Runs -/

/-- After any run at most one end of a span was won. Its end time is then the latest of the time of
that end and of the times of the releases that counted, and there is none before (the last tick that
can be written stands for none). An end is won by the call that finds the span open, and answers
so. -/
theorem endTime_play (clock : Clock) (limits : AttributeLimits) (timed : Bool) (sink : Sink)
    (sampler : Sampler) (trigger : Nat) (timeout : Nanos) (moves : List Move) {ref : SpanRef}
    {s : Span} {r : Recorder}
    (hr : r = (start clock limits timed sink sampler trigger timeout).play moves)
    (hs : r.span? ref = some s) :
    let times := (start clock limits timed sink sampler trigger timeout).closings ref moves
    s.endTime? = (r.endTimes ref).head?.bind
        (fun time => if time = Span.noEnd then none else some (times.foldl max time)) ∧
      (r.endTimes ref).length ≤ 1 ∧
      ∀ thread time, (r.tryEnd thread ref time).1 = s.state.isOpen ∧
        (r.tryEnd thread ref time).2.endTimes ref =
          if s.state.isOpen = true then [time] else r.endTimes ref := by
  intro times
  have hrun : Steps true ⟨start clock limits timed sink sampler trigger timeout, []⟩ ⟨r, []⟩ :=
    hr ▸ steps_play (.inl rfl)
  have hmarked : r.Marked := (marked_start clock limits timed sink sampler trigger timeout).steps hrun
  have hextension : s.extension = times.foldl max 0 := by
    have hplay := extensionOf_play (start clock limits timed sink sampler trigger timeout) moves ref
    rw [← hr, extensionOf_of_span? hs] at hplay
    exact hplay
  refine ⟨?_, hmarked.length_endTimes_le ref, hmarked.tryEnd hs⟩
  have hmark := (hmarked.spans ref s hs).endMark
  unfold Span.endTime?
  rw [hmark, hextension, Ticks.max_foldl_max, Ticks.max_zero]
  cases r.endTimes ref with
  | nil => rfl
  | cons time rest => rfl

/-- A release that was upgraded extends the end, before or after it was won; one that was not does
not. -/
theorem endTime_play_extended :
    let r := (start default .standard true .batch .discarding 100 0).play
      [.create 0 (.ofNumbers 1 1) (.named ""), .hold 0 50, .hold 0 50, .hold 0 50, .upgrade 0,
        .upgrade 1, .closeHold 0 0 9, .finish 0 0 7, .closeHold 0 2 40, .closeHold 0 1 8,
        .closeHold 0 1 30]
    ∃ s, r.span? 0 = some s ∧ s.endTime? = some 9 ∧ ∀ thread time,
      (r.tryEnd thread 0 time).1 = s.state.isOpen := by
  intro r
  obtain ⟨s, hs⟩ := Option.isSome_iff_exists.mp (by decide +kernel : (r.span? 0).isSome = true)
  obtain ⟨htime, -, hends⟩ := endTime_play default .standard true .batch .discarding 100 0 _ rfl hs
  refine ⟨s, hs, ?_, fun thread time => (hends thread time).1⟩
  rw [htime]
  decide +kernel

end Recorder
end SpanRelay
