import SpanRelay.Proofs.Dictionary
import SpanRelay.Proofs.Recorder.Holds
import SpanRelay.Proofs.Recorder.Strides

/-!
A span that was claimed for the backlog is frozen. Three guards keep its record as it was: its state
keeps the name and the mark of the end, the seal keeps the attributes, and the extension stays since
no hold is left to be released. Sampling may still set the probability, which is not in the record.
-/
namespace SpanRelay

open Recorder

/-! ## Records -/

/-- What is told of a span once it is over, apart from the probability at which it was sampled. -/
structure SpanRecord where
  name : String
  context : SpanContext
  parent : SpanId
  kind : SpanKind
  category : SpanCategory
  start : Ticks
  endTime : Option Ticks
  attributes : List (String × AttributeValue)

namespace Span

def record (s : Span) : SpanRecord where
  name := s.name
  context := s.context
  parent := s.parent
  kind := s.kind
  category := s.category
  start := s.start
  endTime := s.endTime?
  attributes := s.attributes.entries.filter fun e => e.1 ≠ probabilityKey

/-- The three guards of a record. -/
structure Frozen (s : Span) : Prop where
  state : s.state = .processed
  isSealed : s.isSealed = true
  pending : s.pending = []

variable {s t : Span}

theorem record_setProbability (s : Span) (p : Binary64) : (s.setProbability p).record = s.record := by
  unfold record setProbability setInternal
  congr 1
  exact Dictionary.filter_insert s.attributes probabilityKey _

theorem Frozen.edit (h : s.Frozen) (he : s.Edit t) : t.Frozen ∧ t.record = s.record := by
  cases he with
  | rename name =>
    have hsame : s.rename name = s := by
      unfold Span.rename
      rw [if_neg (by simp [h.state, SpanState.isOpen])]
    rw [hsame]
    exact ⟨h, rfl⟩
  | set key value =>
    have hsame : s.setAttribute key value = s.countDropped := by
      unfold setAttribute
      rw [if_pos (by simp [refuses, h.isSealed])]
    rw [hsame]
    exact ⟨⟨h.state, h.isSealed, h.pending⟩, rfl⟩
  | remove key =>
    have hsame : (s.removeAttribute key).2 = s := by
      unfold removeAttribute
      rw [if_pos h.isSealed]
    rw [hsame]
    exact ⟨h, rfl⟩

theorem Frozen.advance (h : s.Frozen) (ha : s.Advance t) : t.Frozen ∧ t.record = s.record := by
  cases ha with
  | sample p => exact ⟨⟨h.state, h.isSealed, h.pending⟩, record_setProbability s p⟩
  | beginEnd hb time =>
    have ho := (beginEnd?_eq_some hb).1
    rw [h.state] at ho
    contradiction
  | finishEnd =>
    have hsame : s.finishEnd.2 = s := by
      unfold Span.finishEnd move?
      rw [h.state]
      rfl
    rw [hsame]
    exact ⟨h, rfl⟩
  | process hp =>
    have hf := (process?_eq_some hp).1
    rw [h.state] at hf
    contradiction
  | freeze => exact ⟨⟨h.state, rfl, h.pending⟩, rfl⟩

end Span

namespace Recorder

/-- The span is frozen with this record and this count of refused attributes. -/
def Keeps (r : Recorder) (ref : SpanRef) (record : SpanRecord) (dropped : UInt32) : Prop :=
  ∃ s, r.span? ref = some s ∧ s.Frozen ∧ s.record = record ∧ s.dropped = dropped

variable {r t : Recorder} {ref other : SpanRef} {s v : Span} {record : SpanRecord} {n : UInt32}

theorem Keeps.congr (h : r.Keeps ref record n) (hs : t.span? ref = r.span? ref) :
    t.Keeps ref record n := by
  obtain ⟨s, hspan, hrest⟩ := h
  exact ⟨s, hs.trans hspan, hrest⟩

theorem Keeps.put_other (h : r.Keeps ref record n) (hs : r.span? other = some s)
    (hne : other ≠ ref) : (r.put other v).Keeps ref record n := by
  apply h.congr
  rw [span?_put hs, if_neg hne]

theorem Keeps.setsAside (h : r.Keeps ref record n) : r.SetsAside fun other => other = ref := by
  rintro other rfl
  obtain ⟨s, hs, hf, -⟩ := h
  exact ⟨s, hs, by rw [hf.state]; rfl⟩

/-- What is done to the span itself leaves its record alone. -/
theorem Keeps.put (h : r.Keeps ref record n) (hs : r.span? other = some s)
    (hv : s.Frozen → v.Frozen ∧ v.record = s.record ∧ v.dropped = s.dropped) :
    (r.put other v).Keeps ref record n := by
  by_cases ho : other = ref
  · obtain ⟨u, hu, hf, rfl, rfl⟩ := h
    subst ho
    obtain rfl := Option.some.inj (hs.symm.trans hu)
    obtain ⟨hfrozen, hrecord, hdropped⟩ := hv hf
    exact ⟨v, span?_put_self hs v, hfrozen, hrecord, hdropped⟩
  · exact h.put_other hs ho

end Recorder

variable {r t : Recorder} {ref other : SpanRef} {s v : Span} {record : SpanRecord} {n : UInt32}

/-! ## Hand-overs of other spans -/

theorem Touch.keeps (h : Touch (fun other => other = ref) r t) (hk : r.Keeps ref record n) :
    t.Keeps ref record n := by
  cases h with
  | edit hne hs he => exact hk.put_other hs hne
  | inform hne hs key value => exact hk.put_other hs hne
  | advance hs ha =>
    apply hk.put hs
    intro hf
    obtain ⟨hfrozen, hrecord⟩ := hf.advance ha
    exact ⟨hfrozen, hrecord, ha.same.2.2⟩
  | detach hs ho thread => exact hk.congr (span?_detach ..)
  | _ => exact hk.congr rfl

theorem Touches.keeps (h : Touches (fun other => other = ref) r t) (hk : r.Keeps ref record n) :
    t.Keeps ref record n := by
  induction h with
  | refl => exact hk
  | tail _ hone ih => exact hone.keeps ih

theorem Stride.keeps (h : Stride (fun other => other = ref) r t) (hk : r.Keeps ref record n) :
    t.Keeps ref record n := by
  cases h with
  | touch h => exact h.keeps hk
  | discard hs hd =>
    apply Keeps.congr _ (span?_cancelTimers ..)
    apply hk.put hs
    intro hf
    have hsome := (Span.discard?_eq_some hd).1
    rw [hf.state] at hsome
    contradiction
  | release hs hr =>
    -- No hold is pending on the span, so that what is released is another.
    apply Keeps.congr _ (span?_cancelTimers ..)
    apply hk.put hs
    intro hf
    have hmem := (Span.release?_eq_some hr).1
    rw [hf.pending] at hmem
    contradiction
  | empty =>
    obtain ⟨handles, heq⟩ := exists_emptied_eq r
    rw [heq]
    exact hk.congr rfl
  | _ => exact hk.congr rfl

theorem Strides.keeps (h : Strides (fun other => other = ref) r t) (hk : r.Keeps ref record n) :
    t.Keeps ref record n := by
  induction h with
  | refl => exact hk
  | tail _ hone ih => exact hone.keeps ih

namespace Recorder

/-! ## Moves -/

/-- Sets an attribute of the span. -/
def Move.setsAttributeOf (ref : SpanRef) : Move → Bool
  | .setAttribute other _ _ => other == ref
  | _ => false

theorem Keeps.modify (h : r.Keeps ref record n) {f : Span → Span} (hf : ∀ s : Span, s.Edit (f s))
    (hd : ∀ s : Span, s.Frozen → (f s).dropped = s.dropped) (other : SpanRef) :
    (r.modify other f).Keeps ref record n := by
  cases hs : r.span? other with
  | none => rwa [modify_of_none hs]
  | some s =>
    rw [modify_of_span? hs]
    apply h.put hs
    intro hfrozen
    obtain ⟨hafter, hrecord⟩ := hfrozen.edit (hf s)
    exact ⟨hafter, hrecord, hd s hfrozen⟩

theorem add_ofNat_zero (n : UInt32) : n + UInt32.ofNat 0 = n := UInt32.add_zero n

theorem Keeps.setAttribute (h : r.Keeps ref record n) (other : SpanRef) (key : String)
    (value : AttributeValue) :
    (r.modify other (·.setAttribute key value)).Keeps ref record
      (n + UInt32.ofNat (if (other == ref) = true then 1 else 0)) := by
  by_cases ho : other = ref
  · subst ho
    obtain ⟨s, hs, hf, rfl, rfl⟩ := h
    obtain ⟨hafter, hrecord⟩ := hf.edit (.set key value)
    rw [modify_of_span? hs]
    refine ⟨_, span?_put_self hs _, hafter, hrecord, ?_⟩
    unfold Span.setAttribute
    rw [if_pos (by simp [Span.refuses, hf.isSealed]), if_pos (by simp)]
    rfl
  · rw [if_neg (by simpa using ho), add_ofNat_zero]
    cases hs : r.span? other with
    | none => rwa [modify_of_none hs]
    | some s =>
      rw [modify_of_span? hs]
      exact h.put_other hs ho

theorem Keeps.build (h : r.Keeps ref record n) (thread : Nat) (fresh : FreshIds) (q : SpanRequest) :
    (r.build thread fresh q).2.Keeps ref record n ∧ (r.build thread fresh q).1 ≠ ref := by
  obtain ⟨href, s, t, -, halike, hpush⟩ := exists_build_eq r thread fresh q
  have hlt : ref < r.spans.size := by
    obtain ⟨u, hu, -⟩ := h
    exact (Array.getElem?_eq_some_iff.mp hu).1
  constructor
  · apply h.congr
    rw [hpush.span?]
    unfold span?
    rw [halike.spans, Array.getElem?_push, if_neg (Nat.ne_of_lt hlt)]
  · rw [href]
    exact Nat.ne_of_gt hlt

theorem Keeps.runStartCallbacks (h : r.Keeps ref record n) (thread : Nat) (hne : other ≠ ref)
    (items : List Registration) :
    (runStartCallbacks thread other items r).Keeps ref record n :=
  Touches.keeps (touches_runStartCallbacks h.setsAside thread hne items) h

theorem Keeps.createWith (h : r.Keeps ref record n) (thread : Nat) (fresh : FreshIds)
    (q : SpanRequest) (own : List (String × String)) :
    (r.createWith thread fresh q own).2.Keeps ref record n := by
  obtain ⟨hbuilt, hne⟩ := h.build thread fresh q
  obtain ⟨s, -, hs⟩ := exists_span?_build r thread fresh q
  unfold Recorder.createWith
  dsimp only
  rw [modify_of_span? hs]
  exact (hbuilt.put_other hs hne).runStartCallbacks thread hne _

theorem Keeps.hold (h : r.Keeps ref record n) (other : SpanRef) (timeout : Nanos) :
    (r.hold other timeout).2.Keeps ref record n := by
  unfold Recorder.hold
  split
  · exact h
  · dsimp only
    split
    · exact h
    next v hh =>
      obtain ⟨s, hs, hh⟩ := Option.bind_eq_some_iff.mp hh
      have hput : (r.put other v).Keeps ref record n := by
        apply h.put hs
        intro hf
        obtain ⟨state, hstate, -⟩ := Span.hold?_eq_some hh
        rw [hf.state] at hstate
        contradiction
      exact hput.congr rfl

theorem Keeps.move (h : r.Keeps ref record n) (m : Move) :
    (r.move m).Keeps ref record
      (n + UInt32.ofNat (if m.setsAttributeOf ref = true then 1 else 0)) := by
  have hsame : (r.move m).Keeps ref record n → (r.move m).Keeps ref record (n + UInt32.ofNat 0) := by
    intro hk
    rwa [add_ofNat_zero]
  cases m with
  | create thread fresh q =>
    obtain ⟨hbuilt, hne⟩ := h.build thread fresh q
    exact hsame (hbuilt.runStartCallbacks thread hne _)
  | createWith thread fresh q own => exact hsame (h.createWith thread fresh q own)
  | rename other name =>
    apply hsame
    apply h.modify fun _ => .rename name
    intro s _
    unfold Span.rename
    split <;> rfl
  | setAttribute other key value => exact h.setAttribute other key value
  | removeAttribute other key =>
    apply hsame
    apply h.modify fun _ => .remove key
    intro s _
    unfold Span.removeAttribute
    split <;> rfl
  | finish thread other time =>
    exact hsame (Touches.keeps (touches_endWith (touching_handOver _ thread) h.setsAside thread
      other time) h)
  | discard thread other => exact hsame ((strides_discard r thread other).keeps h)
  | claim other => exact hsame ((strides_claim r other).keeps h)
  | present thread other =>
    exact hsame (Touches.keeps (touching_handOver _ thread r other h.setsAside) h)
  | hold other timeout => exact hsame (h.hold other timeout)
  | upgrade id => exact hsame ((strides_upgrade r id).keeps h)
  | closeHold thread id time => exact hsame ((strides_release h.setsAside thread id _).keeps h)
  | cancelHold thread id => exact hsame ((strides_release h.setsAside thread id none).keeps h)
  | expire thread count => exact hsame ((strides_fireUpTo h.setsAside count thread).keeps h)
  | setClock clock => exact hsame (h.congr rfl)
  | setSampler sampler => exact hsame (h.congr rfl)
  | enrol atEnd priority label acts => exact hsame ((strides_enrol r _ priority).keeps h)
  | force => exact hsame (Touches.keeps (touches_forceCurrentBatch r) h)
  | collect => exact hsame ((strides_collectNextBatch r).keeps h)

theorem Keeps.play (h : r.Keeps ref record n) (moves : List Move) :
    (r.play moves).Keeps ref record
      (n + UInt32.ofNat (moves.countP (·.setsAttributeOf ref))) := by
  induction moves generalizing r n with
  | nil =>
    rw [List.countP_nil, add_ofNat_zero]
    exact h
  | cons m moves ih =>
    have hnext := ih (h.move m)
    rw [UInt32.add_assoc, ← UInt32.ofNat_add, Nat.add_comm, ← List.countP_cons] at hnext
    exact hnext

end Recorder

/-! ## Spans that are not held -/

/-- A span that is not in a held state has no hold that could still be released. -/
def Span.Tidy (s : Span) : Prop :=
  s.state.isHeld = false → s.state.isFinal = false → s.pending = []

theorem Span.Turn.tidy {s t : Span} (h : s.Turn t) (hs : s.Tidy) : t.Tidy := by
  intro hheld hfinal
  cases h with
  | change h =>
    cases h with
    | none => exact hs hheld hfinal
    | edit h =>
      rw [h.state_pending.1] at hheld hfinal
      rw [h.state_pending.2]
      exact hs hheld hfinal
    | inform => exact hs hheld hfinal
    | close ho time =>
      unfold Span.closed at hheld hfinal ⊢
      cases hst : s.state <;> simp_all [Span.Tidy, SpanState.isOpen, SpanState.isHeld,
        SpanState.isFinal]
    | process hp =>
      obtain ⟨-, rfl⟩ := Span.process?_eq_some hp
      contradiction
    | freeze => exact hs hheld hfinal
  | discard h =>
    obtain ⟨-, -, rfl⟩ := Span.discard?_eq_some h
    contradiction
  | hold h =>
    obtain ⟨state, hstate, rfl⟩ := Span.hold?_eq_some h
    rw [SpanState.isHeld_of_hold? hstate] at hheld
    contradiction
  | @release freed id time h =>
    obtain ⟨hmem, -, hspan, -⟩ := Span.release?_eq_some h
    rw [hspan] at hheld hfinal ⊢
    dsimp only at hheld hfinal ⊢
    by_cases he : (s.pending.erase freed.timer).isEmpty = true
    · simpa using he
    · rw [if_neg he] at hheld hfinal
      rw [hs hheld hfinal] at hmem
      contradiction

namespace Recorder

theorem size_put (r : Recorder) (ref : SpanRef) (s : Span) :
    (r.put ref s).spans.size = r.spans.size := Array.size_setIfInBounds

theorem size_modify (r : Recorder) (ref : SpanRef) (f : Span → Span) :
    (r.modify ref f).spans.size = r.spans.size := by
  unfold modify
  split
  · exact size_put ..
  · rfl

theorem size_announce (r : Recorder) (ready : Bool) (ref : SpanRef) :
    (r.announce ready ref).spans.size = r.spans.size := by
  unfold announce
  split <;> rfl

theorem size_cancelTimers (r : Recorder) (timers : List Timer) :
    (r.cancelTimers timers).spans.size = r.spans.size := by
  unfold cancelTimers
  split <;> rfl

end Recorder

theorem Deed.size {free : Bool} {a b : Scene} (h : Deed free a b) :
    b.recorder.spans.size = a.recorder.spans.size := by
  cases h with
  | aside h => exact congrArg Array.size h.spans
  | note => rfl
  | finish => exact (size_announce ..).trans (size_put ..)
  | sampleOut => exact size_modify ..
  | reject => exact size_modify ..
  | @enqueue r U ref => exact size_modify r ref Span.freeze
  | receive hs hp hf => exact size_put ..
  | _ => exact size_put ..

/-- A step makes a new span, or there are as many as before. -/
theorem Step.size {free : Bool} {a b : Scene} (h : Step free a b) :
    (∃ s : Span, s.Fresh ∧ b.recorder.spans = a.recorder.spans.push s) ∨
      b.recorder.spans.size = a.recorder.spans.size := by
  cases h with
  | create hs => exact .inl ⟨_, hs, rfl⟩
  | deed h => exact .inr h.size
  | furnish => exact .inr (size_put ..)
  | discard => exact .inr ((size_cancelTimers ..).trans (size_put ..))
  | hold => exact .inr (size_put ..)
  | release => exact .inr ((size_announce ..).trans ((size_cancelTimers ..).trans (size_put ..)))
  | @detach r U =>
    obtain ⟨handles, heq⟩ := exists_emptied_eq r
    right
    rw [heq]
  | _ => exact .inr rfl

theorem Step.tidy {free : Bool} {a b : Scene} (h : Step free a b)
    (ha : ∀ ref s, a.recorder.span? ref = some s → s.Tidy) {ref : SpanRef} {t : Span}
    (ht : b.recorder.span? ref = some t) : t.Tidy := by
  cases hs : a.recorder.span? ref with
  | some s =>
    obtain ⟨u, hu, hturn⟩ := h.span? hs
    obtain rfl := Option.some.inj (ht.symm.trans hu)
    exact hturn.tidy (ha ref s hs)
  | none =>
    have hlt := (Array.getElem?_eq_some_iff.mp ht).1
    have hle := Array.getElem?_eq_none_iff.mp hs
    rcases h.size with ⟨s, hfresh, hpush⟩ | hsize
    · unfold Recorder.span? at ht
      rw [hpush, Array.getElem?_push] at ht
      split at ht
      · obtain rfl := Option.some.inj ht
        exact fun _ _ => hfresh.pending
      · rw [Array.getElem?_eq_none hle] at ht
        contradiction
    · omega

theorem Steps.tidy {free : Bool} {a b : Scene} (h : Steps free a b)
    (ha : ∀ ref s, a.recorder.span? ref = some s → s.Tidy) :
    ∀ ref t, b.recorder.span? ref = some t → t.Tidy := by
  induction h with
  | refl => exact ha
  | tail _ hone ih => exact fun ref t ht => hone.tidy ih ht

/-! ## Claimed spans -/

namespace Recorder

theorem span?_enqueue (r : Recorder) (ref other : SpanRef) :
    (r.enqueue ref).span? other = r.span? other := by
  rw [(alike_enqueue r ref).span?]
  rfl

/-- A hand-over that claims a span seals it, whatever becomes of it: it is put into the backlog,
sampled out, or vetoed. -/
theorem exists_receive (hs : r.span? ref = some s) (hf : s.state.isFinal = false)
    (thread depth : Nat) :
    ∃ v, (receive (handOverTo thread depth) thread r ref).span? ref = some v ∧
      v.state = .processed ∧ v.isSealed = true := by
  let claimed : Span := { s with state := .processed }
  have hp : s.process? = some claimed := by
    unfold Span.process? Span.move?
    cases hst : s.state <;> simp_all [SpanState.isFinal, SpanState.process?, claimed]
  have hfound : (r.span? ref).bind Span.process? = some claimed := by
    rw [hs]
    exact hp
  have hclaimed : (r.put ref claimed).countEnded.span? ref = some claimed :=
    span?_put_self hs claimed
  have hseal : ∀ u, Touches (fun _ => False) (r.put ref claimed).countEnded u →
      ∃ v, (u.modify ref Span.freeze).span? ref = some v ∧ v.state = .processed ∧
        v.isSealed = true := by
    intro u hu
    obtain ⟨x, hx, hstate⟩ := Touches.state_of_isFinal hu hclaimed rfl
    rw [modify_of_span? hx]
    exact ⟨x.freeze, span?_put_self hx _, hstate, rfl⟩
  have hsample := touches_sample (K := fun _ => False) (r.put ref claimed).countEnded ref
  let sampled := ((r.put ref claimed).countEnded.sample ref).2
  have hverdict : Touches (fun _ => False) sampled
      (judge (handOverTo thread depth) thread ref sampled).2 :=
    touches_judge (touching_handOverTo _ thread depth) (setsAside_none _) thread id
  have hjudge := hsample.trans hverdict
  unfold receive
  simp only [hfound]
  split
  · split
    · rw [span?_enqueue]
      exact hseal _ hjudge
    · exact hseal _ (hjudge.tail (.adjust _ _ _))
  · exact hseal _ (hsample.tail (.adjust _ _ _))

end Recorder

/-- The span as its own end or the release of its last hold leaves it, when it is to be handed
over. -/
inductive Span.Due : Span → Prop where
  | ended {s t : Span} (h : s.finishEnd = (true, t)) : Due t
  | released {s : Span} {id : HoldId} {time : Option Ticks} {freed : Span.Release}
      (h : s.release? id time = some freed) (hh : freed.handOver = true) : Due freed.span

theorem Span.Due.state {s : Span} (h : s.Due) : s.state = .ended := by
  cases h with
  | @ended u t h =>
    unfold Span.finishEnd Span.move? at h
    cases hu : u.state <;> simp_all [SpanState.finishEnd?]
    subst h
    rfl
  | released h hh => exact Span.state_of_handOver h hh

namespace Recorder

/-- At any moment of any run, a span is handed over that its own end or the release of its last hold
has left due. From then on, through what is left of the call that is under way and through any run
that follows, its record stays as it is, whatever became of it, and each call that sets an attribute
of it counts one more as refused. -/
theorem record_receive (clock : Clock) (limits : AttributeLimits) (timed : Bool) (sink : Sink)
    (sampler : Sampler) (trigger : Nat) (timeout : Nanos) {U : List SpanRef}
    (hr : Steps true ⟨start clock limits timed sink sampler trigger timeout, []⟩ ⟨r, U⟩)
    (hs : r.span? ref = some s) (hd : s.Due) (thread depth : Nat) :
    let t := receive (handOverTo thread depth) thread r ref
    ∃ v, t.span? ref = some v ∧ v.isSealed = true ∧
      ∀ u, Strides (fun other => other = ref) t u → ∀ moves : List Move,
        ∃ x, (u.play moves).span? ref = some x ∧ x.record = v.record ∧
          x.dropped = v.dropped + UInt32.ofNat (moves.countP (·.setsAttributeOf ref)) := by
  intro t
  have he : s.state = .ended := hd.state
  obtain ⟨v, hv, hstate, hsealed⟩ := exists_receive hs (by rw [he]; rfl) thread depth
  have hnone : s.pending = [] := by
    apply hr.tidy _ ref s hs
    · rw [he]
      rfl
    · rw [he]
      rfl
    · simp [start, Recorder.span?]
  have hsame : r.SameHolds t := Touches.sameHolds
    (touches_receive (touching_handOverTo _ thread depth) (setsAside_none r) thread ref)
  have hpending : v.pending = [] := by
    rw [← pendingOf_of_span? hv, hsame.pendingOf, pendingOf_of_span? hs, hnone]
  have hkeeps : t.Keeps ref v.record v.dropped := ⟨v, hv, ⟨hstate, hsealed, hpending⟩, rfl, rfl⟩
  refine ⟨v, hv, hsealed, ?_⟩
  intro u hu moves
  obtain ⟨x, hx, -, hrecord, hdropped⟩ := (hu.keeps hkeeps).play moves
  exact ⟨x, hx, hrecord, hdropped⟩

/-- A span that is in the backlog is renamed, given an attribute and handed over again in vain. -/
theorem record_receive_batched :
    let r := (start default .standard true .nowhere (.probability (.fixed .one)) 100 0).play
      [.create 0 (.ofNumbers 1 1) (.named "first"), .finish 0 0 7]
    let t := receive (handOverTo 0 2) 0 r 0
    let last := t.play [.rename 0 "second", .setAttribute 0 "key" (.bool true), .present 0 0]
    ∃ v x, t.span? 0 = some v ∧ last.span? 0 = some x ∧ x.record = v.record ∧
      x.dropped = v.dropped + 1 ∧ v.name = "first" ∧ t.batcher.batched = 1 := by
  intro r t last
  have hr : Steps true ⟨start default .standard true .nowhere (.probability (.fixed .one)) 100 0, []⟩
      ⟨r, []⟩ := steps_play (.inl rfl)
  obtain ⟨s, hs⟩ := Option.isSome_iff_exists.mp (by decide +kernel : (r.span? 0).isSome = true)
  have he : s.state = .ended := by
    have hmap : (r.span? 0).map Span.state = some .ended := by decide +kernel
    rw [hs] at hmap
    exact Option.some.inj hmap
  have hd : s.Due := by
    apply Span.Due.ended (s := { s with state := .ending })
    show (true, { s with state := .ended }) = (true, s)
    rw [← he]
  obtain ⟨v, hv, -, hlater⟩ :=
    record_receive default .standard true .nowhere (.probability (.fixed .one)) 100 0 hr hs hd 0 2
  obtain ⟨x, hx, hrecord, hdropped⟩ := hlater t .refl
    [.rename 0 "second", .setAttribute 0 "key" (.bool true), .present 0 0]
  have hname : (t.span? 0).map Span.name = some "first" := by decide +kernel
  rw [show t.span? 0 = some v from hv] at hname
  exact ⟨v, x, hv, hx, hrecord, hdropped, Option.some.inj hname, by decide +kernel⟩

end Recorder
end SpanRelay
