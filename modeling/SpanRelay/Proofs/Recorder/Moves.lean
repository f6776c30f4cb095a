import SpanRelay.Proofs.Recorder.Runs
import SpanRelay.Recorder.Moves

/-!
Runs of a recorder as sequences of steps: each of its operations is one, so that an invariant is
proved step by step.
-/
namespace SpanRelay

open Recorder

namespace Recorder

/-! ## Operations as sequences of steps -/

/-- Looking for a parent changes the stack of the thread alone. -/
theorem exists_parentFor_eq (r : Recorder) (thread : Nat) (explicit : Option SpanContext) :
    ∃ threadStacks, (r.parentFor thread explicit).2 = { r with threadStacks } := by
  cases explicit with
  | some c => exact ⟨r.threadStacks, rfl⟩
  | none =>
    unfold parentFor currentContext? current?
    dsimp only
    split
    · exact ⟨r.threadStacks, rfl⟩
    · exact exists_onStack_eq r thread _

theorem alike_parentFor (r : Recorder) (thread : Nat) (explicit : Option SpanContext) :
    r.Alike (r.parentFor thread explicit).2 := by
  obtain ⟨threadStacks, heq⟩ := exists_parentFor_eq r thread explicit
  rw [heq]
  exact ⟨rfl, rfl, rfl, rfl, rfl, rfl, rfl, rfl, rfl, rfl, rfl, rfl, rfl⟩

/-- Building a span changes the spans, the handles and the stack of the thread alone. -/
theorem exists_built_eq (r : Recorder) (thread : Nat) (fresh : FreshIds) (q : SpanRequest) :
    ∃ spans handles threadStacks,
      (r.build thread fresh q).2 = { r with spans, handles, threadStacks } := by
  obtain ⟨threadStacks, heq⟩ := exists_parentFor_eq r thread q.parent
  unfold build
  dsimp only
  rw [heq]
  split
  · obtain ⟨attached, hattached⟩ := exists_onStack_eq (Recorder.addHandle _ _) thread _
    exact ⟨_, _, attached, hattached⟩
  · exact ⟨_, _, threadStacks, rfl⟩

theorem alike_addHandle (r : Recorder) (ref : SpanRef) : r.Alike (r.addHandle ref) :=
  ⟨rfl, rfl, rfl, rfl, rfl, rfl, rfl, rfl, rfl, rfl, rfl, rfl, rfl⟩

end Recorder

section

variable {free : Bool} {r : Recorder} {U : List SpanRef}

theorem alike_attach (r : Recorder) (thread : Nat) (ref : SpanRef) :
    r.Alike (r.attach thread ref) := alike_onStack r thread _

/-- A new span is put behind the others. -/
theorem exists_build_eq (r : Recorder) (thread : Nat) (fresh : FreshIds) (q : SpanRequest) :
    (r.build thread fresh q).1 = r.spans.size ∧ ∃ s t, s.Fresh ∧ r.Alike t ∧
      ({ t with spans := t.spans.push s } : Recorder).Alike (r.build thread fresh q).2 := by
  have hparent := alike_parentFor r thread q.parent
  rcases hp : r.parentFor thread q.parent with ⟨parent, t⟩
  rw [hp] at hparent
  unfold build
  simp only [hp]
  generalize hs : (if q.category.marksFirstClass = true then Span.setInternal _ _ _ else _) = s
  refine ⟨congrArg Array.size hparent.spans, s, t, ?_, hparent, ?_⟩
  · rw [← hs]
    split
    · exact (Span.fresh_create ..).setInternal _ _
    · exact Span.fresh_create ..
  · split
    · exact (alike_addHandle _ _).trans (alike_attach _ _ _)
    · exact alike_addHandle _ _

theorem steps_build (r : Recorder) (thread : Nat) (fresh : FreshIds) (q : SpanRequest) :
    Steps free ⟨r, U⟩ ⟨(r.build thread fresh q).2, U⟩ := by
  obtain ⟨-, s, t, hs, halike, hpush⟩ := exists_build_eq r thread fresh q
  exact ((Relation.ReflTransGen.single (.deed (.aside halike))).tail (.create hs)).tail
    (.deed (.aside hpush))

theorem exists_span?_build (r : Recorder) (thread : Nat) (fresh : FreshIds) (q : SpanRequest) :
    ∃ s, s.Fresh ∧ (r.build thread fresh q).2.span? (r.build thread fresh q).1 = some s := by
  obtain ⟨href, s, t, hs, halike, hpush⟩ := exists_build_eq r thread fresh q
  refine ⟨s, hs, ?_⟩
  rw [href, hpush.span?, ← halike.spans]
  exact Array.getElem?_push_size

/-- The start callbacks are shown a span one after another; none of them claims it unless claiming
is free. -/
theorem deeds_runStartCallbacks {items : List Registration} (thread : Nat) (ref : SpanRef)
    (hq : free = true ∨ ∀ item ∈ items, ∀ act ∈ (r.callbackAt item.callback).acts,
      act.claims = false) :
    Deeds free ⟨r, U⟩ ⟨runStartCallbacks thread ref items r, U⟩ := by
  induction items generalizing r with
  | nil => exact .refl
  | cons item rest ih =>
    let callback := r.callbackAt item.callback
    have hnote : Deed free ⟨r, U⟩ ⟨r.emit (.calledAtStart callback.label ref), U⟩ := .note rfl
    have htame : Tame free callback.acts (r.emit (.calledAtStart callback.label ref)) ref := by
      rcases hq with hf | hq
      · exact .inl hf
      · exact .inr (.inl (hq item (by simp)))
    have hacts := deeds_runActs (r := r.emit (.calledAtStart callback.label ref)) (U := U)
      (carries_handOver free thread _) (Nat.le_refl _) thread callback.label htame true
    have hcall : Deeds free ⟨r, U⟩ _ := (Relation.ReflTransGen.single hnote).trans hacts
    refine hcall.trans (ih ?_)
    rcases hq with hf | hq
    · exact .inl hf
    · refine .inr fun other hm => ?_
      have hsame := (Deeds.callbacks hcall).1
      unfold callbackAt at hq ⊢
      rw [hsame]
      exact hq other (by simp [hm])

theorem Recorder.Quiet.acts_of_mem (hq : r.Quiet) {item : Registration}
    (hm : item ∈ r.onStart.entries) :
    ∀ act ∈ (r.callbackAt item.callback).acts, act.claims = false := by
  obtain ⟨c, hc, hstart⟩ := hq.starts item hm
  unfold callbackAt
  rw [hc, Option.getD_some]
  exact hq.acts c (Array.mem_of_getElem? hc) hstart

theorem steps_runStartCallbacks (hq : free = true ∨ r.Quiet) (thread : Nat) (ref : SpanRef) :
    Steps free ⟨r, U⟩ ⟨runStartCallbacks thread ref r.onStart.entries r, U⟩ := by
  refine (deeds_runStartCallbacks thread ref ?_).steps
  rcases hq with hf | hq
  · exact .inl hf
  · exact .inr fun item hm => hq.acts_of_mem hm

theorem steps_create (hq : free = true ∨ r.Quiet) (thread : Nat) (fresh : FreshIds)
    (q : SpanRequest) : Steps free ⟨r, U⟩ ⟨(r.create thread fresh q).2, U⟩ := by
  have hbuild : Steps free ⟨r, U⟩ _ := steps_build r thread fresh q
  have hquiet := Steps.quiet hbuild hq
  unfold create
  exact hbuild.trans (steps_runStartCallbacks hquiet thread _)

theorem steps_createWith (hq : free = true ∨ r.Quiet) (thread : Nat) (fresh : FreshIds)
    (q : SpanRequest) (own : List (String × String)) :
    Steps free ⟨r, U⟩ ⟨(r.createWith thread fresh q own).2, U⟩ := by
  have hbuild : Steps free ⟨r, U⟩ _ := steps_build r thread fresh q
  obtain ⟨s, hfresh, hs⟩ := exists_span?_build r thread fresh q
  obtain ⟨a, ha⟩ := Span.exists_foldl_setInternal own s
  unfold createWith
  dsimp only
  rw [modify_of_span? hs, ha]
  have hdress := hbuild.tail (.furnish hs hfresh a)
  exact hdress.trans (steps_runStartCallbacks (Steps.quiet hdress hq) thread _)

theorem steps_discard (r : Recorder) (thread : Nat) (ref : SpanRef) :
    Steps free ⟨r, U⟩ ⟨(r.discard thread ref).2, U⟩ := by
  unfold Recorder.discard
  split
  · exact .refl
  next timers t hd =>
    obtain ⟨s, hs, hd⟩ := Option.bind_eq_some_iff.mp hd
    have hone : Steps free ⟨r, U⟩ _ := .single (.discard hs hd)
    dsimp only
    split
    · exact hone.tail (.deed (.aside (alike_detach _ thread ref)))
    · exact hone

theorem steps_hold (r : Recorder) (ref : SpanRef) (timeout : Nanos) :
    Steps free ⟨r, U⟩ ⟨(r.hold ref timeout).2, U⟩ := by
  unfold hold
  split
  · exact .refl
  next htimed =>
    dsimp only
    split
    · exact .refl
    next t hh =>
      obtain ⟨s, hs, hh⟩ := Option.bind_eq_some_iff.mp hh
      have hone : Step free ⟨r, U⟩ _ := .hold hs rfl hh (by simpa using htimed)
      refine (Relation.ReflTransGen.single hone).tail (.deed (.aside ?_))
      exact ⟨rfl, rfl, rfl, rfl, rfl, rfl, rfl, rfl, rfl, rfl, rfl, rfl, rfl⟩

theorem steps_upgrade (r : Recorder) (id : HoldId) :
    Steps free ⟨r, U⟩ ⟨(r.upgrade id).2, U⟩ := by
  unfold upgrade
  split
  · exact .refl
  next h hh =>
    split
    next ha => exact .single (.upgrade hh ha)
    · exact .refl

/-! ### Releasing -/

theorem isActive_of_release? {id : HoldId} {h : Hold} {time : Option Ticks}
    (hh : r.holds[id]? = some h) (hn : (r.span? h.span).bind (·.release? id time) = none) :
    r.isActive id = false := by
  unfold isActive
  simp only [hh]
  cases hs : r.span? h.span with
  | none => rfl
  | some s =>
    rw [hs, Option.bind_some, Span.release?, Option.map_eq_none_iff, Span.free?_eq,
      Option.map_eq_none_iff, List.find?_eq_none] at hn
    simpa [Span.isHeldBy] using hn

/-- Releasing a hold, perhaps because its timer was taken out of the queue, is one step and then the
hand-over of the span, or nothing where the hold is not active. -/
theorem steps_release {id : HoldId} {q : DeadlineQueue} (hq : r.QueueFor id q) (thread : Nat)
    {time : Option Ticks}
    (ht : ∀ h, r.holds[id]? = some h → time.isSome = true → h.upgraded = true) :
    let t : Recorder := { r with deadlines := q }
    Steps free ⟨r, U⟩ ⟨(t.release thread id time).2, U⟩ ∨
      (t.release thread id time).2 = t ∧ r.isActive id = false := by
  intro t
  unfold release
  split
  next hh =>
    refine .inr ⟨rfl, ?_⟩
    unfold isActive
    rw [show r.holds[id]? = none from hh]
  next h hh =>
    split
    next hn => exact .inr ⟨rfl, isActive_of_release? (r := r) hh hn⟩
    next freed hfreed =>
      refine .inl ?_
      obtain ⟨s, hs, hr⟩ := Option.bind_eq_some_iff.mp hfreed
      have hone : Step free ⟨r, U⟩ _ := .release hh hs hr hq (ht h hh)
      dsimp only
      cases hready : freed.handOver with
      | false =>
        rw [hready] at hone
        exact .single hone
      | true =>
        rw [hready] at hone
        refine (Relation.ReflTransGen.single hone).trans (Deeds.steps ?_)
        refine carries_handOver free thread _ _ U h.span (fun _ => ⟨freed.span, ?_, ?_⟩)
          (Nat.lt_succ_self _)
        · rw [span?_cancelTimers]
          exact span?_put_self hs freed.span
        · exact Span.state_of_handOver hr hready

theorem countedTime_isSome (id : HoldId) (time : Ticks) (h : Hold) (hh : r.holds[id]? = some h)
    (hs : (r.countedTime id time).isSome = true) : h.upgraded = true := by
  unfold countedTime at hs
  simp only [hh] at hs
  split at hs
  · assumption
  · contradiction

theorem steps_closeHold (r : Recorder) (thread : Nat) (id : HoldId) (time : Ticks) :
    Steps free ⟨r, U⟩ ⟨(r.closeHold thread id time).2, U⟩ := by
  have hq : r.QueueFor id r.deadlines := .inl rfl
  have hone : Steps free ⟨r, U⟩ _ ∨ _ :=
    steps_release hq thread (countedTime_isSome id time)
  rcases hone with h | ⟨h, -⟩
  · exact h
  · rw [closeHold]
    exact h ▸ .refl

theorem steps_cancelHold (r : Recorder) (thread : Nat) (id : HoldId) :
    Steps free ⟨r, U⟩ ⟨(r.cancelHold thread id).2, U⟩ := by
  have hq : r.QueueFor id r.deadlines := .inl rfl
  have hnone : ∀ h, r.holds[id]? = some h → (none : Option Ticks).isSome = true →
      h.upgraded = true := fun _ _ hs => by contradiction
  have hone : Steps free ⟨r, U⟩ _ ∨ _ := steps_release hq thread hnone
  rcases hone with h | ⟨h, -⟩
  · exact h
  · rw [cancelHold]
    exact h ▸ .refl

theorem steps_fireUpTo (count thread : Nat) (r : Recorder) :
    Steps free ⟨r, U⟩ ⟨fireUpTo count thread r, U⟩ := by
  induction count generalizing r with
  | zero => exact .refl
  | succ count ih =>
    unfold fireUpTo
    split
    · exact .refl
    next timer q hp =>
      refine Relation.ReflTransGen.trans ?_ (ih _)
      have hq : r.QueueFor timer.hold q := .inr ⟨timer, _, hp, rfl⟩
      have hone : Steps free ⟨r, U⟩ _ ∨ _ :=
        steps_release hq thread (countedTime_isSome timer.hold timer.ticks)
      rcases hone with h | ⟨h, ha⟩
      · exact h
      · unfold timeOut closeHold
        rw [show countedTime { r with deadlines := q } timer.hold timer.ticks =
          r.countedTime timer.hold timer.ticks from rfl, h]
        exact .single (.lapse hp ha)

/-! ### Claiming, registering and collecting -/

theorem steps_claim (r : Recorder) (ref : SpanRef) :
    Steps true ⟨r, U⟩ ⟨(r.claim ref).2, U⟩ := by
  unfold claim
  split
  · exact .refl
  next t hp =>
    obtain ⟨s, hs, hp⟩ := Option.bind_eq_some_iff.mp hp
    exact .single (.deed (.claim rfl hs hp))

theorem steps_present (r : Recorder) (thread : Nat) (ref : SpanRef) :
    Steps true ⟨r, U⟩ ⟨handOver thread r ref, U⟩ := by
  refine (Relation.ReflTransGen.single (.present rfl ref)).trans (Deeds.steps ?_)
  exact carries_handOver true thread _ r U ref (fun h => by contradiction) (Nat.lt_succ_self _)

theorem deeds_sampleAll (batch : List SpanRef) (r : Recorder) :
    Deeds free ⟨r, U⟩ ⟨(sampleAll batch r).2, U⟩ := by
  induction batch generalizing r with
  | nil => exact .refl
  | cons ref batch ih => exact (deeds_sample r ref).trans (ih _)

theorem alike_askForBatch (r : Recorder) : r.Alike r.askForBatch.2 :=
  ⟨rfl, rfl, rfl, rfl, rfl, rfl, rfl, rfl, rfl, rfl, rfl, rfl, rfl⟩

theorem steps_collectNextBatch (r : Recorder) :
    Steps free ⟨r, U⟩ ⟨r.collectNextBatch.2, U⟩ := by
  have hask : Steps free ⟨r, U⟩ ⟨r.askForBatch.2, U⟩ :=
    .single (.deed (.aside (alike_askForBatch r)))
  unfold collectNextBatch
  dsimp only
  split
  · exact (hask.tail .detach).trans (deeds_sampleAll _ _).steps
  · exact hask

theorem alike_forceCurrentBatch (r : Recorder) : r.Alike r.forceCurrentBatch := by
  have hforced : r.Alike { r with batcher := { r.batcher with forced := true } } :=
    ⟨rfl, rfl, rfl, rfl, rfl, rfl, rfl, rfl, rfl, rfl, rfl, rfl, rfl⟩
  exact hforced.trans (alike_wakeWorker _)

end

/-! ## Moves as sequences of steps -/

theorem Registry.mem_place {item other : Registration} {entries : List Registration} :
    other ∈ place item entries ↔ other = item ∨ other ∈ entries := by
  unfold place
  rw [List.mem_append, List.mem_cons, or_left_comm, ← List.mem_append, List.take_append_drop]

theorem Registry.mem_add {r : Registry} {item other : Registration}
    (h : other ∈ (r.add item).2.entries) : other = item ∨ other ∈ r.entries := by
  rw [add_eq] at h
  split at h
  · exact .inr h
  · exact mem_place.mp h

namespace Recorder

variable {r : Recorder}

/-- The callback that a definition answers is in the table, and is of the kind asked for. -/
theorem exists_define (r : Recorder) (c : Callback) :
    ∃ d, (r.define c).2.callbacks[(r.define c).1]? = some d ∧ d.atEnd = c.atEnd := by
  unfold define
  split
  next ref hfind =>
    obtain ⟨hlt, hsame, -⟩ := Array.findIdx?_eq_some_iff_getElem.mp hfind
    rw [Bool.and_eq_true, beq_iff_eq, beq_iff_eq] at hsame
    exact ⟨_, Array.getElem?_eq_getElem hlt, hsame.2⟩
  · exact ⟨c, Array.getElem?_push_size, rfl⟩

theorem mem_define {c d : Callback} (h : d ∈ (r.define c).2.callbacks) :
    d = c ∨ d ∈ r.callbacks := by
  unfold define at h
  split at h
  · exact .inr h
  · rcases Array.mem_push.mp h with h | h
    · exact .inr h
    · exact .inl h

theorem getElem?_define (c : Callback) {ref : CallbackRef} {d : Callback}
    (h : r.callbacks[ref]? = some d) : (r.define c).2.callbacks[ref]? = some d := by
  unfold define
  split
  · exact h
  · have hlt := (Array.getElem?_eq_some_iff.mp h).1
    dsimp only
    rw [Array.getElem?_push_lt hlt]
    exact (Array.getElem?_eq_some_iff.mp h).2 ▸ rfl

theorem onStart_define (r : Recorder) (c : Callback) : (r.define c).2.onStart = r.onStart := by
  unfold define
  split <;> rfl

theorem Quiet.enrol (hq : r.Quiet) {c : Callback}
    (hc : c.atEnd = false → ∀ act ∈ c.acts, act.claims = false) (priority : Int) :
    (r.enrol c priority).Quiet := by
  have hacts : ∀ d ∈ (r.define c).2.callbacks, d.atEnd = false → ∀ act ∈ d.acts,
      act.claims = false := by
    intro d hd hstart
    rcases mem_define hd with rfl | hd
    · exact hc hstart
    · exact hq.acts d hd hstart
  have hstarts : ∀ item ∈ r.onStart.entries,
      ∃ d, (r.define c).2.callbacks[item.callback]? = some d ∧ d.atEnd = false := by
    intro item hm
    obtain ⟨d, hd, hstart⟩ := hq.starts item hm
    exact ⟨d, getElem?_define c hd, hstart⟩
  unfold Recorder.enrol
  dsimp only
  split
  · refine ⟨hacts, fun item hm => hstarts item ?_⟩
    rwa [onStart_define] at hm
  next hend =>
    refine ⟨hacts, fun item hm => ?_⟩
    rcases Registry.mem_add hm with rfl | hm
    · obtain ⟨d, hd, hsame⟩ := exists_define r c
      exact ⟨d, hd, by simpa [hend] using hsame⟩
    · rw [onStart_define] at hm
      exact hstarts item hm

theorem alike_enrol (r : Recorder) (c : Callback) (priority : Int) :
    ({ r with callbacks := (r.enrol c priority).callbacks,
              onStart := (r.enrol c priority).onStart } : Recorder).Alike (r.enrol c priority) := by
  unfold enrol define
  dsimp only
  split <;> split <;>
    exact ⟨rfl, rfl, rfl, rfl, rfl, rfl, rfl, rfl, rfl, rfl, rfl, rfl, rfl⟩

end Recorder

variable {free : Bool} {r : Recorder} {U : List SpanRef}

theorem steps_enrol {c : Callback} (priority : Int)
    (hc : free = true ∨ (c.atEnd = false → ∀ act ∈ c.acts, act.claims = false)) :
    Steps free ⟨r, U⟩ ⟨r.enrol c priority, U⟩ := by
  have halike := alike_enrol r c priority
  refine (Relation.ReflTransGen.single (.enrol fun hf hq => ?_)).tail (.deed (.aside halike))
  rcases hc with hfree | hc
  · rw [hf] at hfree
    contradiction
  · exact (hq.enrol hc priority).congr ⟨rfl, rfl⟩

/-- Every move is a sequence of steps. Unless claiming is free the move has to be regular. -/
theorem steps_move (m : Move) (hm : free = true ∨ m.isRegular = true ∧ r.Quiet) :
    Steps free ⟨r, U⟩ ⟨r.move m, U⟩ := by
  have hq : free = true ∨ r.Quiet := hm.imp_right And.right
  cases m with
  | create thread fresh q => exact steps_create hq thread fresh q
  | createWith thread fresh q own => exact steps_createWith hq thread fresh q own
  | rename ref name => exact (deeds_modify (fun _ => .rename name) r ref).steps
  | setAttribute ref key value => exact (deeds_modify (fun _ => .set key value) r ref).steps
  | removeAttribute ref key => exact (deeds_modify (fun _ => .remove key) r ref).steps
  | finish thread ref time => exact (deeds_tryEnd r thread ref time).steps
  | discard thread ref => exact steps_discard r thread ref
  | claim ref =>
    obtain rfl := hm.resolve_right fun h => by simp [Move.isRegular] at h
    exact steps_claim r ref
  | present thread ref =>
    obtain rfl := hm.resolve_right fun h => by simp [Move.isRegular] at h
    exact steps_present r thread ref
  | hold ref timeout => exact steps_hold r ref timeout
  | upgrade id => exact steps_upgrade r id
  | closeHold thread id time => exact steps_closeHold r thread id time
  | cancelHold thread id => exact steps_cancelHold r thread id
  | expire thread count => exact steps_fireUpTo count thread r
  | setClock clock =>
    exact .single (.deed (.aside ⟨rfl, rfl, rfl, rfl, rfl, rfl, rfl, rfl, rfl, rfl, rfl, rfl, rfl⟩))
  | setSampler sampler =>
    exact .single (.deed (.aside ⟨rfl, rfl, rfl, rfl, rfl, rfl, rfl, rfl, rfl, rfl, rfl, rfl, rfl⟩))
  | enrol atEnd priority label acts =>
    refine steps_enrol priority (hm.imp_right fun h hstart => ?_)
    obtain rfl : atEnd = false := hstart
    simpa [Move.isRegular] using h.1
  | force => exact .single (.deed (.aside (alike_forceCurrentBatch r)))
  | collect => exact steps_collectNextBatch r

theorem steps_play {moves : List Move}
    (hm : free = true ∨ (∀ m ∈ moves, m.isRegular = true) ∧ r.Quiet) :
    Steps free ⟨r, U⟩ ⟨r.play moves, U⟩ := by
  induction moves generalizing r with
  | nil => exact .refl
  | cons m moves ih =>
    have hone : Steps free ⟨r, U⟩ ⟨r.move m, U⟩ :=
      steps_move m (hm.imp_right fun h => ⟨h.1 m (by simp), h.2⟩)
    refine hone.trans (ih ?_)
    rcases hm with hf | ⟨hregular, hq⟩
    · exact .inl hf
    · exact (hone.quiet (.inr hq)).imp_right fun hq => ⟨fun n hn => hregular n (by simp [hn]), hq⟩

theorem quiet_start (clock : Clock) (limits : AttributeLimits) (timed : Bool) (sink : Sink)
    (sampler : Sampler) (trigger : Nat) (timeout : Nanos) :
    (Recorder.start clock limits timed sink sampler trigger timeout).Quiet :=
  ⟨by simp [Recorder.start], by simp [Recorder.start, Registry.empty]⟩

end SpanRelay
