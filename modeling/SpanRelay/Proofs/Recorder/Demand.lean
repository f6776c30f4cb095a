import SpanRelay.Proofs.Recorder.Batching
import SpanRelay.Relay.Contention

/-!
The demand for a batch and the wake that goes with it. No operation takes back either of them, but
for a call for a batch, which takes back the demand and then detaches all that waits.
-/
namespace SpanRelay

namespace Recorder

/-- What was observed stays so, a batch that is demanded stays demanded, and a wake stays pending.
-/
structure Heeds (r t : Recorder) : Prop where
  log : r.log <:+ t.log
  forced : r.batcher.forced = true → t.batcher.forced = true
  woken : r.signals.woken = true → t.signals.woken = true

variable {r t u : Recorder} {hand : HandOver}

namespace Heeds

theorem refl (r : Recorder) : r.Heeds r := ⟨List.suffix_rfl, id, id⟩

theorem trans (h : r.Heeds t) (g : t.Heeds u) : r.Heeds u :=
  ⟨h.log.trans g.log, g.forced ∘ h.forced, g.woken ∘ h.woken⟩

theorem of_same (hb : t.batcher.forced = r.batcher.forced) (hs : t.signals = r.signals)
    (hl : t.log = r.log) : r.Heeds t :=
  ⟨hl ▸ List.suffix_rfl, fun h => hb.trans h, fun h => (congrArg Signals.woken hs).trans h⟩

theorem batchedSpans (h : r.Heeds t) : r.batchedSpans <+: t.batchedSpans :=
  List.reverse_prefix.mpr (h.log.filterMap _)

theorem detachedSpans (h : r.Heeds t) : r.detachedSpans <+: t.detachedSpans := by
  obtain ⟨later, hlog⟩ := h.log
  unfold Recorder.detachedSpans
  rw [← hlog, List.reverse_append, List.flatMap_append]
  exact List.prefix_append _ _

end Heeds

/-! ## Changes that an operation is made of -/

theorem heeds_emit (r : Recorder) (e : Event) : r.Heeds (r.emit e) :=
  ⟨List.suffix_cons e r.log, id, id⟩

theorem heeds_put (r : Recorder) (ref : SpanRef) (s : Span) : r.Heeds (r.put ref s) :=
  .of_same rfl rfl rfl

theorem heeds_modify (r : Recorder) (ref : SpanRef) (f : Span → Span) :
    r.Heeds (r.modify ref f) := by
  unfold modify
  split
  · exact heeds_put r ref _
  · exact .refl r

theorem heeds_onStack (r : Recorder) (thread : Nat) (f : ContextStack → ContextStack) :
    r.Heeds (r.onStack thread f) := by
  unfold onStack
  split
  · exact .refl r
  · exact .of_same rfl rfl rfl

theorem heeds_cancelTimers (r : Recorder) (timers : List Timer) :
    r.Heeds (r.cancelTimers timers) := by
  unfold cancelTimers
  split
  · exact .of_same rfl rfl rfl
  · exact .refl r

theorem heeds_wakeWorker (r : Recorder) : r.Heeds r.wakeWorker := by
  unfold wakeWorker
  split
  · exact ⟨List.suffix_rfl, id, fun _ => rfl⟩
  · exact .refl r

theorem heeds_forceCurrentBatch (r : Recorder) : r.Heeds r.forceCurrentBatch :=
  have hforced : r.Heeds { r with batcher := { r.batcher with forced := true } } :=
    ⟨List.suffix_rfl, fun _ => rfl, id⟩
  hforced.trans (heeds_wakeWorker _)

theorem heeds_sample (r : Recorder) (ref : SpanRef) : r.Heeds (r.sample ref).2 := by
  unfold sample
  split
  · exact .refl r
  · dsimp only
    split
    · exact .refl r
    · exact heeds_put r ref _

theorem heeds_enqueue (r : Recorder) (ref : SpanRef) : r.Heeds (r.enqueue ref) := by
  have hbacklog : r.Heeds
      { (r.addTo r.batcher.backlog ref).2 with
        batcher := { r.batcher with
          backlog := (r.addTo r.batcher.backlog ref).1
          batched := r.batcher.batched + 1 } } := .of_same rfl rfl rfl
  have hbatched := hbacklog.trans (heeds_emit _ (.batched ref))
  unfold enqueue
  dsimp only
  split
  · exact hbatched.trans (heeds_wakeWorker _)
  · exact hbatched

/-! ## Ends and hand-overs -/

theorem heeds_endWith (hh : ∀ r ref, Heeds r (hand r ref)) (r : Recorder) (thread : Nat)
    (ref : SpanRef) (time : Ticks) : r.Heeds (endWith hand r thread ref time).2 := by
  unfold endWith
  split
  · exact .refl r
  next begun hb =>
    let ended := (r.put ref (begun.recordEnd time)).emit (.ended ref time)
    have hended : r.Heeds ended := (heeds_put r ref _).trans (heeds_emit _ _)
    have hdetached : r.Heeds (if begun.makesContext then ended.detach thread ref else ended) := by
      split
      · exact hended.trans (heeds_onStack _ thread _)
      · exact hended
    dsimp only
    split
    · exact hdetached
    next ready finished hf =>
      have hfinished := hdetached.trans (heeds_put _ ref finished)
      dsimp only
      split
      · exact hfinished.trans (hh _ ref)
      · exact hfinished

theorem heeds_perform (hh : ∀ r ref, Heeds r (hand r ref)) (thread : Nat) (label : String)
    (ref : SpanRef) (r : Recorder) (act : Act) :
    r.Heeds (perform hand thread label ref r act).2 := by
  cases act with
  | set | copy | remove | rename => exact heeds_modify r ref _
  | claim =>
    unfold perform
    dsimp only
    split
    · exact (heeds_put r ref _).trans (heeds_emit _ _)
    · exact heeds_emit r _
  | look =>
    unfold perform
    dsimp only
    split
    · exact heeds_emit r _
    · exact .refl r
  | veto | vetoNamed | vetoHaving | fail => exact .refl r
  | enlist item => exact .of_same rfl rfl rfl
  | finish other time => exact heeds_endWith hh r thread other time

theorem heeds_runActs (hh : ∀ r ref, Heeds r (hand r ref)) (thread : Nat) (label : String)
    (ref : SpanRef) (acts : List Act) (keep : Bool) (r : Recorder) :
    r.Heeds (runActs hand thread label ref acts keep r).2 := by
  induction acts generalizing r keep with
  | nil => exact .refl r
  | cons act rest ih =>
    have hboth := (heeds_perform hh thread label ref r act).trans
      (ih (keep && (perform hand thread label ref r act).1) _)
    cases act with
    | fail => exact .refl r
    | _ => exact hboth

theorem heeds_runEndCallbacks (hh : ∀ r ref, Heeds r (hand r ref)) (thread : Nat) (ref : SpanRef)
    (items : List Registration) (r : Recorder) :
    r.Heeds (runEndCallbacks hand thread ref items r).2 := by
  induction items generalizing r with
  | nil => exact .refl r
  | cons item rest ih =>
    let callback := r.callbackAt item.callback
    have hcall := (heeds_emit r (.calledAtEnd callback.label ref)).trans
      (heeds_runActs hh thread callback.label ref callback.acts true _)
    unfold runEndCallbacks
    dsimp only
    split
    · exact hcall.trans (ih _)
    · exact hcall

theorem heeds_judge (hh : ∀ r ref, Heeds r (hand r ref)) (thread : Nat) (ref : SpanRef)
    (r : Recorder) : r.Heeds (judge hand thread ref r).2 := by
  unfold judge
  split
  · exact .refl r
  · exact (heeds_runEndCallbacks hh thread ref r.onEnd.entries r).trans (heeds_modify _ ref _)

theorem heeds_receive (hh : ∀ r ref, Heeds r (hand r ref)) (thread : Nat) (r : Recorder)
    (ref : SpanRef) : r.Heeds (receive hand thread r ref) := by
  have hfrozen : ∀ {t u : Recorder}, r.Heeds t → t.Heeds u → r.Heeds (u.modify ref Span.freeze) :=
    fun h g => (h.trans g).trans (heeds_modify _ ref _)
  unfold receive
  split
  · exact .refl r
  next s hs =>
    have hended : r.Heeds (r.put ref s).countEnded := .of_same rfl rfl rfl
    have hsampled := hended.trans (heeds_sample _ ref)
    dsimp only
    split
    · have hjudged := hsampled.trans (heeds_judge hh thread ref _)
      split
      · exact (hfrozen hjudged (.refl _)).trans (heeds_enqueue _ ref)
      · exact hfrozen hjudged (.of_same rfl rfl rfl)
    · exact hfrozen hsampled (.of_same rfl rfl rfl)

theorem heeds_handOverTo (thread depth : Nat) (r : Recorder) (ref : SpanRef) :
    r.Heeds (handOverTo thread depth r ref) := by
  induction depth generalizing r ref with
  | zero => exact .refl r
  | succ depth ih =>
    have hnote := heeds_emit r (.handedOver ref)
    unfold handOverTo
    dsimp only
    split
    · exact hnote
    · exact hnote.trans (heeds_receive ih thread _ ref)

theorem heeds_handOver (thread : Nat) (r : Recorder) (ref : SpanRef) :
    r.Heeds (handOver thread r ref) := heeds_handOverTo thread _ r ref

theorem heeds_runStartCallbacks (thread : Nat) (ref : SpanRef) (items : List Registration)
    (r : Recorder) : r.Heeds (runStartCallbacks thread ref items r) := by
  induction items generalizing r with
  | nil => exact .refl r
  | cons item rest ih =>
    let callback := r.callbackAt item.callback
    have hcall := (heeds_emit r (.calledAtStart callback.label ref)).trans
      (heeds_runActs (heeds_handOver thread) thread callback.label ref callback.acts true _)
    exact hcall.trans (ih _)

/-! ## Operations -/

theorem heeds_build (r : Recorder) (thread : Nat) (fresh : FreshIds) (q : SpanRequest) :
    r.Heeds (r.build thread fresh q).2 := by
  obtain ⟨spans, handles, threadStacks, heq⟩ := exists_built_eq r thread fresh q
  rw [heq]
  exact .of_same rfl rfl rfl

theorem heeds_discard (r : Recorder) (thread : Nat) (ref : SpanRef) :
    r.Heeds (r.discard thread ref).2 := by
  unfold Recorder.discard
  split
  · exact .refl r
  next timers s hs =>
    have hclosed := (heeds_put r ref s.freeze).trans (heeds_cancelTimers _ timers)
    dsimp only
    split
    · exact hclosed.trans (heeds_onStack _ thread _)
    · exact hclosed

theorem heeds_claim (r : Recorder) (ref : SpanRef) : r.Heeds (r.claim ref).2 := by
  unfold claim
  split
  · exact .refl r
  · exact heeds_put r ref _

theorem heeds_hold (r : Recorder) (ref : SpanRef) (timeout : Nanos) :
    r.Heeds (r.hold ref timeout).2 := by
  unfold hold
  split
  · exact .refl r
  · dsimp only
    split
    · exact .refl r
    · exact .of_same rfl rfl rfl

theorem heeds_upgrade (r : Recorder) (id : HoldId) : r.Heeds (r.upgrade id).2 := by
  unfold upgrade
  split
  · exact .refl r
  · split
    · exact .of_same rfl rfl rfl
    · exact .refl r

theorem heeds_release (r : Recorder) (thread : Nat) (id : HoldId) (time : Option Ticks) :
    r.Heeds (r.release thread id time).2 := by
  unfold release
  split
  · exact .refl r
  next h hh =>
    split
    · exact .refl r
    next freed hf =>
      have hfreed := ((heeds_put r h.span freed.span).trans
        (heeds_emit _ (.released id time))).trans (heeds_cancelTimers _ [freed.timer])
      dsimp only
      split
      · exact hfreed.trans (heeds_handOver thread _ _)
      · exact hfreed

theorem heeds_fireUpTo (count thread : Nat) (r : Recorder) :
    r.Heeds (fireUpTo count thread r) := by
  induction count generalizing r with
  | zero => exact .refl r
  | succ count ih =>
    unfold fireUpTo
    split
    · exact .refl r
    next timer q hp =>
      have hpop : r.Heeds { r with deadlines := q } := .of_same rfl rfl rfl
      exact (hpop.trans (heeds_release _ thread timer.hold _)).trans (ih _)

theorem heeds_enrol (r : Recorder) (c : Callback) (priority : Int) :
    r.Heeds (r.enrol c priority) := by
  unfold enrol define
  dsimp only
  split <;> split <;> exact .of_same rfl rfl rfl

/-- Only a call for a batch takes back a demand. -/
theorem heeds_move (r : Recorder) {m : Move} (hm : m ≠ .collect) : r.Heeds (r.move m) := by
  cases m with
  | create thread fresh q =>
    exact (heeds_build r thread fresh q).trans (heeds_runStartCallbacks thread _ _ _)
  | createWith thread fresh q own =>
    exact ((heeds_build r thread fresh q).trans (heeds_modify _ _ _)).trans
      (heeds_runStartCallbacks thread _ _ _)
  | rename ref | setAttribute ref | removeAttribute ref => exact heeds_modify r ref _
  | finish thread ref time => exact heeds_endWith (heeds_handOver thread) r thread ref time
  | discard thread ref => exact heeds_discard r thread ref
  | claim ref => exact heeds_claim r ref
  | present thread ref => exact heeds_handOver thread r ref
  | hold ref timeout => exact heeds_hold r ref timeout
  | upgrade id => exact heeds_upgrade r id
  | closeHold thread id | cancelHold thread id => exact heeds_release r thread id _
  | expire thread count => exact heeds_fireUpTo count thread r
  | setClock | setSampler => exact .of_same rfl rfl rfl
  | enrol atEnd priority label acts => exact heeds_enrol r _ priority
  | force => exact heeds_forceCurrentBatch r
  | collect => contradiction

/-! ## Detaching -/

theorem foldr_dropHandle (batch : List SpanRef) (r : Recorder) :
    batch.foldr (fun ref r => r.dropHandle ref) r =
      { r with handles := batch.foldr (fun ref handles => handles.erase ref) r.handles } := by
  induction batch with
  | nil => rfl
  | cons ref batch ih =>
    rw [List.foldr_cons, ih]
    rfl

/-- A batch is stamped with the time and then taken out, and what it held is sampled. -/
theorem detachBatch_eq (r : Recorder) :
    let stamped : Recorder := { r with batcher := { r.batcher with lastBatch := r.clock.ticks } }
    r.detachBatch = sampleAll stamped.detachBacklog.1 stamped.detachBacklog.2 := by
  unfold detachBatch detachBacklog takeFrom
  simp only [foldr_dropHandle]

/-- What waits is taken out, and nothing else is changed but who holds on to it. -/
theorem detachBacklog_eq (r : Recorder) :
    r.detachBacklog = (r.waiting, { r with
      handles := r.waiting.foldr (fun ref handles => handles.erase ref) r.handles
      links := (r.batcher.backlog.takeBatch r.links).2.2
      batcher := { r.batcher with backlog := (r.batcher.backlog.takeBatch r.links).2.1 }
      log := .detached r.waiting :: r.log }) := by
  unfold detachBacklog takeFrom waiting
  simp only [foldr_dropHandle]
  rfl

theorem heeds_detachBacklog (r : Recorder) : r.Heeds r.detachBacklog.2 := by
  rw [detachBacklog_eq]
  exact ⟨List.suffix_cons _ _, id, id⟩

theorem detachedSpans_detachBacklog (r : Recorder) :
    r.detachBacklog.2.detachedSpans = r.detachedSpans ++ r.waiting := by
  rw [detachBacklog_eq]
  exact detachedSpans_emit _ _

theorem heeds_sampleAll (batch : List SpanRef) (r : Recorder) :
    r.Heeds (sampleAll batch r).2 := by
  induction batch generalizing r with
  | nil => exact .refl r
  | cons ref batch ih => exact (heeds_sample r ref).trans (ih _)

end Recorder

open Recorder

variable {r t u : Recorder}

/-- The spans that were detached and those that wait are the batched ones. -/
theorem Balanced.batchedSpans_eq (h : Balanced ⟨r, []⟩) :
    r.detachedSpans ++ r.waiting = r.batchedSpans := by
  obtain ⟨spans, ⟨hchain, -⟩, horder⟩ := h.queued
  have hwaiting : r.waiting = spans := by
    rw [waiting, hchain.takeBatch_eq, List.reverse_reverse]
  rw [hwaiting]
  exact horder

theorem Balanced.detachBacklog (h : Balanced ⟨r, []⟩) : Balanced ⟨r.detachBacklog.2, []⟩ := by
  have hemptied : r.emptied = { r.detachBacklog.2 with
      batcher := { r.detachBacklog.2.batcher with lastBatch := r.clock.ticks } } := by
    unfold Recorder.emptied takeFrom
    simp only [foldr_dropHandle, detachBacklog_eq]
    rfl
  have hp : ∀ ref, r.HasProcessed ref → r.emptied.HasProcessed ref := by
    rw [hemptied, detachBacklog_eq]
    exact fun ref hp => hp
  have hbalanced := h.emptied hp
  rw [hemptied] at hbalanced
  exact hbalanced.level ⟨rfl, rfl, rfl, rfl, rfl, rfl, rfl, rfl⟩ fun _ hp => hp

theorem Balanced.sampleAll (h : Balanced ⟨r, []⟩) (batch : List SpanRef) :
    Balanced ⟨(Recorder.sampleAll batch r).2, []⟩ := by
  have hsteps : Steps true ⟨r, []⟩ ⟨(Recorder.sampleAll batch r).2, []⟩ :=
    (deeds_sampleAll batch r).steps
  exact h.steps hsteps

/-! ## What a demand can rely on -/

namespace Recorder

/-- What was batched or detached stays so, a wake stays pending, and a demand stays until all that
was batched is detached. -/
structure Honors (r t : Recorder) : Prop where
  balanced : Balanced ⟨r, []⟩ → Balanced ⟨t, []⟩
  batched : r.batchedSpans <+: t.batchedSpans
  detached : r.detachedSpans <+: t.detachedSpans
  forced : Balanced ⟨r, []⟩ → r.batcher.forced = true →
    t.batcher.forced = true ∨ r.batchedSpans <+: t.detachedSpans
  woken : r.signals.woken = true → t.signals.woken = true

theorem Heeds.honors (h : r.Heeds t) (hb : Balanced ⟨r, []⟩ → Balanced ⟨t, []⟩) : r.Honors t :=
  ⟨hb, h.batchedSpans, h.detachedSpans, fun _ hf => .inl (h.forced hf), h.woken⟩

theorem Honors.refl (r : Recorder) : r.Honors r := (Heeds.refl r).honors id

theorem Honors.trans (h : r.Honors t) (g : t.Honors u) : r.Honors u where
  balanced hb := g.balanced (h.balanced hb)
  batched := h.batched.trans g.batched
  detached := h.detached.trans g.detached
  forced hb hf := by
    rcases h.forced hb hf with hf | hall
    · rcases g.forced (h.balanced hb) hf with hf | hall
      · exact .inl hf
      · exact .inr (h.batched.trans hall)
    · exact .inr (hall.trans g.detached)
  woken hw := g.woken (h.woken hw)

/-- Of a recorder that is the same in all that concerns batches. -/
theorem Level.honors (hl : r.Level t) (hh : r.Heeds t) (hs : t.spans = r.spans) : r.Honors t := by
  refine hh.honors fun hb => hb.level hl fun ref hp => ?_
  obtain ⟨s, hspan, hst⟩ := hp
  refine ⟨s, ?_, hst⟩
  unfold span?
  rw [hs]
  exact hspan

theorem honors_collectNextBatch (r : Recorder) : r.Honors r.collectNextBatch.2 := by
  have hsteps : Steps true ⟨r, []⟩ ⟨r.collectNextBatch.2, []⟩ := steps_collectNextBatch r
  have hbalanced : Balanced ⟨r, []⟩ → Balanced ⟨r.collectNextBatch.2, []⟩ := (·.steps hsteps)
  unfold collectNextBatch at hbalanced ⊢
  dsimp only at hbalanced ⊢
  cases hdue : r.askForBatch.1 with
  | true =>
    let stamped : Recorder :=
      { r.askForBatch.2 with
        batcher := { r.askForBatch.2.batcher with lastBatch := r.askForBatch.2.clock.ticks } }
    let batch := stamped.detachBacklog.1
    have hdetach : r.askForBatch.2.detachBatch = sampleAll batch stamped.detachBacklog.2 :=
      detachBatch_eq _
    have hheeds := (heeds_detachBacklog stamped).trans (heeds_sampleAll batch _)
    have hall : (sampleAll batch stamped.detachBacklog.2).2.detachedSpans =
        r.detachedSpans ++ r.waiting :=
      (level_sampleAll batch _).detachedSpans.trans (detachedSpans_detachBacklog stamped)
    simp only [hdue, if_true, hdetach] at hbalanced ⊢
    refine ⟨hbalanced, hheeds.batchedSpans, hheeds.detachedSpans, fun hb _ => .inr ?_, hheeds.woken⟩
    exact (hall.trans hb.batchedSpans_eq) ▸ List.prefix_rfl
  | false =>
    -- No batch is due, so none was demanded.
    have hforced : r.batcher.forced = false := by
      cases hf : r.batcher.forced with
      | false => rfl
      | true => simp [askForBatch, batchIsDue, hf] at hdue
    simp only [hdue, Bool.false_eq_true, if_false] at hbalanced ⊢
    refine ⟨hbalanced, List.prefix_rfl, List.prefix_rfl, fun _ hf => ?_, id⟩
    rw [hforced] at hf
    contradiction

theorem honors_move (r : Recorder) (m : Move) : r.Honors (r.move m) := by
  by_cases hm : m = .collect
  · subst hm
    exact honors_collectNextBatch r
  · have hsteps : Steps true ⟨r, []⟩ ⟨r.move m, []⟩ := steps_move m (.inl rfl)
    exact (heeds_move r hm).honors (·.steps hsteps)

end Recorder
end SpanRelay
