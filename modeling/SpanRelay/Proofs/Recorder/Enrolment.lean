import SpanRelay.Proofs.Recorder.Nesting

/-!
In any run the end callbacks that are registered are those that were added in some row, so that what
is known of a registry by its additions holds of them.
-/
namespace SpanRelay.Recorder

variable {r : Recorder}

theorem enrols_handOver (r : Recorder) (thread : Nat) (ref : SpanRef) :
    r.Enrols (handOver thread r ref) :=
  (considerate_handOverTo thread _ _ r ref (setsAside_none r) id).onEnd

theorem onEnd_onStack (r : Recorder) (thread : Nat) (f : ContextStack → ContextStack) :
    (r.onStack thread f).onEnd = r.onEnd := by
  obtain ⟨threadStacks, heq⟩ := exists_onStack_eq r thread f
  rw [heq]

theorem onEnd_cancelTimers (r : Recorder) (timers : List Timer) :
    (r.cancelTimers timers).onEnd = r.onEnd := by
  unfold cancelTimers
  split <;> rfl

theorem onEnd_build (r : Recorder) (thread : Nat) (fresh : FreshIds) (q : SpanRequest) :
    (r.build thread fresh q).2.onEnd = r.onEnd := by
  obtain ⟨spans, handles, threadStacks, heq⟩ := exists_built_eq r thread fresh q
  rw [heq]

theorem enrols_runStartCallbacks (thread : Nat) (ref : SpanRef) (items : List Registration)
    (r : Recorder) : r.Enrols (runStartCallbacks thread ref items r) := by
  induction items generalizing r with
  | nil => exact enrols_of_eq rfl
  | cons item rest ih =>
    let callback := r.callbackAt item.callback
    let called := r.emit (.calledAtStart callback.label ref)
    have hconsiderate : Considerate (handOver thread) := fun K r =>
      considerate_handOverTo thread _ K r
    have hacts : Spares (fun _ => False) 0 called
        (runActs (handOver thread) thread callback.label ref callback.acts true called).2 :=
      spares_runActs hconsiderate (setsAside_none called) thread callback.label id _ _
    have hcall : r.Enrols called := enrols_of_eq rfl
    exact (hcall.trans hacts.onEnd).trans (ih _)

theorem enrols_release (r : Recorder) (thread : Nat) (id : HoldId) (time : Option Ticks) :
    r.Enrols (r.release thread id time).2 := by
  unfold release
  split
  · exact enrols_of_eq rfl
  · split
    · exact enrols_of_eq rfl
    next h _ _ freed _ =>
      have hfreed : r.Enrols (((r.put h.span freed.span).emit (.released id time)).cancelTimers
          [freed.timer]) := enrols_of_eq (onEnd_cancelTimers ..)
      dsimp only
      split
      · exact hfreed.trans (enrols_handOver _ thread h.span)
      · exact hfreed

theorem enrols_fireUpTo (count thread : Nat) (r : Recorder) :
    r.Enrols (fireUpTo count thread r) := by
  induction count generalizing r with
  | zero => exact enrols_of_eq rfl
  | succ count ih =>
    unfold fireUpTo
    split
    · exact enrols_of_eq rfl
    next timer deadlines _ =>
      have hpopped : r.Enrols { r with deadlines } := enrols_of_eq rfl
      exact (hpopped.trans (enrols_release _ thread timer.hold _)).trans (ih _)

theorem onEnd_sample (r : Recorder) (ref : SpanRef) : (r.sample ref).2.onEnd = r.onEnd := by
  unfold sample
  split
  · rfl
  · dsimp only
    split <;> rfl

theorem onEnd_sampleAll (batch : List SpanRef) (r : Recorder) :
    (sampleAll batch r).2.onEnd = r.onEnd := by
  induction batch generalizing r with
  | nil => rfl
  | cons ref batch ih => exact (ih _).trans (onEnd_sample r ref)

theorem enrols_move (r : Recorder) (m : Move) : r.Enrols (r.move m) := by
  cases m with
  | create thread fresh q =>
    exact (enrols_of_eq (onEnd_build r thread fresh q)).trans
      (enrols_runStartCallbacks thread _ _ _)
  | createWith thread fresh q own =>
    have hdressed := (onEnd_modify (r.build thread fresh q).2 (r.build thread fresh q).1
      fun s => own.foldl (fun s e => s.setInternal e.1 (.text e.2)) s).trans
        (onEnd_build r thread fresh q)
    exact (enrols_of_eq hdressed).trans (enrols_runStartCallbacks thread _ _ _)
  | rename | setAttribute | removeAttribute => exact enrols_of_eq (onEnd_modify r _ _)
  | finish thread ref time =>
    have hconsiderate : Considerate (handOver thread) := fun K r =>
      considerate_handOverTo thread _ K r
    exact (spares_endWith hconsiderate (setsAside_none r) thread ref time).onEnd
  | discard thread ref =>
    refine enrols_of_eq ?_
    show (r.discard thread ref).2.onEnd = r.onEnd
    unfold discard
    split
    · rfl
    · dsimp only
      split
      · exact (onEnd_onStack _ thread _).trans (onEnd_cancelTimers ..)
      · exact onEnd_cancelTimers ..
  | claim ref =>
    refine enrols_of_eq ?_
    show (r.claim ref).2.onEnd = r.onEnd
    unfold claim
    split <;> rfl
  | present thread ref => exact enrols_handOver r thread ref
  | hold ref timeout =>
    refine enrols_of_eq ?_
    show (r.hold ref timeout).2.onEnd = r.onEnd
    unfold hold
    split
    · rfl
    · dsimp only
      split <;> rfl
  | upgrade id =>
    refine enrols_of_eq ?_
    show (r.upgrade id).2.onEnd = r.onEnd
    unfold upgrade
    split
    · rfl
    · split <;> rfl
  | closeHold thread id time => exact enrols_release r thread id _
  | cancelHold thread id => exact enrols_release r thread id none
  | expire thread count => exact enrols_fireUpTo count thread r
  | setClock | setSampler => exact enrols_of_eq rfl
  | enrol atEnd priority label acts =>
    show r.Enrols (r.enrol ⟨label, atEnd, acts⟩ priority)
    have hdefined : (r.define ⟨label, atEnd, acts⟩).2.onEnd = r.onEnd := by
      unfold define
      split <;> rfl
    unfold enrol
    dsimp only
    split
    · exact (enrols_of_eq hdefined).trans (settles_enlist _ _).onEnd
    · exact enrols_of_eq hdefined
  | force =>
    let forced : Recorder := { r with batcher := { r.batcher with forced := true } }
    have hforced : r.Enrols forced := enrols_of_eq rfl
    exact hforced.trans (spares_wakeWorker (K := fun _ => False) forced).onEnd
  | collect =>
    refine enrols_of_eq ?_
    show r.collectNextBatch.2.onEnd = r.onEnd
    unfold collectNextBatch
    dsimp only
    split
    · refine (onEnd_sampleAll _ _).trans ?_
      obtain ⟨handles, heq⟩ := exists_emptied_eq r.askForBatch.2
      show r.askForBatch.2.emptied.onEnd = r.onEnd
      rw [heq]
      rfl
    · rfl

/-- The end callbacks that are registered are, at any time of a run, those that were added in some
row. -/
theorem exists_lists_play (h : ∃ items, r.onEnd.Lists items) (moves : List Move) :
    ∃ items, (r.play moves).onEnd.Lists items := by
  induction moves generalizing r with
  | nil => exact h
  | cons m moves ih =>
    obtain ⟨items, hi⟩ := h
    obtain ⟨more, hmore⟩ := enrols_move r m items hi
    exact ih ⟨_, hmore⟩

end SpanRelay.Recorder
