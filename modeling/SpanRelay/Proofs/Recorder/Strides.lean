import SpanRelay.Proofs.Hold
import SpanRelay.Proofs.Recorder.Touches

/-!
Moves as runs of strides. A stride is a touch, or a change that only a move makes on its own: it
discards a span, upgrades or releases a hold, takes a deadline or the backlog out, or changes what
is set from outside. What each stride keeps is kept by the moves; creating and holding are left out,
since what they keep depends on what is created and held.
-/
namespace SpanRelay

open Recorder

/-- One change within a move, told in full: a touch, or one that is made outside of every hand-over.
The spans of `K` are set aside. -/
inductive Stride (K : SpanRef → Prop) : Recorder → Recorder → Prop where
  | touch {r t : Recorder} (h : Touch K r t) : Stride K r t
  | discard {r : Recorder} {ref : SpanRef} {s t : Span} {timers : List Timer}
      (hs : r.span? ref = some s) (h : s.discard? = some (timers, t)) :
      Stride K r ((r.put ref t.freeze).cancelTimers timers)
  | upgrade {r : Recorder} {id : HoldId} {x : Hold} (hx : r.holds[id]? = some x) :
      Stride K r { r with holds := r.holds.setIfInBounds id { x with upgraded := true } }
  | release {r : Recorder} {ref : SpanRef} {s : Span} {id : HoldId} {time : Option Ticks}
      {freed : Span.Release} (hs : r.span? ref = some s) (h : s.release? id time = some freed) :
      Stride K r (((r.put ref freed.span).emit (.released id time)).cancelTimers [freed.timer])
  | pop {r : Recorder} {timer : Timer} {q : DeadlineQueue} {now : Nanos}
      (h : r.deadlines.popDue? now = some (timer, q)) : Stride K r { r with deadlines := q }
  | empty {r : Recorder} : Stride K r r.emptied
  | adjust {r : Recorder} (clock : Clock) (sampler : Sampler) (callbacks : Array Callback)
      (onStart : Registry) : Stride K r { r with clock, sampler, callbacks, onStart }

abbrev Strides (K : SpanRef → Prop) : Recorder → Recorder → Prop := Relation.ReflTransGen (Stride K)

variable {K : SpanRef → Prop} {r t : Recorder} {ref : SpanRef} {s v : Span}

theorem Touches.strides (h : Touches K r t) : Strides K r t :=
  Relation.ReflTransGen.mono (fun _ _ => Stride.touch) _ _ h

theorem Stride.state_of_isFinal (h : Stride K r t) (hs : r.span? ref = some s)
    (hf : s.state.isFinal = true) : ∃ u, t.span? ref = some u ∧ u.state = s.state := by
  cases h with
  | touch h => exact h.state_of_isFinal hs hf
  | discard hs' hd =>
    rw [span?_cancelTimers]
    exact state_put_of_isFinal hs' hs hf (Span.Turn.discard hd).state_of_isFinal
  | release hs' hr =>
    rw [span?_cancelTimers]
    exact state_put_of_isFinal hs' hs hf (Span.Turn.release hr).state_of_isFinal
  | empty =>
    obtain ⟨handles, heq⟩ := exists_emptied_eq r
    rw [heq]
    exact ⟨s, hs, rfl⟩
  | _ => exact ⟨s, hs, rfl⟩

theorem Strides.setsAside (h : Strides K r t) (hk : r.SetsAside K) : t.SetsAside K := by
  induction h with
  | refl => exact hk
  | tail _ hone ih =>
    intro ref href
    obtain ⟨s, hs, hf⟩ := ih ref href
    obtain ⟨u, hu, hst⟩ := hone.state_of_isFinal hs hf
    exact ⟨u, hu, hst ▸ hf⟩

/-! ## Moves as strides -/

theorem strides_discard (r : Recorder) (thread : Nat) (ref : SpanRef) :
    Strides K r (r.discard thread ref).2 := by
  unfold Recorder.discard
  split
  · exact .refl
  next timers v hd =>
    obtain ⟨s, hs, hd⟩ := Option.bind_eq_some_iff.mp hd
    have hone : Strides K r ((r.put ref v.freeze).cancelTimers timers) := .single (.discard hs hd)
    dsimp only
    split
    · apply hone.tail
      apply Stride.touch
      apply Touch.detach (s := v.freeze)
      · rw [span?_cancelTimers]
        exact span?_put_self hs _
      · rw [(Span.discard?_eq_some hd).2.2]
        rfl
    · exact hone

theorem strides_claim (r : Recorder) (ref : SpanRef) : Strides K r (r.claim ref).2 := by
  unfold Recorder.claim
  split
  · exact .refl
  next v hp =>
    obtain ⟨s, hs, hp⟩ := Option.bind_eq_some_iff.mp hp
    exact .single (.touch (.advance hs (.process hp)))

theorem strides_upgrade (r : Recorder) (id : HoldId) : Strides K r (r.upgrade id).2 := by
  unfold Recorder.upgrade
  split
  · exact .refl
  next x hx =>
    split
    · exact .single (.upgrade hx)
    · exact .refl

theorem strides_release (hk : r.SetsAside K) (thread : Nat) (id : HoldId) (time : Option Ticks) :
    Strides K r (r.release thread id time).2 := by
  unfold Recorder.release
  split
  · exact .refl
  next x hx =>
    split
    · exact .refl
    next freed hr =>
      obtain ⟨s, hs, hr⟩ := Option.bind_eq_some_iff.mp hr
      have hone : Strides K r _ := .single (.release hs hr)
      dsimp only
      split
      · exact hone.trans (touching_handOver K thread _ x.span (Strides.setsAside hone hk)).strides
      · exact hone

theorem strides_fireUpTo (hk : r.SetsAside K) (count thread : Nat) :
    Strides K r (fireUpTo count thread r) := by
  induction count generalizing r with
  | zero => exact .refl
  | succ count ih =>
    unfold fireUpTo
    split
    · exact .refl
    next timer q hp =>
      have hpop : Strides K r { r with deadlines := q } := .single (.pop hp)
      have hfire : Strides K r (Recorder.timeOut { r with deadlines := q } thread timer) :=
        hpop.trans (strides_release (hpop.setsAside hk) thread timer.hold _)
      exact hfire.trans (ih (hfire.setsAside hk))

theorem strides_collectNextBatch (r : Recorder) : Strides K r r.collectNextBatch.2 := by
  have hask : Strides K r r.askForBatch.2 := .single (.touch (.adjust r.onEnd _ r.signals))
  unfold Recorder.collectNextBatch
  dsimp only
  split
  · exact (hask.tail .empty).trans (touches_sampleAll _ _).strides
  · exact hask

theorem strides_enrol (r : Recorder) (c : Callback) (priority : Int) :
    Strides K r (r.enrol c priority) := by
  have hcallbacks : ∀ callbacks onStart, Strides K r { r with callbacks, onStart } :=
    fun _ _ => .single (.adjust r.clock r.sampler _ _)
  unfold Recorder.enrol define
  dsimp only
  split <;> split
  all_goals
    first
      | exact hcallbacks _ _
      | exact (hcallbacks _ r.onStart).tail (.touch (.adjust _ r.batcher r.signals))

end SpanRelay
