import SpanRelay.Proofs.Callback
import SpanRelay.Proofs.Registry
import SpanRelay.Proofs.Recorder.Touches

/-!
Hand-overs within a hand-over. An end callback may register more callbacks and end other spans,
whose hand-overs then come in between. They leave alone all spans that are final, and settle
whatever they claim; this is proved once for spans that are set aside, by induction on the depth of
nesting.
-/
namespace SpanRelay

/-- Tells of the hand-over of a span: that it began, that a callback was called, that the span was
batched. -/
def Event.tellsOf (ref : SpanRef) : Event → Bool
  | .handedOver other | .batched other | .calledAtEnd _ other => other == ref
  | .ended .. | .released .. | .detached _ | .calledAtStart .. | .claimed .. | .looked ..
  | .pluginInstalled .. | .pluginStarted _ | .spansSent .. | .payloadSent ..
  | .probabilityAsked => false

/-- Spans of which it was settled what becomes of them. -/
def Batcher.settled (b : Batcher) : Nat := b.sampledOut + b.rejected + b.batched

/-- What becomes of a span that was claimed. -/
inductive Verdict where
  | sampledOut
  | rejected
  | batched
  deriving DecidableEq, Repr

namespace Recorder

variable {K : SpanRef → Prop} {r t u : Recorder} {ref other : SpanRef} {s claimed : Span}
  {m n : Nat} {hand : HandOver}

/-- What is told of the hand-overs of a span, newest first. -/
def told (r : Recorder) (ref : SpanRef) : List Event := r.log.filter (·.tellsOf ref)

theorem told_emit (r : Recorder) (e : Event) (ref : SpanRef) :
    (r.emit e).told ref = if e.tellsOf ref then e :: r.told ref else r.told ref :=
  List.filter_cons

/-! ## What hand-overs of other spans do -/

/-- Nothing is done to the end callbacks that are registered, but that more of them are. -/
def Enrols (r t : Recorder) : Prop :=
  ∀ items, r.onEnd.Lists items → ∃ more, t.onEnd.Lists (items ++ more)

/-- All spans claimed in between were settled, but for some that are owed. -/
structure Settles (owed : Nat) (r t : Recorder) : Prop where
  callbacks : t.callbacks = r.callbacks
  onEnd : r.Enrols t
  ended : t.batcher.ended + r.batcher.settled = r.batcher.ended + t.batcher.settled + owed
  sampledOut : r.batcher.sampledOut ≤ t.batcher.sampledOut
  rejected : r.batcher.rejected ≤ t.batcher.rejected
  batched : r.batcher.batched ≤ t.batcher.batched

/-- Besides, the spans of `K` were left alone. -/
structure Spares (K : SpanRef → Prop) (owed : Nat) (r t : Recorder) : Prop
    extends Settles owed r t where
  span? : ∀ ref, K ref → t.span? ref = r.span? ref
  told : ∀ ref, K ref → t.told ref = r.told ref

theorem enrols_of_eq (h : t.onEnd = r.onEnd) : r.Enrols t := by
  intro items hi
  refine ⟨[], ?_⟩
  rw [h, List.append_nil]
  exact hi

theorem Enrols.trans (h : r.Enrols t) (g : t.Enrols u) : r.Enrols u := by
  intro items hi
  obtain ⟨more, hmore⟩ := h items hi
  obtain ⟨last, hlast⟩ := g _ hmore
  exact ⟨more ++ last, by rwa [← List.append_assoc]⟩

theorem settles_of_eq (hc : t.callbacks = r.callbacks) (ho : t.onEnd = r.onEnd)
    (hb : t.batcher = r.batcher) : Settles 0 r t := by
  refine ⟨hc, enrols_of_eq ho, ?_, ?_, ?_, ?_⟩
  all_goals simp [hb]

theorem Settles.trans (h : Settles m r t) (g : Settles n t u) : Settles (m + n) r u where
  callbacks := g.callbacks.trans h.callbacks
  onEnd := h.onEnd.trans g.onEnd
  ended := by
    have hh := h.ended
    have hg := g.ended
    omega
  sampledOut := Nat.le_trans h.sampledOut g.sampledOut
  rejected := Nat.le_trans h.rejected g.rejected
  batched := Nat.le_trans h.batched g.batched

theorem Settles.callbackAt (h : Settles n r t) : t.callbackAt = r.callbackAt := by
  funext callback
  unfold Recorder.callbackAt
  rw [h.callbacks]

theorem Spares.refl (K : SpanRef → Prop) (r : Recorder) : Spares K 0 r r :=
  ⟨settles_of_eq rfl rfl rfl, fun _ _ => rfl, fun _ _ => rfl⟩

theorem Spares.trans (h : Spares K m r t) (g : Spares K n t u) : Spares K (m + n) r u :=
  ⟨h.toSettles.trans g.toSettles, fun ref hk => (g.span? ref hk).trans (h.span? ref hk),
    fun ref hk => (g.told ref hk).trans (h.told ref hk)⟩

theorem Spares.setsAside (h : Spares K n r t) (hk : r.SetsAside K) : t.SetsAside K := by
  intro ref href
  obtain ⟨s, hs, hf⟩ := hk ref href
  exact ⟨s, (h.span? ref href).trans hs, hf⟩

/-! ### Parts of a hand-over -/

theorem spares_put (hk : ¬ K ref) (r : Recorder) (s : Span) : Spares K 0 r (r.put ref s) := by
  refine ⟨settles_of_eq rfl rfl rfl, fun other ho => ?_, fun _ _ => rfl⟩
  have hne : ref ≠ other := fun h => hk (h ▸ ho)
  exact Array.getElem?_setIfInBounds_ne hne

theorem spares_modify (hk : ¬ K ref) (r : Recorder) (f : Span → Span) :
    Spares K 0 r (r.modify ref f) := by
  unfold modify
  split
  · exact spares_put hk r _
  · exact .refl K r

theorem spares_emit {e : Event} (he : ∀ ref, K ref → e.tellsOf ref = false) (r : Recorder) :
    Spares K 0 r (r.emit e) := by
  refine ⟨settles_of_eq rfl rfl rfl, fun _ _ => rfl, fun ref hk => ?_⟩
  rw [told_emit, he ref hk]
  rfl

theorem beq_eq_false_of_not (hk : ¬ K ref) : ∀ other, K other → (ref == other) = false :=
  fun _ ho => beq_eq_false_iff_ne.mpr fun h => hk (h ▸ ho)

theorem spares_detach (r : Recorder) (thread : Nat) (ref : SpanRef) :
    Spares K 0 r (r.detach thread ref) := by
  unfold detach onStack
  split
  · exact .refl K r
  · exact ⟨settles_of_eq rfl rfl rfl, fun _ _ => rfl, fun _ _ => rfl⟩

theorem spares_wakeWorker (r : Recorder) : Spares K 0 r r.wakeWorker := by
  unfold wakeWorker
  split
  · exact ⟨settles_of_eq rfl rfl rfl, fun _ _ => rfl, fun _ _ => rfl⟩
  · exact .refl K r

theorem spares_sample (hk : ¬ K ref) (r : Recorder) : Spares K 0 r (r.sample ref).2 := by
  unfold sample
  split
  · exact .refl K r
  · dsimp only
    split
    · exact .refl K r
    · exact spares_put hk r _

theorem settles_enlist (r : Recorder) (item : Registration) :
    Settles 0 r { r with onEnd := (r.onEnd.add item).2 } :=
  ⟨rfl, fun _ h => ⟨[item], h.add item⟩, rfl, Nat.le_refl _, Nat.le_refl _, Nat.le_refl _⟩

/-- A hand-over leaves alone what is set aside, and settles what it claims. -/
def Considerate (hand : HandOver) : Prop :=
  ∀ (K : SpanRef → Prop) (r : Recorder) (ref : SpanRef), r.SetsAside K → ¬ K ref →
    Spares K 0 r (hand r ref)

theorem spares_endWith (hh : Considerate hand) (hk : r.SetsAside K) (thread : Nat) (ref : SpanRef)
    (time : Ticks) : Spares K 0 r (endWith hand r thread ref time).2 := by
  unfold endWith
  split
  · exact .refl K r
  next begun hb =>
    obtain ⟨s, hs, hb⟩ := Option.bind_eq_some_iff.mp hb
    -- A span that is set aside is final, and so does not begin to end.
    have href : ¬ K ref := by
      intro href
      obtain ⟨v, hv, hf⟩ := hk ref href
      obtain rfl := Option.some.inj (hs.symm.trans hv)
      have ho := (Span.beginEnd?_eq_some hb).1
      cases hst : s.state <;> simp_all [SpanState.isOpen, SpanState.isFinal]
    let noted := (r.put ref (begun.recordEnd time)).emit (.ended ref time)
    have hnoted : Spares K 0 r noted := (spares_put href r _).trans (spares_emit (fun _ _ => rfl) _)
    have hdetached : Spares K 0 r (if begun.makesContext then noted.detach thread ref else noted) := by
      split
      · exact hnoted.trans (spares_detach noted thread ref)
      · exact hnoted
    dsimp only
    generalize (if begun.makesContext then noted.detach thread ref else noted) = t at hdetached ⊢
    split
    · exact hdetached
    next ready finished _ =>
      have hput := hdetached.trans (spares_put href t finished)
      dsimp only
      split
      · exact hput.trans (hh K _ ref (hput.setsAside hk) href)
      · exact hput

theorem spares_perform (hh : Considerate hand) (hk : r.SetsAside K) (thread : Nat)
    (label : String) (href : ¬ K ref) (act : Act) :
    Spares K 0 r (perform hand thread label ref r act).2 := by
  cases act with
  | set | copy | remove | rename => exact spares_modify href r _
  | claim =>
    unfold perform
    dsimp only
    split
    · exact (spares_put href r _).trans (spares_emit (fun _ _ => rfl) _)
    · exact spares_emit (fun _ _ => rfl) _
  | look =>
    unfold perform
    dsimp only
    split
    · exact spares_emit (fun _ _ => rfl) _
    · exact .refl K r
  | veto | vetoNamed | vetoHaving | fail => exact .refl K r
  | enlist item => exact ⟨settles_enlist r item, fun _ _ => rfl, fun _ _ => rfl⟩
  | finish other time => exact spares_endWith hh hk thread other time

theorem runActs_cons {act : Act} (h : act.fails = false) (hand : HandOver) (thread : Nat)
    (label : String) (ref : SpanRef) (rest : List Act) (keep : Bool) (r : Recorder) :
    runActs hand thread label ref (act :: rest) keep r =
      runActs hand thread label ref rest (keep && (perform hand thread label ref r act).1)
        (perform hand thread label ref r act).2 := by
  cases act with
  | fail => contradiction
  | _ => rfl

theorem runActs_cons_of_fails {act : Act} (h : act.fails = true) (hand : HandOver) (thread : Nat)
    (label : String) (ref : SpanRef) (rest : List Act) (keep : Bool) (r : Recorder) :
    runActs hand thread label ref (act :: rest) keep r = (true, r) := by
  cases act with
  | fail => rfl
  | _ => contradiction

theorem spares_runActs (hh : Considerate hand) (hk : r.SetsAside K) (thread : Nat)
    (label : String) (href : ¬ K ref) (acts : List Act) (keep : Bool) :
    Spares K 0 r (runActs hand thread label ref acts keep r).2 := by
  induction acts generalizing r keep with
  | nil => exact .refl K r
  | cons act rest ih =>
    cases hfails : act.fails with
    | true =>
      rw [runActs_cons_of_fails hfails]
      exact .refl K r
    | false =>
      rw [runActs_cons hfails]
      have hone := spares_perform hh hk thread label href act
      exact hone.trans (ih (hone.setsAside hk) _)

theorem spares_runEndCallbacks (hh : Considerate hand) (hk : r.SetsAside K) (thread : Nat)
    (href : ¬ K ref) (items : List Registration) :
    Spares K 0 r (runEndCallbacks hand thread ref items r).2 := by
  induction items generalizing r with
  | nil => exact .refl K r
  | cons item rest ih =>
    let callback := r.callbackAt item.callback
    have hnote : Spares K 0 r (r.emit (.calledAtEnd callback.label ref)) :=
      spares_emit (beq_eq_false_of_not href) r
    have hcall := hnote.trans (spares_runActs hh (hnote.setsAside hk) thread callback.label href
      callback.acts true)
    unfold runEndCallbacks
    dsimp only
    split
    · exact hcall.trans (ih (hcall.setsAside hk))
    · exact hcall

theorem spares_judge (hh : Considerate hand) (hk : r.SetsAside K) (thread : Nat)
    (href : ¬ K ref) : Spares K 0 r (judge hand thread ref r).2 := by
  unfold judge
  split
  · exact .refl K r
  · exact (spares_runEndCallbacks hh hk thread href _).trans (spares_modify href _ _)

/-! ### Settling a span -/

/-- Seals a span, counts what becomes of it, and puts it into the backlog if it is batched. -/
def settle (r : Recorder) (ref : SpanRef) : Verdict → Recorder
  | .sampledOut => r.countSampledOut.modify ref Span.freeze
  | .rejected => r.countRejected.modify ref Span.freeze
  | .batched => (r.modify ref Span.freeze).enqueue ref

/-- A hand-over that claims a span counts it, asks the sampler and then the callbacks, and settles
it. -/
theorem receive_of_process? (hp : (r.span? ref).bind Span.process? = some claimed)
    (hand : HandOver) (thread : Nat) :
    receive hand thread r ref =
      let sampled := (r.put ref claimed).countEnded.sample ref
      let judged := judge hand thread ref sampled.2
      if sampled.1 then judged.2.settle ref (if judged.1 then .batched else .rejected)
      else sampled.2.settle ref .sampledOut := by
  unfold receive
  simp only [hp]
  split
  · split <;> rfl
  · rfl

theorem batcher_modify (r : Recorder) (ref : SpanRef) (f : Span → Span) :
    (r.modify ref f).batcher = r.batcher := by
  unfold modify
  split <;> rfl

/-- One counter goes up. -/
theorem counters_settle (r : Recorder) (ref : SpanRef) (v : Verdict) :
    (r.settle ref v).batcher.ended = r.batcher.ended ∧
      (r.settle ref v).batcher.sampledOut =
        r.batcher.sampledOut + (if v = .sampledOut then 1 else 0) ∧
      (r.settle ref v).batcher.rejected =
        r.batcher.rejected + (if v = .rejected then 1 else 0) ∧
      (r.settle ref v).batcher.batched =
        r.batcher.batched + (if v = .batched then 1 else 0) := by
  cases v with
  | sampledOut =>
    rw [settle, batcher_modify]
    exact ⟨rfl, rfl, rfl, rfl⟩
  | rejected =>
    rw [settle, batcher_modify]
    exact ⟨rfl, rfl, rfl, rfl⟩
  | batched =>
    have h := alike_enqueue (r.modify ref Span.freeze) ref
    rw [settle, h.ended, h.sampledOut, h.rejected, h.batched]
    unfold intoBacklog
    simp [emit, batcher_modify]

theorem onEnd_modify (r : Recorder) (ref : SpanRef) (f : Span → Span) :
    (r.modify ref f).onEnd = r.onEnd := by
  unfold modify
  split <;> rfl

theorem onEnd_enqueue (r : Recorder) (ref : SpanRef) : (r.enqueue ref).onEnd = r.onEnd := by
  unfold enqueue
  dsimp only
  split
  · unfold wakeWorker
    split <;> rfl
  · rfl

theorem registered_settle (r : Recorder) (ref : SpanRef) (v : Verdict) :
    (r.settle ref v).callbacks = r.callbacks ∧ (r.settle ref v).onEnd = r.onEnd := by
  cases v with
  | sampledOut => exact ⟨(callbacks_modify _ ref _).1, onEnd_modify _ ref _⟩
  | rejected => exact ⟨(callbacks_modify _ ref _).1, onEnd_modify _ ref _⟩
  | batched =>
    have hcallbacks := (alike_enqueue (r.modify ref Span.freeze) ref).callbacks
    exact ⟨hcallbacks.trans (callbacks_modify r ref _).1,
      (onEnd_enqueue _ ref).trans (onEnd_modify r ref _)⟩

theorem told_settle (r : Recorder) (ref other : SpanRef) (v : Verdict) :
    (r.settle ref v).told other =
      if v = .batched ∧ ref = other then .batched ref :: r.told other else r.told other := by
  have hmodify : ∀ x : Recorder, (x.modify ref Span.freeze).told other = x.told other := fun x => by
    unfold told
    rw [log_modify]
  cases v with
  | sampledOut => exact hmodify _
  | rejected => exact hmodify _
  | batched =>
    have hlog : ((r.modify ref Span.freeze).enqueue ref).log =
        .batched ref :: (r.modify ref Span.freeze).log := (alike_enqueue _ ref).log
    have htold : ((r.modify ref Span.freeze).enqueue ref).told other =
        ((r.modify ref Span.freeze).emit (.batched ref)).told other := by
      unfold told
      rw [hlog]
      rfl
    rw [settle, htold, told_emit, hmodify]
    simp [Event.tellsOf]

theorem span?_settle (r : Recorder) (ref other : SpanRef) (v : Verdict) :
    (r.settle ref v).span? other = (r.modify ref Span.freeze).span? other := by
  have hcounted : ∀ b : Batcher, ({ r with batcher := b }.modify ref Span.freeze).span? other =
      (r.modify ref Span.freeze).span? other := fun b => by
    unfold modify
    cases hs : r.span? ref with
    | none =>
      rw [show ({ r with batcher := b } : Recorder).span? ref = none from hs]
      rfl
    | some s =>
      rw [show ({ r with batcher := b } : Recorder).span? ref = some s from hs]
      rfl
  cases v with
  | sampledOut => exact hcounted _
  | rejected => exact hcounted _
  | batched => exact (alike_enqueue _ ref).span? other

theorem spares_settle (h : Spares K 1 r t) (href : ¬ K ref) (v : Verdict) :
    Spares K 0 r (t.settle ref v) := by
  obtain ⟨hended, hsampledOut, hrejected, hbatched⟩ := counters_settle t ref v
  obtain ⟨hcallbacks, honEnd⟩ := registered_settle t ref v
  have hone : (if v = .sampledOut then 1 else 0) + (if v = .rejected then 1 else 0) +
      (if v = .batched then 1 else 0) = 1 := by
    cases v <;> rfl
  refine ⟨⟨hcallbacks.trans h.callbacks, h.onEnd.trans (enrols_of_eq honEnd), ?_, ?_, ?_, ?_⟩,
    fun other ho => ?_, fun other ho => ?_⟩
  · have hbefore := h.ended
    unfold Batcher.settled at hbefore ⊢
    rw [hended, hsampledOut, hrejected, hbatched]
    omega
  · rw [hsampledOut]
    exact Nat.le_trans h.sampledOut (Nat.le_add_right ..)
  · rw [hrejected]
    exact Nat.le_trans h.rejected (Nat.le_add_right ..)
  · rw [hbatched]
    exact Nat.le_trans h.batched (Nat.le_add_right ..)
  · rw [span?_settle, (spares_modify href t _).span? other ho, h.span? other ho]
  · have hne : ref ≠ other := fun heq => href (heq ▸ ho)
    rw [told_settle, if_neg fun hboth => hne hboth.2, h.told other ho]

/-- The span is claimed and counted, and then sampled. -/
theorem spares_claimed (r : Recorder) (href : ¬ K ref) (claimed : Span) :
    Spares K 1 r ((r.put ref claimed).countEnded.sample ref).2 := by
  have hcounted : Spares K 1 (r.put ref claimed) (r.put ref claimed).countEnded := by
    refine ⟨⟨rfl, enrols_of_eq rfl, ?_, Nat.le_refl _, Nat.le_refl _, Nat.le_refl _⟩,
      fun _ _ => rfl, fun _ _ => rfl⟩
    unfold countEnded Batcher.settled
    dsimp only
    omega
  exact (((spares_put href r claimed).trans hcounted).trans (spares_sample href _))

theorem spares_receive (hh : Considerate hand) (hk : r.SetsAside K) (thread : Nat)
    (ref : SpanRef) : Spares K 0 r (receive hand thread r ref) := by
  cases hp : (r.span? ref).bind Span.process? with
  | none =>
    unfold receive
    simp only [hp]
    exact .refl K r
  | some claimed =>
    obtain ⟨s, hs, hprocess⟩ := Option.bind_eq_some_iff.mp hp
    -- A span that is set aside is final, and what is claimed here is not.
    have href : ¬ K ref := by
      intro href
      obtain ⟨v, hv, hf⟩ := hk ref href
      obtain rfl := Option.some.inj (hs.symm.trans hv)
      rw [(Span.process?_eq_some hprocess).1] at hf
      contradiction
    have hclaimed := spares_claimed r href claimed
    rw [receive_of_process? hp]
    dsimp only
    split
    · exact spares_settle (hclaimed.trans (spares_judge hh (hclaimed.setsAside hk) thread href))
        href _
    · exact spares_settle hclaimed href _

theorem considerate_handOverTo (thread depth : Nat) : Considerate (handOverTo thread depth) := by
  induction depth with
  | zero => exact fun K r _ _ _ => .refl K r
  | succ depth ih =>
    intro K r ref hk href
    have hnote : Spares K 0 r (r.emit (.handedOver ref)) :=
      spares_emit (beq_eq_false_of_not href) r
    unfold handOverTo
    dsimp only
    split
    · exact hnote
    · exact hnote.trans (spares_receive ih (hnote.setsAside hk) thread ref)

end Recorder
end SpanRelay
