import SpanRelay.Proofs.Recorder.Steps

/-!
Ending and handing over as runs of deeds. Hand-overs nest through callbacks that end other spans;
each end that begins leaves one open span less, which is why the depth of nesting that is allowed
for is never used up.
-/
namespace SpanRelay

/-! ## Ends -/

namespace Recorder

theorem alike_detach (r : Recorder) (thread : Nat) (ref : SpanRef) :
    r.Alike (r.detach thread ref) := alike_onStack r thread _

/-- An end that begins completes: the span is closed, and handed over if nothing holds it. -/
theorem exists_endWith_eq {r : Recorder} {ref : SpanRef} {s : Span} (hs : r.span? ref = some s)
    (ho : s.state.isOpen = true) (hand : HandOver) (thread : Nat) (time : Ticks) :
    ∃ t, ((r.put ref (s.closed time)).emit (.ended ref time)).Alike t ∧
      endWith hand r thread ref time = (true, if s.state == .opened then hand t ref else t) := by
  obtain ⟨begun, hb⟩ := Span.exists_beginEnd? ho
  have hfound : (r.span? ref).bind Span.beginEnd? = some begun := by rw [hs]; exact hb
  let r₁ := (r.put ref (begun.recordEnd time)).emit (.ended ref time)
  let r₂ := if begun.makesContext then r₁.detach thread ref else r₁
  have halike : r₁.Alike r₂ := by
    unfold r₂
    split
    · exact alike_detach r₁ thread ref
    · exact .refl r₁
  have hspan : (r₂.span? ref).map Span.finishEnd = some (s.state == .opened, s.closed time) := by
    rw [halike.span? ref, show r₁.span? ref = some (begun.recordEnd time) from span?_put_self hs _,
      Option.map_some, Span.finishEnd_recordEnd hb]
  refine ⟨r₂.put ref (s.closed time), ?_, ?_⟩
  · have hput := halike.put ref (s.closed time)
    have hr₁ : r₁.put ref (s.closed time) =
        (r.put ref (s.closed time)).emit (.ended ref time) := by
      simp only [r₁, emit, put, Array.setIfInBounds_setIfInBounds]
    exact hr₁ ▸ hput
  · unfold r₂ r₁ at hspan
    unfold endWith
    simp only [hfound, hspan]
    rfl

theorem endWith_of_not_isOpen {r : Recorder} {ref : SpanRef}
    (h : ¬ ∃ s, r.span? ref = some s ∧ s.state.isOpen = true) (hand : HandOver) (thread : Nat)
    (time : Ticks) : endWith hand r thread ref time = (false, r) := by
  have hnone : (r.span? ref).bind Span.beginEnd? = none := by
    cases hs : r.span? ref with
    | none => rfl
    | some s =>
      rw [Option.bind_some, Option.eq_none_iff_forall_ne_some]
      exact fun t ht => h ⟨s, hs, (Span.beginEnd?_eq_some ht).1⟩
  unfold endWith
  simp only [hnone]

end Recorder

open Recorder

/-- What a hand-over does is a run of deeds as long as its depth exceeds the number of open spans.
Unless claiming is free the span has to be one whose end is complete. -/
def Carries (free : Bool) (depth : Nat) (hand : HandOver) : Prop :=
  ∀ (r : Recorder) (U : List SpanRef) (ref : SpanRef),
    (free = false → ∃ s, r.span? ref = some s ∧ s.state = .ended) → r.openCount < depth →
      Deeds free ⟨r.emit (.handedOver ref), U⟩ ⟨hand r ref, U⟩

section

variable {free : Bool} {depth : Nat} {hand : HandOver} {U : List SpanRef} {r : Recorder}

theorem deeds_endWith (hh : Carries free depth hand) (hd : r.openCount ≤ depth) (thread : Nat)
    (ref : SpanRef) (time : Ticks) :
    Deeds free ⟨r, U⟩ ⟨(endWith hand r thread ref time).2, U⟩ := by
  by_cases h : ∃ s, r.span? ref = some s ∧ s.state.isOpen = true
  · obtain ⟨s, hs, ho⟩ := h
    obtain ⟨t, halike, heq⟩ := exists_endWith_eq hs ho hand thread time
    have hfinish : Deed free ⟨r, U⟩ _ := .finish hs ho time
    rw [heq]
    cases hready : s.state == .opened with
    | false =>
      rw [hready] at hfinish
      exact (Relation.ReflTransGen.single hfinish).tail (.aside halike)
    | true =>
      rw [hready] at hfinish
      refine ((Relation.ReflTransGen.single hfinish).tail (.aside (halike.emit _))).trans ?_
      have hspan : t.span? ref = some (s.closed time) :=
        (halike.span? ref).trans (span?_put_self hs _)
      refine hh t U ref (fun _ => ⟨_, hspan, ?_⟩) ?_
      · have hopened : s.state = .opened := by simpa using hready
        simp [Span.closed, hopened]
      · have hclosed := openCount_put hs (s.closed time)
        have ht : t.openCount = (r.put ref (s.closed time)).openCount :=
          openCount_congr halike.spans
        simp only [ho, Span.not_isOpen_closed, Bool.false_eq_true, if_true, if_false] at hclosed
        omega
  · rw [endWith_of_not_isOpen h]

/-! ## Callbacks -/

theorem deeds_modify {f : Span → Span} (hf : ∀ s : Span, s.Edit (f s)) (r : Recorder)
    (ref : SpanRef) : Deeds free ⟨r, U⟩ ⟨r.modify ref f, U⟩ := by
  cases hs : r.span? ref with
  | none => rw [modify_of_none hs]
  | some s =>
    rw [modify_of_span? hs]
    exact .single (.edit hs (hf s))

/-- The span was claimed. -/
def Recorder.HasProcessed (r : Recorder) (ref : SpanRef) : Prop :=
  ∃ s, r.span? ref = some s ∧ s.state = .processed

theorem Recorder.HasProcessed.deeds {t : Recorder} {V : List SpanRef} {ref : SpanRef}
    (hp : r.HasProcessed ref) (h : Deeds free ⟨r, U⟩ ⟨t, V⟩) : t.HasProcessed ref := by
  obtain ⟨s, hs, hst⟩ := hp
  obtain ⟨u, hu, hut⟩ := h.state_of_isFinal hs (hst ▸ rfl)
  exact ⟨u, hu, hut.trans hst⟩

/-- A callback claims nothing if claiming is not free: it does not try, or it is shown a span that
was claimed before. -/
def Tame (free : Bool) (acts : List Act) (r : Recorder) (ref : SpanRef) : Prop :=
  free = true ∨ (∀ act ∈ acts, act.claims = false) ∨ r.HasProcessed ref

theorem Tame.deeds {acts : List Act} {t : Recorder} {V : List SpanRef} {ref : SpanRef}
    (ht : Tame free acts r ref) (h : Deeds free ⟨r, U⟩ ⟨t, V⟩) : Tame free acts t ref := by
  rcases ht with hf | ha | hp
  · exact .inl hf
  · exact .inr (.inl ha)
  · exact .inr (.inr (hp.deeds h))

theorem Tame.of_subset {acts few : List Act} {ref : SpanRef} (ht : Tame free acts r ref)
    (hs : few ⊆ acts) : Tame free few r ref := by
  rcases ht with hf | ha | hp
  · exact .inl hf
  · exact .inr (.inl fun act hm => ha act (hs hm))
  · exact .inr (.inr hp)

theorem deeds_perform (hh : Carries free depth hand) (hd : r.openCount ≤ depth) (thread : Nat)
    (label : String) {ref : SpanRef} {act : Act} (ht : Tame free [act] r ref) :
    Deeds free ⟨r, U⟩ ⟨(perform hand thread label ref r act).2, U⟩ := by
  cases act with
  | set key value => exact deeds_modify (fun _ => .set key value) r ref
  | copy source target => exact deeds_modify (fun _ => .set target _) r ref
  | remove key => exact deeds_modify (fun _ => .remove key) r ref
  | rename name => exact deeds_modify (fun _ => .rename name) r ref
  | claim =>
    unfold perform
    dsimp only
    split
    next t hclaim =>
      obtain ⟨s, hs, hp⟩ := Option.bind_eq_some_iff.mp hclaim
      have hfree : free = true := by
        rcases ht with hf | ha | ⟨u, hu, hup⟩
        · exact hf
        · exact absurd (ha .claim (by simp)) (by simp [Act.claims])
        · obtain rfl := Option.some.inj (hs.symm.trans hu)
          have hfinal := (Span.process?_eq_some hp).1
          rw [hup] at hfinal
          contradiction
      exact (Relation.ReflTransGen.single (.claim hfree hs hp)).tail (.note rfl)
    next => exact .single (.note rfl)
  | look =>
    unfold perform
    dsimp only
    split
    · exact .single (.note rfl)
    · exact .refl
  | veto | vetoNamed | vetoHaving | fail => exact .refl
  | enlist item =>
    exact .single (.aside ⟨rfl, rfl, rfl, rfl, rfl, rfl, rfl, rfl, rfl, rfl, rfl, rfl, rfl⟩)
  | finish other time => exact deeds_endWith hh hd thread other time

theorem deeds_runActs (hh : Carries free depth hand) (hd : r.openCount ≤ depth) (thread : Nat)
    (label : String) {ref : SpanRef} {acts : List Act} (ht : Tame free acts r ref) (keep : Bool) :
    Deeds free ⟨r, U⟩ ⟨(runActs hand thread label ref acts keep r).2, U⟩ := by
  induction acts generalizing r keep with
  | nil => exact .refl
  | cons act rest ih =>
    have hfirst : Tame free [act] r ref := ht.of_subset (by simp)
    have hrest : Tame free rest r ref := ht.of_subset (List.subset_cons_self act rest)
    have hone := deeds_perform (U := U) hh hd thread label hfirst
    have hboth := hone.trans (ih (Nat.le_trans hone.openCount_le hd) (hrest.deeds hone)
      (keep && (perform hand thread label ref r act).1))
    cases act with
    | fail => exact .refl
    | _ => exact hboth

theorem deeds_runEndCallbacks (hh : Carries free depth hand) (hd : r.openCount ≤ depth)
    (thread : Nat) {ref : SpanRef} (hp : r.HasProcessed ref) (items : List Registration) :
    Deeds free ⟨r, U⟩ ⟨(runEndCallbacks hand thread ref items r).2, U⟩ := by
  induction items generalizing r with
  | nil => exact .refl
  | cons item rest ih =>
    let callback := r.callbackAt item.callback
    have hnote : Deed free ⟨r, U⟩ ⟨r.emit (.calledAtEnd callback.label ref), U⟩ := .note rfl
    have htame : Tame free callback.acts (r.emit (.calledAtEnd callback.label ref)) ref :=
      .inr (.inr hp)
    have hacts := deeds_runActs (r := r.emit (.calledAtEnd callback.label ref)) (U := U) hh hd
      thread callback.label htame true
    have hcall := (Relation.ReflTransGen.single hnote).trans hacts
    unfold runEndCallbacks
    dsimp only
    split
    · exact hcall.trans (ih (Nat.le_trans (Deeds.openCount_le hcall) hd) (hp.deeds hcall))
    · exact hcall

theorem deeds_judge (hh : Carries free depth hand) (hd : r.openCount ≤ depth) (thread : Nat)
    {ref : SpanRef} (hp : r.HasProcessed ref) :
    Deeds free ⟨r, ref :: U⟩ ⟨(judge hand thread ref r).2, ref :: U⟩ := by
  unfold judge
  split
  · exact .refl
  · have hrun := deeds_runEndCallbacks (U := ref :: U) hh hd thread hp r.onEnd.entries
    refine hrun.trans ?_
    obtain ⟨s, hs, -⟩ := hp.deeds hrun
    dsimp only
    rw [modify_of_span? hs]
    exact .single (.inform hs _)

/-! ## Hand-overs -/

theorem deeds_sample (r : Recorder) (ref : SpanRef) :
    Deeds free ⟨r, U⟩ ⟨(r.sample ref).2, U⟩ := by
  unfold sample
  split
  · exact .refl
  · dsimp only
    split
    · exact .refl
    next s hs => exact .single (.sample hs _)

theorem deeds_receive (hh : Carries free depth hand) (hd : r.openCount ≤ depth) (thread : Nat)
    {ref : SpanRef} (he : free = false → ∃ s, r.span? ref = some s ∧ s.state = .ended) :
    Deeds free ⟨r, U⟩ ⟨receive hand thread r ref, U⟩ := by
  unfold receive
  split
  · exact .refl
  next t ht =>
    obtain ⟨s, hs, hp⟩ := Option.bind_eq_some_iff.mp ht
    have hended : free = false → s.state = .ended := by
      intro hf
      obtain ⟨u, hu, hue⟩ := he hf
      rw [Option.some.inj (hs.symm.trans hu)]
      exact hue
    have hclaimed : (r.put ref t).countEnded.HasProcessed ref :=
      ⟨t, span?_put_self hs t, by rw [(Span.process?_eq_some hp).2]⟩
    have hsample : Deeds free ⟨r, U⟩ ⟨((r.put ref t).countEnded.sample ref).2, ref :: U⟩ :=
      (Relation.ReflTransGen.single (.receive hs hp hended)).trans (deeds_sample _ ref)
    have hnoted : Deeds free ⟨(r.put ref t).countEnded, U⟩ _ := deeds_sample _ ref
    have hjudge := deeds_judge (U := U) hh (Nat.le_trans hsample.openCount_le hd) thread
      (hclaimed.deeds hnoted)
    dsimp only
    split
    · split
      · exact ((hsample.trans hjudge).tail .enqueue).tail (.aside (alike_enqueue _ ref))
      · exact (hsample.trans hjudge).tail .reject
    · exact hsample.tail .sampleOut

theorem carries_handOverTo (free : Bool) (thread depth : Nat) :
    Carries free depth (handOverTo thread depth) := by
  induction depth with
  | zero => exact fun _ _ _ _ hlt => absurd hlt (Nat.not_lt_zero _)
  | succ depth ih =>
    intro r U ref he hlt
    unfold handOverTo
    dsimp only
    split
    · exact .refl
    -- Hand-overs within this one come from ends that callbacks win, and each closes an open span.
    · exact deeds_receive (r := r.emit (.handedOver ref)) ih (Nat.le_of_lt_succ hlt) thread he

theorem openCount_le_size (r : Recorder) : r.openCount ≤ r.spans.size := Array.countP_le_size

/-- A hand-over is allowed for nesting as deep as there are spans, and so it is never cut short. -/
theorem carries_handOver (free : Bool) (thread depth : Nat) :
    Carries free depth (handOver thread) := fun r U ref he _ =>
  carries_handOverTo free thread _ r U ref he (Nat.lt_succ_of_le (openCount_le_size r))

theorem deeds_tryEnd (r : Recorder) (thread : Nat) (ref : SpanRef) (time : Ticks) :
    Deeds free ⟨r, U⟩ ⟨(r.tryEnd thread ref time).2, U⟩ :=
  deeds_endWith (carries_handOver free thread _) (Nat.le_refl _) thread ref time

end

end SpanRelay
