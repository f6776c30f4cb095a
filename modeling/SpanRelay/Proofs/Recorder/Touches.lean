import SpanRelay.Proofs.Recorder.Moves

/-!
The smallest changes that a hand-over is made of. A deed leaves open what becomes of the stacks, of
those who hold on to spans and of the clock; a touch tells all that it changes. Final spans may be
set aside: then no touch edits them, since callbacks are shown spans that are being claimed.
-/
namespace SpanRelay

open Recorder

/-- How a hand-over moves a span on. -/
inductive Span.Advance (s : Span) : Span → Prop where
  | sample (p : Binary64) : Advance s (s.setProbability p)
  | beginEnd {t : Span} (h : s.beginEnd? = some t) (time : Ticks) : Advance s (t.recordEnd time)
  | finishEnd : Advance s s.finishEnd.2
  | process {t : Span} (h : s.process? = some t) : Advance s t
  | freeze : Advance s s.freeze

/-- One change within a hand-over, told in full; the spans of `K` are set aside. -/
inductive Touch (K : SpanRef → Prop) : Recorder → Recorder → Prop where
  | emit {r : Recorder} (e : Event) : Touch K r (r.emit e)
  | edit {r : Recorder} {ref : SpanRef} {s t : Span} (hk : ¬ K ref) (hs : r.span? ref = some s)
      (h : s.Edit t) : Touch K r (r.put ref t)
  | inform {r : Recorder} {ref : SpanRef} {s : Span} (hk : ¬ K ref) (hs : r.span? ref = some s)
      (key : String) (value : AttributeValue) : Touch K r (r.put ref (s.setInternal key value))
  | advance {r : Recorder} {ref : SpanRef} {s t : Span} (hs : r.span? ref = some s)
      (h : s.Advance t) : Touch K r (r.put ref t)
  | detach {r : Recorder} {ref : SpanRef} {s : Span} (hs : r.span? ref = some s)
      (ho : s.state.isOpen = false) (thread : Nat) : Touch K r (r.detach thread ref)
  | keep {r : Recorder} {ref : SpanRef} {s : Span} (hs : r.span? ref = some s)
      (ho : s.state.isOpen = false) : Touch K r (r.addTo r.batcher.backlog ref).2
  | adjust {r : Recorder} (onEnd : Registry) (batcher : Batcher) (signals : Signals) :
      Touch K r { r with onEnd, batcher, signals }

abbrev Touches (K : SpanRef → Prop) : Recorder → Recorder → Prop := Relation.ReflTransGen (Touch K)

/-! ## What a touch does to a span -/

namespace Span

variable {s t : Span}

theorem Edit.extension (h : s.Edit t) : t.extension = s.extension := by
  cases h with
  | rename name =>
    unfold Span.rename
    split <;> rfl
  | set key value =>
    unfold setAttribute countDropped
    split <;> rfl
  | remove key =>
    unfold removeAttribute
    split <;> rfl

/-- Holds, the times of their release and the count of refused attributes are left alone. -/
theorem Advance.same (h : s.Advance t) :
    t.pending = s.pending ∧ t.extension = s.extension ∧ t.dropped = s.dropped := by
  cases h with
  | beginEnd h time =>
    obtain ⟨-, rfl⟩ := beginEnd?_eq_some h
    exact ⟨rfl, rfl, rfl⟩
  | finishEnd =>
    unfold Span.finishEnd move?
    cases s.state <;> exact ⟨rfl, rfl, rfl⟩
  | process h =>
    obtain ⟨-, rfl⟩ := process?_eq_some h
    exact ⟨rfl, rfl, rfl⟩
  | _ => exact ⟨rfl, rfl, rfl⟩

theorem Advance.isOpen (h : s.Advance t) (ho : t.state.isOpen = true) : s.state.isOpen = true := by
  cases h with
  | beginEnd h time => exact (beginEnd?_eq_some h).1
  | finishEnd =>
    revert ho
    unfold Span.finishEnd move?
    cases hs : s.state <;> simp [SpanState.finishEnd?, SpanState.isOpen, hs]
  | process h =>
    obtain ⟨-, rfl⟩ := process?_eq_some h
    simp [SpanState.isOpen] at ho
  | _ => exact ho

theorem Advance.state_of_isFinal (h : s.Advance t) (hf : s.state.isFinal = true) :
    t.state = s.state := by
  cases h with
  | beginEnd h time =>
    have ho := (beginEnd?_eq_some h).1
    cases hs : s.state <;> simp_all [SpanState.isOpen, SpanState.isFinal]
  | finishEnd =>
    unfold Span.finishEnd move?
    cases hs : s.state <;> simp_all [SpanState.finishEnd?, SpanState.isFinal]
  | process h => simp [(process?_eq_some h).1] at hf
  | _ => rfl

end Span

namespace Recorder

/-- The spans that are set aside are final, so that no hand-over claims them. -/
def SetsAside (r : Recorder) (K : SpanRef → Prop) : Prop :=
  ∀ ref, K ref → ∃ s, r.span? ref = some s ∧ s.state.isFinal = true

theorem setsAside_none (r : Recorder) : r.SetsAside fun _ => False := fun _ h => h.elim

theorem state_put_of_isFinal {r : Recorder} {ref other : SpanRef} {s t u : Span}
    (hs : r.span? ref = some s) (hu : r.span? other = some u) (hf : u.state.isFinal = true)
    (ht : s.state.isFinal = true → t.state = s.state) :
    ∃ v, (r.put ref t).span? other = some v ∧ v.state = u.state := by
  rw [span?_put hs]
  by_cases h : ref = other
  · subst h
    obtain rfl := Option.some.inj (hs.symm.trans hu)
    exact ⟨t, if_pos rfl, ht hf⟩
  · exact ⟨u, by rw [if_neg h, hu], rfl⟩

theorem span?_detach (r : Recorder) (thread : Nat) (ref other : SpanRef) :
    (r.detach thread ref).span? other = r.span? other := (alike_detach r thread ref).span? other

end Recorder

variable {K : SpanRef → Prop} {r t : Recorder}

theorem Touch.state_of_isFinal {ref : SpanRef} {s : Span} (h : Touch K r t)
    (hs : r.span? ref = some s) (hf : s.state.isFinal = true) :
    ∃ u, t.span? ref = some u ∧ u.state = s.state := by
  cases h with
  | edit hk hs' h => exact state_put_of_isFinal hs' hs hf fun _ => h.state_pending.1
  | inform hk hs' key value => exact state_put_of_isFinal hs' hs hf fun _ => rfl
  | advance hs' h => exact state_put_of_isFinal hs' hs hf h.state_of_isFinal
  | detach hs' ho thread => exact ⟨s, (span?_detach ..).trans hs, rfl⟩
  | _ => exact ⟨s, hs, rfl⟩

/-- A span that is final is found in the same state after any touches. -/
theorem Touches.state_of_isFinal {ref : SpanRef} {s : Span} (h : Touches K r t)
    (hs : r.span? ref = some s) (hf : s.state.isFinal = true) :
    ∃ u, t.span? ref = some u ∧ u.state = s.state := by
  induction h with
  | refl => exact ⟨s, hs, rfl⟩
  | tail _ hone ih =>
    obtain ⟨u, hu, hst⟩ := ih
    obtain ⟨v, hv, hsame⟩ := hone.state_of_isFinal hu (hst ▸ hf)
    exact ⟨v, hv, hsame.trans hst⟩

theorem Touches.setsAside (h : Touches K r t) (hk : r.SetsAside K) : t.SetsAside K := by
  intro ref href
  obtain ⟨s, hs, hf⟩ := hk ref href
  obtain ⟨u, hu, hst⟩ := h.state_of_isFinal hs hf
  exact ⟨u, hu, hst ▸ hf⟩

/-! ## Hand-overs as touches -/

/-- What a hand-over does is a run of touches. -/
def Touching (K : SpanRef → Prop) (hand : HandOver) : Prop :=
  ∀ (r : Recorder) (ref : SpanRef), r.SetsAside K → Touches K r (hand r ref)

theorem touches_modify {ref : SpanRef} {f : Span → Span}
    (hf : ∀ s, r.span? ref = some s → Touch K r (r.put ref (f s))) :
    Touches K r (r.modify ref f) := by
  cases hs : r.span? ref with
  | none => rw [modify_of_none hs]
  | some s =>
    rw [modify_of_span? hs]
    exact .single (hf s hs)

theorem touches_wakeWorker (r : Recorder) : Touches K r r.wakeWorker := by
  unfold wakeWorker
  split
  · exact .single (.adjust r.onEnd r.batcher _)
  · exact .refl

theorem touches_forceCurrentBatch (r : Recorder) : Touches K r r.forceCurrentBatch :=
  Relation.ReflTransGen.head (.adjust r.onEnd _ r.signals) (touches_wakeWorker _)

theorem touches_endWith {hand : HandOver} (hh : Touching K hand) (hk : r.SetsAside K)
    (thread : Nat) (ref : SpanRef) (time : Ticks) :
    Touches K r (endWith hand r thread ref time).2 := by
  unfold endWith
  split
  · exact .refl
  next begun hb =>
    obtain ⟨s, hs, hb⟩ := Option.bind_eq_some_iff.mp hb
    let r₁ := (r.put ref (begun.recordEnd time)).emit (.ended ref time)
    have hbegun : r₁.span? ref = some (begun.recordEnd time) := span?_put_self hs _
    have hfirst : Touches K r r₁ :=
      (Relation.ReflTransGen.single (.advance hs (.beginEnd hb time))).tail (.emit _)
    have hclosed : (begun.recordEnd time).state.isOpen = false := by
      obtain ⟨-, rfl⟩ := Span.beginEnd?_eq_some hb
      dsimp only [Span.recordEnd]
      split <;> rfl
    have hsecond : Touches K r (if begun.makesContext then r₁.detach thread ref else r₁) := by
      split
      · exact hfirst.tail (.detach hbegun hclosed thread)
      · exact hfirst
    have hspan : (if begun.makesContext then r₁.detach thread ref else r₁).span? ref =
        some (begun.recordEnd time) := by
      split
      · exact (span?_detach ..).trans hbegun
      · exact hbegun
    dsimp only
    generalize (if begun.makesContext then r₁.detach thread ref else r₁) = r₂ at hsecond hspan
    rw [hspan, Option.map_some]
    dsimp only
    have hthird := hsecond.tail (.advance hspan .finishEnd)
    split
    · exact hthird.trans (hh _ ref (Touches.setsAside hthird hk))
    · exact hthird

theorem touches_perform {hand : HandOver} (hh : Touching K hand) (hk : r.SetsAside K)
    (thread : Nat) (label : String) {ref : SpanRef} (href : ¬ K ref) (act : Act) :
    Touches K r (perform hand thread label ref r act).2 := by
  have hedit : ∀ {f : Span → Span}, (∀ s : Span, s.Edit (f s)) → Touches K r (r.modify ref f) :=
    fun hf => touches_modify fun s hs => .edit href hs (hf s)
  cases act with
  | set key value => exact hedit fun _ => .set key value
  | copy source target => exact hedit fun _ => .set target _
  | remove key => exact hedit fun _ => .remove key
  | rename name => exact hedit fun _ => .rename name
  | claim =>
    unfold perform
    dsimp only
    split
    next t hclaim =>
      obtain ⟨s, hs, hp⟩ := Option.bind_eq_some_iff.mp hclaim
      exact (Relation.ReflTransGen.single (.advance hs (.process hp))).tail (.emit _)
    next => exact .single (.emit _)
  | look =>
    unfold perform
    dsimp only
    split
    · exact .single (.emit _)
    · exact .refl
  | veto | vetoNamed | vetoHaving | fail => exact .refl
  | enlist item => exact .single (.adjust _ r.batcher r.signals)
  | finish other time => exact touches_endWith hh hk thread other time

theorem touches_runActs {hand : HandOver} (hh : Touching K hand) (hk : r.SetsAside K)
    (thread : Nat) (label : String) {ref : SpanRef} (href : ¬ K ref) (acts : List Act)
    (keep : Bool) : Touches K r (runActs hand thread label ref acts keep r).2 := by
  induction acts generalizing r keep with
  | nil => exact .refl
  | cons act rest ih =>
    have hone := touches_perform hh hk thread label href act
    have hboth := hone.trans (ih (hone.setsAside hk)
      (keep && (perform hand thread label ref r act).1))
    cases act with
    | fail => exact .refl
    | _ => exact hboth

theorem touches_runEndCallbacks {hand : HandOver} (hh : Touching K hand) (hk : r.SetsAside K)
    (thread : Nat) {ref : SpanRef} (href : ¬ K ref) (items : List Registration) :
    Touches K r (runEndCallbacks hand thread ref items r).2 := by
  induction items generalizing r with
  | nil => exact .refl
  | cons item rest ih =>
    let callback := r.callbackAt item.callback
    have hnote : Touches K r (r.emit (.calledAtEnd callback.label ref)) := .single (.emit _)
    have hcall := hnote.trans (touches_runActs hh (hnote.setsAside hk) thread callback.label href
      callback.acts true)
    unfold runEndCallbacks
    dsimp only
    split
    · exact hcall.trans (ih (Touches.setsAside hcall hk))
    · exact hcall

theorem touches_judge {hand : HandOver} (hh : Touching K hand) (hk : r.SetsAside K)
    (thread : Nat) {ref : SpanRef} (href : ¬ K ref) :
    Touches K r (judge hand thread ref r).2 := by
  unfold judge
  split
  · exact .refl
  · refine (touches_runEndCallbacks hh hk thread href r.onEnd.entries).trans ?_
    exact touches_modify fun s hs => .inform href hs _ _

theorem touches_sample (r : Recorder) (ref : SpanRef) : Touches K r (r.sample ref).2 := by
  unfold sample
  split
  · exact .refl
  · dsimp only
    split
    · exact .refl
    next s hs => exact .single (.advance hs (.sample _))

theorem touches_freeze (r : Recorder) (ref : SpanRef) : Touches K r (r.modify ref Span.freeze) :=
  touches_modify fun _ hs => .advance hs .freeze

theorem touches_enqueue {ref : SpanRef} {s : Span} (hs : r.span? ref = some s)
    (ho : s.state.isOpen = false) : Touches K r (r.enqueue ref) := by
  have hbacklog : Touches K r
      ({ (r.addTo r.batcher.backlog ref).2 with
          batcher := { r.batcher with
            backlog := (r.addTo r.batcher.backlog ref).1
            batched := r.batcher.batched + 1 } }.emit (.batched ref)) :=
    ((Relation.ReflTransGen.single (.keep hs ho)).tail (.adjust r.onEnd _ r.signals)).tail (.emit _)
  unfold enqueue
  dsimp only
  split
  · exact hbacklog.trans (touches_wakeWorker _)
  · exact hbacklog

theorem touches_receive {hand : HandOver} (hh : Touching K hand) (hk : r.SetsAside K)
    (thread : Nat) (ref : SpanRef) : Touches K r (receive hand thread r ref) := by
  unfold receive
  split
  · exact .refl
  next t ht =>
    obtain ⟨s, hs, hp⟩ := Option.bind_eq_some_iff.mp ht
    obtain ⟨hfinal, hstate⟩ := Span.process?_eq_some hp
    -- A span that is set aside is final, and what is claimed here is not.
    have href : ¬ K ref := by
      intro hkref
      obtain ⟨u, hu, hf⟩ := hk ref hkref
      obtain rfl := Option.some.inj (hs.symm.trans hu)
      rw [hf] at hfinal
      contradiction
    have hput : Touches K r (r.put ref t) := .single (.advance hs (.process hp))
    have hcount : Touches K r (r.put ref t).countEnded :=
      hput.tail (.adjust r.onEnd _ r.signals)
    have hclaimed : (r.put ref t).countEnded.span? ref = some t := span?_put_self hs t
    have hsampled : Touches K r ((r.put ref t).countEnded.sample ref).2 :=
      hcount.trans (touches_sample _ ref)
    dsimp only
    generalize hrest : ((r.put ref t).countEnded.sample ref).2 = u at hsampled
    have hlater : Touches K (r.put ref t).countEnded u := hrest ▸ touches_sample _ ref
    split
    · have hjudged : Touches K u (judge hand thread ref u).2 :=
        touches_judge hh (Touches.setsAside hsampled hk) thread href
      obtain ⟨v, hv, hvstate⟩ :=
        Touches.state_of_isFinal (hlater.trans hjudged) hclaimed (by rw [hstate]; rfl)
      have hdone : v.state.isOpen = false := by
        rw [hvstate, hstate]
        rfl
      split
      · refine ((hsampled.trans hjudged).trans (touches_freeze _ ref)).trans ?_
        rw [modify_of_span? hv]
        exact touches_enqueue (span?_put_self hv v.freeze) hdone
      · refine (hsampled.trans hjudged).trans (Relation.ReflTransGen.trans ?_ (touches_freeze _ ref))
        exact .single (.adjust _ _ _)
    · refine hsampled.trans (Relation.ReflTransGen.trans ?_ (touches_freeze _ ref))
      exact .single (.adjust _ _ _)

theorem touching_handOverTo (K : SpanRef → Prop) (thread depth : Nat) :
    Touching K (handOverTo thread depth) := by
  induction depth with
  | zero => exact fun _ _ _ => .refl
  | succ depth ih =>
    intro r ref hk
    have hnote : Touches K r (r.emit (.handedOver ref)) := .single (.emit _)
    unfold handOverTo
    dsimp only
    split
    · exact hnote
    · exact hnote.trans (touches_receive ih (hnote.setsAside hk) thread ref)

theorem touching_handOver (K : SpanRef → Prop) (thread : Nat) : Touching K (handOver thread) :=
  fun r => touching_handOverTo K thread _ r

theorem touches_sampleAll (batch : List SpanRef) (r : Recorder) :
    Touches K r (sampleAll batch r).2 := by
  induction batch generalizing r with
  | nil => exact .refl
  | cons ref batch ih => exact (touches_sample r ref).trans (ih _)

theorem touches_runStartCallbacks (hk : r.SetsAside K) (thread : Nat) {ref : SpanRef}
    (href : ¬ K ref) (items : List Registration) :
    Touches K r (runStartCallbacks thread ref items r) := by
  induction items generalizing r with
  | nil => exact .refl
  | cons item rest ih =>
    let callback := r.callbackAt item.callback
    have hnote : Touches K r (r.emit (.calledAtStart callback.label ref)) := .single (.emit _)
    have hcall : Touches K r _ := hnote.trans (touches_runActs (touching_handOver K thread)
      (hnote.setsAside hk) thread callback.label href callback.acts true)
    exact hcall.trans (ih (Touches.setsAside hcall hk))

end SpanRelay
