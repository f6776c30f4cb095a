import SpanRelay.Proofs.Recorder.Descent
import SpanRelay.Proofs.Recorder.Sampling

/-!
Traces. A span takes over the trace of its parent when it is built and stays in it for good, so that
spans connected by parenting have one sampling value and are kept or dropped together.
-/
namespace SpanRelay

open Recorder

theorem SpanContext.isValid_iff {c : SpanContext} :
    c.isValid = true ↔ c.trace ≠ 0 ∧ c.span ≠ 0 := by
  rw [isValid, Bool.and_eq_true, bne_iff_ne, bne_iff_ne]

namespace Recorder

variable {r t u : Recorder} {ref : SpanRef} {s v : Span} {thread : Nat}

/-! ## Parents -/

/-- The parent of a span that is created: the one given if it is valid, else with none given the
current span of the thread. -/
def parentOf? (r : Recorder) (thread : Nat) : Option SpanContext → Option SpanContext
  | some given => if given.isValid then some given else none
  | none => (r.current? thread).1.bind r.contextOf?

theorem parentFor_eq (r : Recorder) (thread : Nat) (given : Option SpanContext) :
    (r.parentFor thread given).1 = r.parentOf? thread given := by
  cases given with
  | some c => rfl
  | none =>
    unfold parentFor currentContext? parentOf?
    dsimp only
    rw [contextOf?_current?]

/-- Every span has a number of its own, and belongs to a trace. -/
def Numbered (r : Recorder) : Prop := ∀ ref c, r.contextOf? ref = some c → c.isValid = true

theorem contextOf?_eq (r : Recorder) (ref : SpanRef) :
    r.contextOf? ref = ((r.span? ref).map Span.descent).map Prod.fst := by
  rw [Option.map_map]
  rfl

theorem Numbered.sameDescent (h : r.Numbered) (hd : r.SameDescent t) : t.Numbered := by
  intro ref c hc
  rw [contextOf?_eq, hd ref, ← contextOf?_eq] at hc
  exact h ref c hc

theorem Numbered.isValid_parentOf? (h : r.Numbered) {given : Option SpanContext} {p : SpanContext}
    (hp : r.parentOf? thread given = some p) : p.isValid = true := by
  cases given with
  | some c =>
    have hp : (if c.isValid then some c else none) = some p := hp
    split at hp
    next hc => exact Option.some.inj hp ▸ hc
    next => contradiction
  | none =>
    obtain ⟨ref, -, hc⟩ := Option.bind_eq_some_iff.mp hp
    exact h ref p hc

/-- A current span is one of the spans. -/
theorem isSome_contextOf?_current? (h : (r.current? thread).1 = some ref) :
    (r.contextOf? ref).isSome = true := by
  unfold current? at h
  split at h
  · contradiction
  · dsimp only at h
    rw [ContextStack.current?_eq, ContextStack.live, List.head?_filter] at h
    obtain ⟨-, s, hs, -⟩ := isLive_iff.mp (List.find?_some h)
    rw [contextOf?, hs]
    rfl

end Recorder
/-! ## Births -/

/-- What a span is like that was asked for and for which this parent was found. -/
structure Span.BornOf (s : Span) (q : SpanRequest) (parent : Option SpanContext) : Prop where
  child : ∀ p, parent = some p → s.context.trace = p.trace ∧ s.parent = p.span
  root : parent = none → s.parent = 0 ∧ s.context.trace ≠ 0
  firstClass : s.attributes.get? Span.firstClassKey =
    if q.category.marksFirstClass then some (.bool (q.firstClass.getD (s.parent == 0))) else none

namespace Recorder

variable {r t u : Recorder} {ref : SpanRef} {s v : Span} {thread : Nat}

theorem spans_attach (r : Recorder) (thread : Nat) (ref : SpanRef) :
    (r.attach thread ref).spans = r.spans := (alike_onStack r thread _).spans

/-- The span that is built, in terms of the parent that was found. -/
theorem exists_built (r : Recorder) (thread : Nat) (fresh : FreshIds) (q : SpanRequest) :
    let parent := r.parentOf? thread q.parent
    ∃ s, (r.build thread fresh q).2.spans = r.spans.push s ∧
      s.context = ⟨parent.elim fresh.trace fun p => if p.trace = 0 then fresh.trace else p.trace,
        fresh.span⟩ ∧
      s.parent = parent.elim 0 SpanContext.span ∧
      s.attributes.get? Span.firstClassKey = if q.category.marksFirstClass then
        some (.bool (q.firstClass.getD parent.isNone)) else none := by
  intro parent
  have hspans := (alike_parentFor r thread q.parent).spans
  have hparent : (r.parentFor thread q.parent).1 = parent := parentFor_eq r thread q.parent
  rcases hp : r.parentFor thread q.parent with ⟨found, t⟩
  rw [hp] at hspans hparent
  obtain rfl : found = parent := hparent
  unfold build
  simp only [hp]
  generalize hs : (if q.category.marksFirstClass = true then Span.setInternal _ _ _ else _) = s
  have hdescent : s.descent = (⟨parent.elim fresh.trace fun p =>
      if p.trace = 0 then fresh.trace else p.trace, fresh.span⟩, parent.elim 0 SpanContext.span) := by
    rw [← hs]
    split <;> cases parent <;> exact Span.descent_create ..
  refine ⟨s, ?_, congrArg Prod.fst hdescent, congrArg Prod.snd hdescent, ?_⟩
  · rw [← hspans]
    split
    · exact spans_attach ..
    · rfl
  · rw [← hs]
    split
    · rw [Span.setInternal, Dictionary.get?_insert, if_pos rfl]
    · exact Span.get?_firstClassKey_create ..

theorem Numbered.exists_bornOf (h : r.Numbered) (thread : Nat) (fresh : FreshIds)
    (q : SpanRequest) :
    ∃ s, (r.build thread fresh q).2.spans = r.spans.push s ∧ s.context.isValid = true ∧
      s.BornOf q (r.parentOf? thread q.parent) := by
  obtain ⟨s, hpush, hcontext, hparent, hfirst⟩ := exists_built r thread fresh q
  have hspan : s.context.span ≠ 0 := by
    rw [hcontext]
    exact fresh.span_ne_zero
  refine ⟨s, hpush, ?_⟩
  cases hp : r.parentOf? thread q.parent with
  | none =>
    rw [hp] at hcontext hparent hfirst
    have htrace : s.context.trace ≠ 0 := by
      rw [hcontext]
      exact fresh.trace_ne_zero
    refine ⟨SpanContext.isValid_iff.mpr ⟨htrace, hspan⟩, by simp, fun _ => ⟨hparent, htrace⟩, ?_⟩
    rw [hfirst, hparent]
    rfl
  | some p =>
    rw [hp] at hcontext hparent hfirst
    have hvalid := SpanContext.isValid_iff.mp (h.isValid_parentOf? hp)
    have htrace : s.context.trace = p.trace := by
      rw [hcontext]
      exact if_neg hvalid.1
    have hsame : (s.parent == 0) = false := by
      rw [hparent]
      exact beq_false_of_ne hvalid.2
    refine ⟨SpanContext.isValid_iff.mpr ⟨htrace ▸ hvalid.1, hspan⟩, ?_, by simp, ?_⟩
    · intro p' hp'
      obtain rfl := Option.some.inj hp'
      exact ⟨htrace, hparent⟩
    · rw [hfirst, hsame]
      rfl

theorem span?_of_push (h : t.spans = r.spans.push s) (ref : SpanRef) :
    t.span? ref = if ref = r.spans.size then some s else r.span? ref := by
  unfold span?
  rw [h, Array.getElem?_push]

theorem Numbered.build (h : r.Numbered) (thread : Nat) (fresh : FreshIds) (q : SpanRequest) :
    (r.build thread fresh q).2.Numbered := by
  obtain ⟨s, hpush, hvalid, -⟩ := h.exists_bornOf thread fresh q
  intro ref c hc
  rw [contextOf?, span?_of_push hpush] at hc
  split at hc
  · exact Option.some.inj hc ▸ hvalid
  · exact h ref c hc

end Recorder

theorem Span.BornOf.dress {s : Span} {q : SpanRequest} {parent : Option SpanContext}
    (h : s.BornOf q parent) {own : List (String × String)}
    (hown : Span.firstClassKey ∉ own.map Prod.fst) : (s.dress own).BornOf q parent := by
  have hdescent := Span.descent_dress own s
  have hcontext : (s.dress own).context = s.context := congrArg Prod.fst hdescent
  have hparent : (s.dress own).parent = s.parent := congrArg Prod.snd hdescent
  constructor
  · rw [hcontext, hparent]
    exact h.child
  · rw [hcontext, hparent]
    exact h.root
  · rw [hparent, Span.get?_dress hown]
    exact h.firstClass

namespace Recorder

variable {r t u : Recorder} {ref : SpanRef} {s v : Span} {thread : Nat}

/-! ## Uses -/

theorem Numbered.use (h : r.Numbered) (x : Use) : (r.use x).Numbered := by
  cases hx : x.request? with
  | none => exact h.sameDescent (sameDescent_use_of_none hx)
  | some request =>
    obtain ⟨thread, fresh, q⟩ := request
    exact (h.build thread fresh q).sameDescent (sameDescent_use_of_request hx)

theorem Numbered.uses (h : r.Numbered) (uses : List Use) : (uses.foldl Recorder.use r).Numbered := by
  induction uses generalizing r with
  | nil => exact h
  | cons x rest ih => exact ih (h.use x)

theorem numbered_start (clock : Clock) (limits : AttributeLimits) (timed : Bool) (sink : Sink)
    (sampler : Sampler) (trigger : Nat) (timeout : Nanos) :
    (start clock limits timed sink sampler trigger timeout).Numbered := by
  intro ref c hc
  simp [start, contextOf?, Recorder.span?] at hc

/-- A span stays where it is in its trace. -/
theorem exists_span?_use (hs : r.span? ref = some s) (x : Use) :
    ∃ v, (r.use x).span? ref = some v ∧ v.descent = s.descent := by
  cases hx : x.request? with
  | none => exact (sameDescent_use_of_none hx).exists hs
  | some request =>
    obtain ⟨thread, fresh, q⟩ := request
    obtain ⟨n, hpush, -⟩ := exists_built r thread fresh q
    apply (sameDescent_use_of_request hx).exists
    have hlt := (Array.getElem?_eq_some_iff.mp hs).1
    rw [span?_of_push hpush, if_neg (Nat.ne_of_lt hlt), hs]

theorem exists_span?_uses (hs : r.span? ref = some s) (uses : List Use) :
    ∃ v, (uses.foldl use r).span? ref = some v ∧ v.descent = s.descent := by
  induction uses generalizing r s with
  | nil => exact ⟨s, hs, rfl⟩
  | cons x rest ih =>
    obtain ⟨v, hv, hsame⟩ := exists_span?_use hs x
    obtain ⟨w, hw, hlast⟩ := ih hv
    exact ⟨w, hw, hlast.trans hsame⟩

/-- In the course of the uses a span with the second context is created under the first. -/
inductive Begets : Recorder → List Use → SpanContext → SpanContext → Prop where
  | now {r : Recorder} {x : Use} {rest : List Use} {thread : Nat} {fresh : FreshIds}
      {q : SpanRequest} {p c : SpanContext} (hx : x.request? = some (thread, fresh, q))
      (hp : r.parentOf? thread q.parent = some p)
      (hc : (r.use x).contextOf? r.spans.size = some c) : Begets r (x :: rest) p c
  | later {r : Recorder} {x : Use} {rest : List Use} {p c : SpanContext}
      (h : Begets (r.use x) rest p c) : Begets r (x :: rest) p c

theorem Begets.trace {uses : List Use} {p c : SpanContext} (h : Begets r uses p c)
    (hr : r.Numbered) : p.trace = c.trace := by
  induction h with
  | later _ ih => exact ih (hr.use _)
  | @now r x rest thread fresh q p c hx hp hc =>
    obtain ⟨s, hpush, -, hborn⟩ := hr.exists_bornOf thread fresh q
    have hs : (r.build thread fresh q).2.span? r.spans.size = some s := by
      rw [span?_of_push hpush, if_pos rfl]
    obtain ⟨v, hv, hsame⟩ := (sameDescent_use_of_request hx).exists hs
    rw [contextOf?, hv] at hc
    obtain rfl : v.context = c := Option.some.inj hc
    rw [show v.context = s.context from congrArg Prod.fst hsame]
    exact (hborn.child p hp).1.symm

theorem trace_of_eqvGen {uses : List Use} {a b : SpanContext} (hr : r.Numbered)
    (h : Relation.EqvGen (Begets r uses) a b) : a.trace = b.trace := by
  induction h with
  | rel a b h => exact h.trace hr
  | refl a => rfl
  | symm a b _ ih => exact ih.symm
  | trans a b c _ _ hab hbc => exact hab.trans hbc

/-- After any uses, a span that is created takes over the trace of its parent and the number of the
parent; one without a parent begins a trace. This stays so for good, and until its attributes are
touched it tells what was asked for, or whether it has a parent, if its category tells it at all.
Spans that were connected by parenting have one sampling value. Of the spans of each trace that the
next batch detaches it keeps all or none, and those kept bear the probability. -/
theorem traces_uses (clock : Clock) (limits : AttributeLimits) (timed : Bool) (sink : Sink)
    (sampler : Sampler) (trigger : Nat) (timeout : Nanos) (uses : List Use) :
    let r₀ := start clock limits timed sink sampler trigger timeout
    let r := uses.foldl use r₀
    (∀ thread fresh q own, Span.firstClassKey ∉ own.map Prod.fst →
      ∃ s, (r.build thread fresh q).2.span? r.spans.size = some s ∧
        (s.dress own).BornOf q (r.parentOf? thread q.parent) ∧
        ∀ m ∈ [Move.create thread fresh q, .createWith thread fresh q own], ∀ later : List Use,
          ∃ v, (later.foldl use (r.move m)).span? r.spans.size = some v ∧
            v.context = s.context ∧ v.parent = s.parent) ∧
      (∀ thread ref, (r.current? thread).1 = some ref → (r.contextOf? ref).isSome = true) ∧
      (∀ a b, Relation.EqvGen (Begets r₀ uses) a b →
        a.trace = b.trace ∧ a.trace.samplingValue = b.trace.samplingValue) ∧
      ∀ kept t, r.collectNextBatch = (some kept, t) →
        t.detachedSpans = r.detachedSpans ++ r.waiting ∧
          (∀ trace, kept.filter (r.isOfTrace trace) = r.waiting.filter (r.isOfTrace trace) ∨
            kept.filter (r.isOfTrace trace) = []) ∧
          ∀ ref ∈ kept, ∃ p, r.probability? = some p ∧ t.IsMarked p ref := by
  intro r₀ r
  have hstart : r₀.Numbered := numbered_start clock limits timed sink sampler trigger timeout
  have hr : r.Numbered := hstart.uses uses
  refine ⟨?_, fun _ _ => isSome_contextOf?_current?, ?_, fun _ _ => collectNextBatch_traces⟩
  · intro thread fresh q own hown
    obtain ⟨s, hpush, -, hborn⟩ := hr.exists_bornOf thread fresh q
    have hs : (r.build thread fresh q).2.span? r.spans.size = some s := by
      rw [span?_of_push hpush, if_pos rfl]
    refine ⟨s, hs, hborn.dress hown, ?_⟩
    intro m hm later
    have hrequest : (Use.call m).request? = some (thread, fresh, q) := by
      rcases List.mem_pair.mp hm with rfl | rfl <;> rfl
    obtain ⟨n, hn, hnew⟩ := (sameDescent_use_of_request hrequest).exists hs
    obtain ⟨v, hv, hlast⟩ := exists_span?_uses hn later
    have hsame := hlast.trans hnew
    exact ⟨v, hv, congrArg Prod.fst hsame, congrArg Prod.snd hsame⟩
  · intro a b h
    have htrace := trace_of_eqvGen hstart h
    exact ⟨htrace, congrArg TraceId.samplingValue htrace⟩

/-- Two traces are batched whole; when the probability has come down to a half, one of them is kept
and the other is not. A span for a request is created under one that ended long ago. -/
theorem traces_uses_halved :
    let half : ProbabilitySampler := .fixed (.ofRatio false 1 2)
    let q : SpanRequest := { SpanRequest.named "request" with
      category := .network, parent := some ⟨BitVec.allOnes 128, 3⟩ }
    let uses : List Use := [
      .call (.create 0 (.ofNumbers 1 1) (.named "outer")),
      .call (.create 0 (.ofNumbers 9 2) (.named "inner")),
      .call (.create 1 (.ofNumbers (BitVec.allOnes 128) 3) (.named "other")),
      .call (.finish 0 1 5), .call (.finish 1 2 6), .call (.finish 0 0 7),
      .call (.setSampler (.probability half)), .call .force]
    let r := uses.foldl use
      (start default .standard true .batch (.probability (.fixed .one)) 100 0)
    (r.collectNextBatch.1 = some [1, 0] ∧ ∃ p, r.probability? = some p ∧
      r.collectNextBatch.2.IsMarked p 1) ∧
      (∃ s, (r.build 0 (.ofNumbers 4 4) q).2.span? 3 = some s ∧ s.parent = 3 ∧
        s.context.trace = BitVec.allOnes 128 ∧ s.attributes.get? Span.firstClassKey = none) ∧
      TraceId.samplingValue 1 ≠ TraceId.samplingValue (BitVec.allOnes 128) := by
  intro half q uses r
  obtain ⟨hborn, -, -, hbatch⟩ :=
    traces_uses default .standard true .batch (.probability (.fixed .one)) 100 0 uses
  have hkept : r.collectNextBatch.1 = some [1, 0] := by decide +kernel
  have hsize : r.spans.size = 3 := by decide +kernel
  have hmarked : ∀ kept t, r.collectNextBatch = (some kept, t) →
      ∀ ref ∈ kept, ∃ p, r.probability? = some p ∧ t.IsMarked p ref :=
    fun kept t h => (hbatch kept t h).2.2
  obtain ⟨s, hs, hbornOf, -⟩ := hborn 0 (.ofNumbers 4 4) q [("http.url", "/")] (by decide)
  have hs : (r.build 0 (.ofNumbers 4 4) q).2.span? r.spans.size = some s := hs
  have hchild := hbornOf.child ⟨BitVec.allOnes 128, 3⟩ rfl
  have hfirst := hbornOf.firstClass
  -- What is left does not depend on how `r` came about.
  clear_value r
  refine ⟨⟨hkept, ?_⟩, ⟨s, ?_, hchild.2, hchild.1, ?_⟩, by decide +kernel⟩
  · exact hmarked [1, 0] r.collectNextBatch.2 (Prod.ext hkept rfl) 1 (by decide)
  · rw [← hsize]
    exact hs
  · exact (Span.get?_dress (by decide) s).symm.trans hfirst

end Recorder
end SpanRelay
