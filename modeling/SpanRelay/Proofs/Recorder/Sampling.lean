import SpanRelay.Proofs.Recorder.Batching

/-!
What a batch keeps. Whether a span is kept depends on the probability and on its trace alone, so
that of the spans of a trace that were detached a batch has all or none; each span that it has takes
note of the probability.
-/
namespace SpanRelay.Recorder

variable {r t : Recorder} {ref : SpanRef} {s : Span}

/-- The probability by which spans are sampled now, if there is any. -/
def probability? (r : Recorder) : Option Binary64 :=
  r.sampler.probability?.map fun sampler => sampler.probability r.clock.wallMillis

/-- The span takes note of the probability at which it was sampled. -/
def IsMarked (r : Recorder) (p : Binary64) (ref : SpanRef) : Prop :=
  ∃ s, r.span? ref = some s ∧ s.probability = p ∧
    s.attributes.get? Span.probabilityKey = some (.double p)

def isOfTrace (r : Recorder) (trace : TraceId) (ref : SpanRef) : Bool :=
  (r.span? ref).any fun s => s.context.trace == trace

variable {p : Binary64}

theorem probability?_sample (r : Recorder) (ref : SpanRef) :
    (r.sample ref).2.probability? = r.probability? := by
  obtain ⟨-, hs, hc, -⟩ := sample_frame r ref
  unfold probability?
  rw [hs, hc]

/-- A span is kept for its trace. -/
theorem fst_sample_eq (r : Recorder) (ref : SpanRef) :
    (r.sample ref).1 = r.probability?.any fun p =>
      (r.span? ref).any fun s => p.keeps s.context.trace.samplingValue := by
  unfold sample probability?
  cases r.sampler with
  | discarding => rfl
  | probability sampler =>
    cases hs : r.span? ref with
    | none => rfl
    | some s => rfl

theorem isMarked_sample (hp : r.probability? = some p) (hs : r.span? ref = some s) :
    (r.sample ref).2.IsMarked p ref := by
  unfold probability? at hp
  unfold sample
  cases hsampler : r.sampler with
  | discarding => simp [hsampler, Sampler.probability?] at hp
  | probability sampler =>
    simp only [hsampler, Sampler.probability?, Option.map_some, Option.some.injEq] at hp
    simp only [hs, hp]
    refine ⟨s.setProbability p, span?_put_self hs _, rfl, ?_⟩
    exact (Dictionary.get?_insert s.attributes _ _ _).trans (if_pos rfl)

theorem span?_sample_of_ne {other : SpanRef} (h : other ≠ ref) (r : Recorder) :
    (r.sample other).2.span? ref = r.span? ref := by
  unfold sample
  split
  · rfl
  · dsimp only
    split
    · rfl
    next s hs => exact (span?_put hs _ ref).trans (if_neg h)

theorem IsMarked.sample (h : r.IsMarked p ref) (hp : r.probability? = some p) (other : SpanRef) :
    (r.sample other).2.IsMarked p ref := by
  obtain ⟨s, hs, hrest⟩ := h
  by_cases ho : other = ref
  · subst ho
    exact isMarked_sample hp hs
  · exact ⟨s, (span?_sample_of_ne ho r).trans hs, hrest⟩

theorem IsMarked.sampleAll (h : r.IsMarked p ref) (hp : r.probability? = some p)
    (batch : List SpanRef) : (sampleAll batch r).2.IsMarked p ref := by
  induction batch generalizing r with
  | nil => exact h
  | cons other batch ih => exact ih (h.sample hp other) ((probability?_sample r other).trans hp)

theorem isMarked_sampleAll (hp : r.probability? = some p) {batch : List SpanRef}
    (hm : ref ∈ batch) (hs : r.span? ref = some s) : (sampleAll batch r).2.IsMarked p ref := by
  induction batch generalizing r s with
  | nil => contradiction
  | cons other batch ih =>
    have hrest := (probability?_sample r other).trans hp
    rcases List.mem_cons.mp hm with rfl | hm
    · exact (isMarked_sample hp hs).sampleAll hrest batch
    · by_cases ho : other = ref
      · subst ho
        exact (isMarked_sample hp hs).sampleAll hrest batch
      · exact ih hrest hm ((span?_sample_of_ne ho r).trans hs)

/-- Of the spans of a trace all are kept, or none. -/
theorem filter_sample_cases (r : Recorder) (batch : List SpanRef) (trace : TraceId) :
    let kept := batch.filter fun ref => (r.sample ref).1
    kept.filter (r.isOfTrace trace) = batch.filter (r.isOfTrace trace) ∨
      kept.filter (r.isOfTrace trace) = [] := by
  intro kept
  let verdict := r.probability?.any fun p => p.keeps trace.samplingValue
  have hsame : ∀ ref, r.isOfTrace trace ref = true → (r.sample ref).1 = verdict := by
    intro ref href
    rw [isOfTrace, Option.any_eq_true] at href
    obtain ⟨s, hs, htrace⟩ := href
    rw [fst_sample_eq, hs]
    simp only [Option.any_some, beq_iff_eq.mp htrace, verdict]
  rw [List.filter_filter]
  cases hv : verdict with
  | true =>
    left
    apply List.filter_congr
    intro ref _
    cases href : r.isOfTrace trace ref with
    | false => rfl
    | true => rw [hsame ref href, hv, Bool.and_true]
  | false =>
    right
    rw [List.filter_eq_nil_iff]
    intro ref _ hboth
    obtain ⟨href, hkept⟩ := Bool.and_eq_true_iff.mp hboth
    rw [hsame ref href, hv] at hkept
    contradiction

/-- The batch that is collected is whole in each trace, and its spans bear the probability at which
they were kept. -/
theorem collectNextBatch_traces {kept : List SpanRef}
    (h : r.collectNextBatch = (some kept, t)) :
    t.detachedSpans = r.detachedSpans ++ r.waiting ∧
      (∀ trace, kept.filter (r.isOfTrace trace) = r.waiting.filter (r.isOfTrace trace) ∨
        kept.filter (r.isOfTrace trace) = []) ∧
      ∀ ref ∈ kept, ∃ p, r.probability? = some p ∧ t.IsMarked p ref := by
  have hspec := collectNextBatch_spec r
  rw [h] at hspec
  obtain ⟨hkept, hdetached, -⟩ := hspec
  let asked : Recorder := { r with batcher := { r.batcher with forced := false } }
  have hmarked : ∀ ref ∈ r.waiting.filter (fun ref => (r.sample ref).1),
      ∃ p, r.probability? = some p ∧ (sampleAll r.waiting asked.emptied).2.IsMarked p ref := by
    intro ref hm
    obtain ⟨hwaits, hkept⟩ := List.mem_filter.mp hm
    rw [fst_sample_eq, Option.any_eq_true] at hkept
    obtain ⟨p, hp, hkept⟩ := hkept
    rw [Option.any_eq_true] at hkept
    obtain ⟨s, hs, -⟩ := hkept
    obtain ⟨handles, heq⟩ := exists_emptied_eq asked
    refine ⟨p, hp, isMarked_sampleAll ?_ hwaits (s := s) ?_⟩
    · rw [heq]
      exact hp
    · rw [heq]
      exact hs
  have ht : t = (sampleAll r.waiting asked.emptied).2 := by
    unfold collectNextBatch askForBatch at h
    dsimp only at h
    split at h
    · exact (congrArg Prod.snd h).symm
    · simp at h
  refine ⟨hdetached, fun trace => ?_, ?_⟩
  · rw [hkept]
    exact filter_sample_cases r r.waiting trace
  · rw [hkept, ht]
    exact hmarked

end SpanRelay.Recorder
