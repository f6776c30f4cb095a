import Mathlib.Data.List.Perm.Subperm
import SpanRelay.Proofs.Recorder.Moves

/-!
No span is lost, doubled or put out of order on its way from its end to a batch. The spans that were
detached from the backlog, followed by those that wait in it, are the spans that were batched; each
hand-over that claims a span is counted once more when it is settled what becomes of the span.
-/
namespace SpanRelay

namespace Event

def batched? : Event → Option SpanRef
  | .batched ref => some ref
  | _ => none

def detachedSpans : Event → List SpanRef
  | .detached spans => spans
  | _ => []

end Event

namespace Recorder

/-- The spans that wait for the next batch, oldest first. -/
def waiting (r : Recorder) : List SpanRef := (r.batcher.backlog.takeBatch r.links).1

/-- All spans that were batched, in that order. -/
def batchedSpans (r : Recorder) : List SpanRef := (r.log.filterMap Event.batched?).reverse

/-- All spans that were detached from the backlog, in that order, before they were sampled again. -/
def detachedSpans (r : Recorder) : List SpanRef := r.log.reverse.flatMap Event.detachedSpans

/-- The same in all that concerns batches. -/
structure Level (r t : Recorder) : Prop where
  links : t.links = r.links
  backlog : t.batcher.backlog = r.batcher.backlog
  ended : t.batcher.ended = r.batcher.ended
  sampledOut : t.batcher.sampledOut = r.batcher.sampledOut
  rejected : t.batcher.rejected = r.batcher.rejected
  batched : t.batcher.batched = r.batcher.batched
  batchedSpans : t.batchedSpans = r.batchedSpans
  detachedSpans : t.detachedSpans = r.detachedSpans

/-- At least this number of spans were processed. -/
def ProcessedAtLeast (r : Recorder) (n : Nat) : Prop :=
  ∃ spans : List SpanRef, spans.Nodup ∧ spans.length = n ∧ ∀ ref ∈ spans, r.HasProcessed ref

/-- The backlog leads to these spans, oldest first, and counts them. -/
def Queues (r : Recorder) (spans : List SpanRef) : Prop :=
  r.batcher.backlog.Holds r.links spans.reverse ∧ r.batcher.backlog.counter = spans.length

end Recorder

/-- Every span that was claimed is accounted for, and the batched ones are in order. -/
structure Balanced (a : Scene) : Prop where
  count : a.recorder.batcher.ended = a.recorder.batcher.sampledOut + a.recorder.batcher.rejected +
    a.recorder.batcher.batched + a.underway.length
  nodup : (a.underway ++ a.recorder.batchedSpans).Nodup
  claimed : ∀ ref ∈ a.underway ++ a.recorder.batchedSpans, a.recorder.HasProcessed ref
  queued : ∃ spans, a.recorder.Queues spans ∧
    a.recorder.detachedSpans ++ spans = a.recorder.batchedSpans
  length : a.recorder.batcher.batched = a.recorder.batchedSpans.length
  /-- No span is counted twice. -/
  ended : a.recorder.ProcessedAtLeast a.recorder.batcher.ended

open Recorder

/-! ## The log -/

namespace Recorder

theorem batchedSpans_emit (r : Recorder) (e : Event) :
    (r.emit e).batchedSpans = r.batchedSpans ++ e.batched?.toList := by
  unfold batchedSpans emit
  dsimp only
  rw [List.filterMap_cons]
  cases e.batched? with
  | none => simp
  | some ref => simp

theorem detachedSpans_emit (r : Recorder) (e : Event) :
    (r.emit e).detachedSpans = r.detachedSpans ++ e.detachedSpans := by
  simp [detachedSpans, emit]

theorem level_emit {e : Event} (hb : e.batched? = none) (hd : e.detachedSpans = [])
    (r : Recorder) : r.Level (r.emit e) := by
  refine ⟨rfl, rfl, rfl, rfl, rfl, rfl, ?_, ?_⟩
  · rw [batchedSpans_emit, hb, Option.toList_none, List.append_nil]
  · rw [detachedSpans_emit, hd, List.append_nil]

theorem level_announce (r : Recorder) (ready : Bool) (ref : SpanRef) :
    r.Level (r.announce ready ref) := by
  unfold announce
  split
  · exact level_emit rfl rfl r
  · exact ⟨rfl, rfl, rfl, rfl, rfl, rfl, rfl, rfl⟩

theorem level_cancelTimers (r : Recorder) (timers : List Timer) :
    r.Level (r.cancelTimers timers) := by
  unfold cancelTimers
  split <;> exact ⟨rfl, rfl, rfl, rfl, rfl, rfl, rfl, rfl⟩

theorem level_put (r : Recorder) (ref : SpanRef) (s : Span) : r.Level (r.put ref s) :=
  ⟨rfl, rfl, rfl, rfl, rfl, rfl, rfl, rfl⟩

theorem level_modify (r : Recorder) (ref : SpanRef) (f : Span → Span) :
    r.Level (r.modify ref f) := by
  unfold modify
  split <;> exact ⟨rfl, rfl, rfl, rfl, rfl, rfl, rfl, rfl⟩

theorem Level.trans {r t u : Recorder} (h : r.Level t) (g : t.Level u) : r.Level u :=
  ⟨g.links.trans h.links, g.backlog.trans h.backlog, g.ended.trans h.ended,
    g.sampledOut.trans h.sampledOut, g.rejected.trans h.rejected, g.batched.trans h.batched,
    g.batchedSpans.trans h.batchedSpans, g.detachedSpans.trans h.detachedSpans⟩

theorem Alike.level {r t : Recorder} (h : r.Alike t) : r.Level t := by
  refine ⟨h.links, h.backlog, h.ended, h.sampledOut, h.rejected, h.batched, ?_, ?_⟩
  · unfold Recorder.batchedSpans
    rw [h.log]
  · unfold Recorder.detachedSpans
    rw [h.log]

end Recorder

/-! ## Steps keep the balance -/

theorem Step.hasProcessed {free : Bool} {a b : Scene} (h : Step free a b) {ref : SpanRef}
    (hp : a.recorder.HasProcessed ref) : b.recorder.HasProcessed ref := by
  obtain ⟨s, hs, hst⟩ := hp
  obtain ⟨t, ht, hturn⟩ := h.span? hs
  exact ⟨t, ht, (hturn.state_of_isFinal (by rw [hst]; rfl)).trans hst⟩

variable {r t : Recorder} {U : List SpanRef} {ref : SpanRef}

namespace Recorder

theorem ProcessedAtLeast.mono {n : Nat} (h : r.ProcessedAtLeast n)
    (hp : ∀ ref, r.HasProcessed ref → t.HasProcessed ref) : t.ProcessedAtLeast n := by
  obtain ⟨spans, hnodup, hlength, hall⟩ := h
  exact ⟨spans, hnodup, hlength, fun ref hm => hp ref (hall ref hm)⟩

theorem ProcessedAtLeast.succ {n : Nat} (h : r.ProcessedAtLeast n) (hr : ¬ r.HasProcessed ref)
    (hp : ∀ ref, r.HasProcessed ref → t.HasProcessed ref) (ht : t.HasProcessed ref) :
    t.ProcessedAtLeast (n + 1) := by
  obtain ⟨spans, hnodup, rfl, hall⟩ := h
  exact ⟨ref :: spans, List.nodup_cons.mpr ⟨fun hm => hr (hall ref hm), hnodup⟩, rfl,
    List.forall_mem_cons.mpr ⟨ht, fun other hm => hp other (hall other hm)⟩⟩

theorem ProcessedAtLeast.le_size {n : Nat} (h : r.ProcessedAtLeast n) : n ≤ r.spans.size := by
  obtain ⟨spans, hnodup, rfl, hall⟩ := h
  have hrange : spans ⊆ List.range r.spans.size := by
    intro ref hm
    obtain ⟨s, hs, -⟩ := hall ref hm
    exact List.mem_range.mpr (Array.getElem?_eq_some_iff.mp hs).1
  simpa using (List.Nodup.subperm hnodup hrange).length_le

end Recorder

theorem Balanced.level (h : Balanced ⟨r, U⟩) (hl : r.Level t)
    (hp : ∀ ref, r.HasProcessed ref → t.HasProcessed ref) : Balanced ⟨t, U⟩ := by
  obtain ⟨count, nodup, claimed, ⟨spans, hq, horder⟩, length, ended⟩ := h
  dsimp only at count nodup claimed hq horder length ended
  refine ⟨?_, ?_, ?_, ⟨spans, ?_, ?_⟩, ?_, ?_⟩ <;> dsimp only
  · rw [hl.ended, hl.sampledOut, hl.rejected, hl.batched]
    exact count
  · rw [hl.batchedSpans]
    exact nodup
  · rw [hl.batchedSpans]
    exact fun ref hm => hp ref (claimed ref hm)
  · unfold Queues
    rw [hl.backlog, hl.links]
    exact hq
  · rw [hl.detachedSpans, hl.batchedSpans]
    exact horder
  · rw [hl.batched, hl.batchedSpans]
    exact length
  · rw [hl.ended]
    exact ended.mono hp

/-- A span that is claimed was neither batched nor under way. -/
theorem Balanced.receive {s u : Span} (h : Balanced ⟨r, U⟩) (hs : r.span? ref = some s)
    (hu : s.process? = some u)
    (hp : ∀ other, r.HasProcessed other → (r.put ref u).countEnded.HasProcessed other) :
    Balanced ⟨(r.put ref u).countEnded, ref :: U⟩ := by
  obtain ⟨count, nodup, claimed, queued, length, ended⟩ := h
  obtain ⟨hfinal, hstate⟩ := Span.process?_eq_some hu
  have hbefore : ¬ r.HasProcessed ref := by
    rintro ⟨v, hv, hvp⟩
    rw [Option.some.inj (hs.symm.trans hv), hvp] at hfinal
    contradiction
  have hnew : ref ∉ U ++ r.batchedSpans := fun hm => hbefore (claimed ref hm)
  have hafter : (r.put ref u).countEnded.HasProcessed ref :=
    ⟨u, span?_put_self hs u, by rw [hstate]⟩
  refine ⟨?_, List.nodup_cons.mpr ⟨hnew, nodup⟩, fun other hm => ?_, queued, length,
    ended.succ hbefore hp hafter⟩
  · change r.batcher.ended + 1 = r.batcher.sampledOut + r.batcher.rejected + r.batcher.batched +
      (U.length + 1)
    dsimp only at count
    omega
  · rcases List.mem_cons.mp hm with rfl | hm
    · exact hafter
    · exact hp other (claimed other hm)

/-- A claimed span that does not go into the backlog is counted as sampled out or as rejected. -/
theorem Balanced.settle {sampledOut rejected : Nat} (h : Balanced ⟨r, ref :: U⟩)
    (hsum : sampledOut + rejected = r.batcher.sampledOut + r.batcher.rejected + 1) :
    Balanced ⟨{ r with batcher := { r.batcher with sampledOut, rejected } }, U⟩ := by
  obtain ⟨count, nodup, claimed, queued, length, ended⟩ := h
  refine ⟨?_, (List.nodup_cons.mp nodup).2, fun other hm => claimed other (.tail ref hm), queued,
    length, ended⟩
  simp only [List.length_cons] at count ⊢
  omega

theorem Balanced.enqueue (h : Balanced ⟨r, ref :: U⟩) : Balanced ⟨r.intoBacklog ref, U⟩ := by
  obtain ⟨count, nodup, claimed, ⟨spans, ⟨hchain, hcounter⟩, horder⟩, length, ended⟩ := h
  dsimp only at count nodup claimed hchain hcounter horder length
  have hbatched : (r.intoBacklog ref).batchedSpans = r.batchedSpans ++ [ref] :=
    batchedSpans_emit _ _
  have hdetached : (r.intoBacklog ref).detachedSpans = r.detachedSpans :=
    (detachedSpans_emit _ _).trans (List.append_nil _)
  have hperm : (U ++ (r.batchedSpans ++ [ref])).Perm (ref :: (U ++ r.batchedSpans)) := by
    rw [← List.append_assoc]
    exact List.perm_append_singleton _ _
  have hnew : ref ∉ spans.reverse := by
    intro hm
    refine (List.nodup_cons.mp nodup).1 (List.mem_append_right U ?_)
    rw [← horder]
    exact List.mem_append_right _ (List.mem_reverse.mp hm)
  refine ⟨?_, ?_, fun other hm => ?_, ⟨spans ++ [ref], ⟨?_, ?_⟩, ?_⟩, ?_, ended⟩ <;> dsimp only
  · change r.batcher.ended = r.batcher.sampledOut + r.batcher.rejected + (r.batcher.batched + 1) +
      U.length
    simp only [List.length_cons] at count
    omega
  · rw [hbatched]
    exact hperm.nodup_iff.mpr nodup
  · dsimp only at hm
    rw [hbatched] at hm
    exact claimed other (hperm.mem_iff.mp hm)
  · rw [List.reverse_append]
    exact hchain.add hnew
  · rw [List.length_append]
    exact congrArg (· + 1) hcounter
  · rw [hdetached, hbatched, ← horder, List.append_assoc]
  · rw [hbatched, List.length_append]
    exact congrArg (· + 1) length

theorem hasProcessed_modify_freeze (ref other : SpanRef) (h : r.HasProcessed other) :
    (r.modify ref Span.freeze).HasProcessed other := by
  obtain ⟨s, hs, hst⟩ := h
  obtain ⟨t, ht, hc⟩ := span?_modify_freeze hs ref
  exact ⟨t, ht, (hc.state_of_isFinal (by rw [hst]; rfl)).trans hst⟩

theorem Balanced.deed {free : Bool} {a b : Scene} (hd : Deed free a b) (h : Balanced a) :
    Balanced b := by
  have hp : ∀ ref, a.recorder.HasProcessed ref → b.recorder.HasProcessed ref :=
    fun _ => (Step.deed hd).hasProcessed
  cases hd with
  | aside ha => exact h.level ha.level hp
  | @note r U e hn =>
    refine h.level (level_emit ?_ ?_ r) hp <;> cases e <;> first | contradiction | rfl
  | @finish r U ref s hs ho time =>
    have hemit := level_emit (e := .ended ref time) rfl rfl (r.put ref (s.closed time))
    exact h.level (((level_put r ref _).trans hemit).trans (level_announce _ _ _)) hp
  | receive hs hu hf => exact h.receive hs hu hp
  | @sampleOut r U ref =>
    have hcount : Balanced ⟨r.countSampledOut, U⟩ := h.settle (by omega)
    exact hcount.level (level_modify _ ref _) (hasProcessed_modify_freeze ref)
  | @reject r U ref =>
    have hcount : Balanced ⟨r.countRejected, U⟩ := h.settle (by omega)
    exact hcount.level (level_modify _ ref _) (hasProcessed_modify_freeze ref)
  | @enqueue r U ref =>
    exact (h.level (level_modify _ ref _) (hasProcessed_modify_freeze ref)).enqueue
  | _ => exact h.level ⟨rfl, rfl, rfl, rfl, rfl, rfl, rfl, rfl⟩ hp

/-- What waited is detached as it is, and nothing waits any more. -/
theorem Balanced.emptied (h : Balanced ⟨r, U⟩)
    (hp : ∀ ref, r.HasProcessed ref → r.emptied.HasProcessed ref) : Balanced ⟨r.emptied, U⟩ := by
  obtain ⟨count, nodup, claimed, ⟨spans, ⟨hchain, hcounter⟩, horder⟩, length, ended⟩ := h
  dsimp only at count nodup claimed hchain hcounter horder length ended
  have htaken : (r.batcher.backlog.takeBatch r.links).1 = spans := by
    rw [hchain.takeBatch_eq, List.reverse_reverse]
  obtain ⟨handles, heq⟩ := exists_emptied_eq r
  have hbatched : r.emptied.batchedSpans = r.batchedSpans := by
    rw [heq]
    exact (batchedSpans_emit r _).trans (List.append_nil _)
  have hdetached : r.emptied.detachedSpans = r.detachedSpans ++ spans := by
    rw [heq, ← htaken]
    exact detachedSpans_emit r _
  refine ⟨?_, ?_, fun other hm => ?_, ⟨[], ⟨?_, ?_⟩, ?_⟩, ?_, ?_⟩ <;> dsimp only
  · rw [heq]
    exact count
  · rw [hbatched]
    exact nodup
  · dsimp only at hm
    rw [hbatched] at hm
    exact hp other (claimed other hm)
  · rw [heq]
    exact Backlog.holds_takeBatch _ _
  · rw [heq]
    change r.batcher.backlog.counter - (r.batcher.backlog.takeBatch r.links).1.length = _
    rw [htaken, hcounter]
    simp
  · rw [hbatched, hdetached, List.append_nil, horder]
  · rw [heq] at hbatched ⊢
    rw [hbatched]
    exact length
  · have hended : r.emptied.batcher.ended = r.batcher.ended := by rw [heq]
    rw [hended]
    exact ended.mono hp

theorem Balanced.step {free : Bool} {a b : Scene} (hs : Step free a b) (h : Balanced a) :
    Balanced b := by
  have hp : ∀ ref, a.recorder.HasProcessed ref → b.recorder.HasProcessed ref :=
    fun _ => hs.hasProcessed
  cases hs with
  | deed hd => exact h.deed hd
  | @discard r U ref s t timers hs hd =>
    exact h.level ((level_put r ref t.freeze).trans (level_cancelTimers _ _)) hp
  | @release r U id hold s time freed q hh hs hr hq ht =>
    have hput : r.Level ({ r with deadlines := q }.put hold.span freed.span) :=
      ⟨rfl, rfl, rfl, rfl, rfl, rfl, rfl, rfl⟩
    have hemit := hput.trans (level_emit (e := .released id time) rfl rfl _)
    exact h.level ((hemit.trans (level_cancelTimers _ _)).trans (level_announce _ _ _)) hp
  | present hf ref => exact h.level (level_emit rfl rfl _) hp
  | detach => exact h.emptied hp
  | _ => exact h.level ⟨rfl, rfl, rfl, rfl, rfl, rfl, rfl, rfl⟩ hp

theorem Balanced.steps {free : Bool} {a b : Scene} (hs : Steps free a b) (h : Balanced a) :
    Balanced b := by
  induction hs with
  | refl => exact h
  | tail _ hone ih => exact ih.step hone

theorem balanced_start (clock : Clock) (limits : AttributeLimits) (timed : Bool) (sink : Sink)
    (sampler : Sampler) (trigger : Nat) (timeout : Nanos) :
    Balanced ⟨start clock limits timed sink sampler trigger timeout, []⟩ :=
  ⟨rfl, .nil, by simp [start, batchedSpans], ⟨[], ⟨⟨.nil, .nil⟩, rfl⟩, rfl⟩, rfl,
    ⟨[], .nil, rfl, by simp⟩⟩

/-! ## Batches -/

namespace Recorder

/-- Whether a span is kept depends on the sampler, the time and the trace of the span. -/
theorem fst_sample_congr {r t : Recorder} (hs : t.sampler = r.sampler) (hc : t.clock = r.clock)
    {ref : SpanRef}
    (hv : (t.span? ref).map Span.samplingValue = (r.span? ref).map Span.samplingValue) :
    (t.sample ref).1 = (r.sample ref).1 := by
  unfold sample
  rw [hs, hc]
  split
  · rfl
  · dsimp only
    cases hr : r.span? ref with
    | none =>
      rw [hr, Option.map_none, Option.map_eq_none_iff] at hv
      simp only [hv]
    | some s =>
      rw [hr, Option.map_some] at hv
      obtain ⟨u, hu, heq⟩ := Option.map_eq_some_iff.mp hv
      simp only [hu, heq]

/-- Sampling a span changes nothing but that span, and not the trace it belongs to. -/
theorem sample_frame (r : Recorder) (ref : SpanRef) :
    r.Level (r.sample ref).2 ∧ (r.sample ref).2.sampler = r.sampler ∧
      (r.sample ref).2.clock = r.clock ∧
      ∀ other, ((r.sample ref).2.span? other).map Span.samplingValue =
        (r.span? other).map Span.samplingValue := by
  have hsame : r.Level r := ⟨rfl, rfl, rfl, rfl, rfl, rfl, rfl, rfl⟩
  unfold sample
  split
  · exact ⟨hsame, rfl, rfl, fun _ => rfl⟩
  · dsimp only
    split
    · exact ⟨hsame, rfl, rfl, fun _ => rfl⟩
    next s hs =>
      refine ⟨level_put r ref _, rfl, rfl, fun other => ?_⟩
      rw [span?_put hs]
      by_cases h : ref = other
      · subst h
        rw [if_pos rfl, hs]
        rfl
      · rw [if_neg h]

theorem fst_sampleAll (batch : List SpanRef) (r : Recorder) :
    (sampleAll batch r).1 = batch.filter fun ref => (r.sample ref).1 := by
  induction batch generalizing r with
  | nil => rfl
  | cons ref batch ih =>
    obtain ⟨-, hs, hc, hv⟩ := sample_frame r ref
    have hrest : (sampleAll batch (r.sample ref).2).1 =
        batch.filter fun other => (r.sample other).1 := by
      rw [ih]
      exact List.filter_congr fun other _ => fst_sample_congr hs hc (hv other)
    rw [List.filter_cons, ← hrest]
    rfl

theorem level_sampleAll (batch : List SpanRef) (r : Recorder) :
    r.Level (sampleAll batch r).2 := by
  induction batch generalizing r with
  | nil => exact ⟨rfl, rfl, rfl, rfl, rfl, rfl, rfl, rfl⟩
  | cons ref batch ih => exact (sample_frame r ref).1.trans (ih _)

theorem Level.waiting {r t : Recorder} (h : r.Level t) : t.waiting = r.waiting := by
  unfold Recorder.waiting
  rw [h.backlog, h.links]

theorem emptied_frame (r : Recorder) :
    r.emptied.detachedSpans = r.detachedSpans ++ r.waiting ∧ r.emptied.waiting = [] ∧
      ∀ ref, (r.emptied.sample ref).1 = (r.sample ref).1 := by
  obtain ⟨handles, heq⟩ := exists_emptied_eq r
  rw [heq]
  refine ⟨detachedSpans_emit r _, rfl, fun ref => ?_⟩
  refine fst_sample_congr ?_ ?_ ?_ <;> rfl

/-- A call that answers a batch detaches all that waits and answers what the sampler keeps of it. A
call that answers none takes back the demand for a batch, and changes nothing else. -/
theorem collectNextBatch_spec (r : Recorder) :
    match r.collectNextBatch with
    | (some kept, t) => kept = r.waiting.filter (fun ref => (r.sample ref).1) ∧
        t.detachedSpans = r.detachedSpans ++ r.waiting ∧ t.waiting = []
    | (none, t) => t = { r with batcher := { r.batcher with forced := false } } := by
  let asked : Recorder := { r with batcher := { r.batcher with forced := false } }
  have hframe := emptied_frame asked
  have hlevel := level_sampleAll r.waiting asked.emptied
  unfold collectNextBatch askForBatch
  dsimp only
  by_cases hdue : batchIsDue r.batcher r.clock.ticks = true
  · rw [if_pos hdue]
    change (sampleAll r.waiting asked.emptied).1 = _ ∧
      (sampleAll r.waiting asked.emptied).2.detachedSpans = _ ∧
      (sampleAll r.waiting asked.emptied).2.waiting = []
    refine ⟨?_, hlevel.detachedSpans.trans hframe.1, hlevel.waiting.trans hframe.2.1⟩
    rw [fst_sampleAll]
    refine List.filter_congr fun ref _ => (hframe.2.2 ref).trans ?_
    exact fst_sample_congr (r := r) (t := asked) rfl rfl rfl
  · rw [if_neg hdue]

/-- No counter exceeds the number of spans recorded, and the backlog never counts below zero. A cell
that has room for this number never wraps. -/
theorem counters_le_size (clock : Clock) (limits : AttributeLimits) (timed : Bool) (sink : Sink)
    (sampler : Sampler) (trigger : Nat) (timeout : Nanos) (moves : List Move) :
    let r := (start clock limits timed sink sampler trigger timeout).play moves
    r.batcher.ended ≤ r.spans.size ∧
      r.batcher.sampledOut + r.batcher.rejected + r.batcher.batched ≤ r.spans.size ∧
      0 ≤ r.batcher.backlog.counter ∧ r.batcher.backlog.counter ≤ r.spans.size := by
  intro r
  have hrun : Steps true ⟨start clock limits timed sink sampler trigger timeout, []⟩ ⟨r, []⟩ :=
    steps_play (.inl rfl)
  obtain ⟨count, nodup, claimed, ⟨spans, ⟨-, hcounter⟩, horder⟩, -, ended⟩ :=
    (balanced_start clock limits timed sink sampler trigger timeout).steps hrun
  have hwaiting : r.ProcessedAtLeast spans.length := by
    rw [List.nil_append, ← horder] at nodup claimed
    exact ⟨spans, (List.nodup_append.mp nodup).2.1, rfl,
      fun ref hm => claimed ref (List.mem_append_right _ hm)⟩
  refine ⟨ended.le_size, Nat.le_trans (Nat.le_of_eq count.symm) ended.le_size, ?_, ?_⟩
  · rw [hcounter]
    exact Int.natCast_nonneg _
  · rw [hcounter]
    exact Int.ofNat_le.mpr hwaiting.le_size

/-- After any run the spans whose end was taken over are those sampled out, rejected and batched.
The spans that were detached and those that wait are the batched ones, each once and in their order.
The next call for a batch detaches those that wait and answers, in order, those that are kept; where
it answers none, nothing is changed but that a batch is no longer demanded. -/
theorem batches_play (clock : Clock) (limits : AttributeLimits) (timed : Bool) (sink : Sink)
    (sampler : Sampler) (trigger : Nat) (timeout : Nanos) (moves : List Move) :
    let r := (start clock limits timed sink sampler trigger timeout).play moves
    r.batcher.ended = r.batcher.sampledOut + r.batcher.rejected + r.batcher.batched ∧
      (r.detachedSpans ++ r.waiting = r.batchedSpans ∧ r.batchedSpans.Nodup ∧
        r.batchedSpans.length = r.batcher.batched ∧
        r.batcher.backlog.size = r.waiting.length) ∧
      match r.collectNextBatch with
      | (some kept, t) => kept = r.waiting.filter (fun ref => (r.sample ref).1) ∧
          t.detachedSpans = r.detachedSpans ++ r.waiting ∧ t.waiting = []
      | (none, t) => t = { r with batcher := { r.batcher with forced := false } } := by
  intro r
  have hrun : Steps true ⟨start clock limits timed sink sampler trigger timeout, []⟩ ⟨r, []⟩ :=
    steps_play (.inl rfl)
  obtain ⟨count, nodup, claimed, ⟨spans, ⟨hchain, hcounter⟩, horder⟩, length, -⟩ :=
    (balanced_start clock limits timed sink sampler trigger timeout).steps hrun
  have hwaiting : r.waiting = spans := by
    rw [waiting, hchain.takeBatch_eq, List.reverse_reverse]
  refine ⟨count, ⟨?_, nodup, length.symm, ?_⟩, collectNextBatch_spec r⟩
  · rw [hwaiting]
    exact horder
  · rw [hwaiting, Backlog.size, hcounter, Int.toNat_natCast]

end Recorder
end SpanRelay
