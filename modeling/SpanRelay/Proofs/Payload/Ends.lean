import SpanRelay.Proofs.Payload.Lossless
import SpanRelay.Proofs.Recorder.EndTimes

/-!
The end of a span in the bodies that tell of it. Once an end was won the span has an end time, and
that is what is written, whatever happens later. The one exception is an end at the last tick of
all, which cannot be told from none: such a span is written as if it had ended at its start.
-/
namespace SpanRelay

/-- The ends that are read from the body of a batch, in the order of its spans. -/
def Wire.finishes? (raw : Bytes) : Option (List Nat) := do
  let document ← Json.parse? raw
  let account ← account? document
  return account.reports.map Report.finish

/-- Wherever the span stands in a batch, its end is read from the body as the wall time of this
tick. -/
def Span.IsWrittenEnd (s : Span) (t : Ticks) : Prop :=
  ∀ (c : Clock) (spans : List Span) (resource : Attributes) (i : Nat), spans[i]? = some s →
    (Wire.finishes? (Encoder.rawBody c spans resource)).bind (·[i]?) =
      some (c.toUnixNanos t).toNat

theorem Wire.finishes?_rawBody (c : Clock) (spans : List Span) (resource : Attributes) :
    finishes? (Encoder.rawBody c spans resource) =
      some (spans.map fun s => (c.toUnixNanos (endOf s)).toNat) := by
  rw [finishes?, Encoder.parse?_rawBody, Option.bind_eq_bind, Option.bind_some, account?_document,
    Option.bind_eq_bind, Option.bind_some]
  simp [Account.of, Report.of, endOf, Clock.toNat_toUnixNanos]

/-- The end time is written, or the start if there is none. -/
theorem Span.isWrittenEnd_endOf (s : Span) : s.IsWrittenEnd (Wire.endOf s) := by
  intro c spans resource i hi
  rw [Wire.finishes?_rawBody, Option.bind_some, List.getElem?_map, hi, Option.map_some]

namespace Recorder

variable {r : Recorder} {ref : SpanRef} {t : Ticks}

/-- The end that a call has won is the mark of the span from then on. -/
theorem Marked.endMark_of_tryEnd (h : r.Marked) {thread : Nat}
    (hwon : (r.tryEnd thread ref t).1 = true) (after : List Move) :
    ∃ s, ((r.tryEnd thread ref t).2.play after).span? ref = some s ∧ s.endMark = t ∧
      s.state.isOpen = false := by
  have hopen : ∃ s, r.span? ref = some s ∧ s.state.isOpen = true := by
    by_contra hnot
    rw [Recorder.tryEnd, endWith_of_not_isOpen hnot] at hwon
    contradiction
  obtain ⟨s, hs, ho⟩ := hopen
  have hends := (h.tryEnd hs thread t).2
  rw [if_pos ho] at hends
  have hdeeds : Deeds true ⟨r, []⟩ ⟨(r.tryEnd thread ref t).2, []⟩ := deeds_tryEnd r thread ref t
  have hmarked : (r.tryEnd thread ref t).2.Marked := h.steps (Deeds.steps hdeeds)
  obtain ⟨v, hv, hmark⟩ := hmarked.exists_endMark hends
  have hclosed : v.state.isOpen = false := by
    rw [Bool.eq_false_iff]
    intro hopen
    have hnone := (hmarked.spans ref v hv).ofOpen hopen
    rw [hends] at hnone
    contradiction
  have hrun : Steps true ⟨(r.tryEnd thread ref t).2, []⟩ ⟨(r.tryEnd thread ref t).2.play after, []⟩ :=
    steps_play (.inl rfl)
  obtain ⟨w, hw, hsame, hstill⟩ := hrun.endMark_eq hv hclosed
  exact ⟨w, hw, hsame.trans hmark, hstill⟩

/-- A span that an end was won of has an end time, which is no earlier than that end and is what is
written, after any run. If it is the last tick that the end was won at, there is no end time, and
the start is written. -/
theorem end_of_tryEnd (clock : Clock) (limits : AttributeLimits) (timed : Bool) (sink : Sink)
    (sampler : Sampler) (trigger : Nat) (timeout : Nanos) (before after : List Move) {thread : Nat}
    {ref : SpanRef} {t : Ticks} {r : Recorder}
    (hr : r = (start clock limits timed sink sampler trigger timeout).play before)
    (hwon : (r.tryEnd thread ref t).1 = true) :
    ∃ s, ((r.tryEnd thread ref t).2.play after).span? ref = some s ∧
      (t ≠ Span.noEnd → ∃ e, s.endTime? = some e ∧ t ≤ e ∧ s.IsWrittenEnd e) ∧
      (t = Span.noEnd → s.endTime? = none ∧ s.IsWrittenEnd s.start) := by
  have hrun : Steps true ⟨start clock limits timed sink sampler trigger timeout, []⟩ ⟨r, []⟩ :=
    hr ▸ steps_play (.inl rfl)
  have hmarked : r.Marked := (marked_start clock limits timed sink sampler trigger timeout).steps hrun
  obtain ⟨s, hs, hmark, -⟩ := hmarked.endMark_of_tryEnd hwon after
  have hwritten := s.isWrittenEnd_endOf
  refine ⟨s, hs, fun hne => ⟨max t s.extension, ?_, ?_, ?_⟩, fun heq => ⟨?_, ?_⟩⟩
  · rw [Span.endTime?, hmark, if_neg hne]
  · rw [UInt64.le_iff_toNat_le, Ticks.toNat_max]
    exact Nat.le_max_left _ _
  · rwa [Wire.endOf, Span.endTime?, hmark, if_neg hne, Option.getD_some] at hwritten
  · rw [Span.endTime?, hmark, if_pos heq]
  · rwa [Wire.endOf, Span.endTime?, hmark, if_pos heq, Option.getD_none] at hwritten

/-- The end at 7 was extended by the release of an upgraded hold at 9. -/
theorem end_of_tryEnd_extended :
    let r := (start default .standard true .batch .discarding 100 0).play
      [.create 0 (.ofNumbers 1 1) (.named ""), .hold 0 50, .upgrade 0]
    ∃ s, ((r.tryEnd 0 0 7).2.play [.closeHold 0 0 9]).span? 0 = some s ∧
      s.endTime? = some 9 ∧ s.IsWrittenEnd 9 := by
  intro r
  have hwon : (r.tryEnd 0 0 7).1 = true := by decide +kernel
  obtain ⟨s, hs, hend, -⟩ :=
    end_of_tryEnd default .standard true .batch .discarding 100 0 _ [.closeHold 0 0 9] rfl hwon
  obtain ⟨e, he, -, hwritten⟩ := hend (by decide)
  have htime : (((r.tryEnd 0 0 7).2.play [.closeHold 0 0 9]).span? 0).bind Span.endTime? = some 9 := by
    decide +kernel
  rw [hs, Option.bind_some, he, Option.some_inj] at htime
  exact ⟨s, hs, htime ▸ he, htime ▸ hwritten⟩

/-- An end at the last tick is won, but leaves the span without an end time, and its start at 1 is
written. -/
theorem no_end_of_tryEnd_last :
    let r := (start default .standard true .batch .discarding 100 0).play
      [.create 0 (.ofNumbers 1 1) { SpanRequest.named "" with start := some 1 }]
    (r.tryEnd 0 0 18446744073709551615).1 = true ∧
      ((r.tryEnd 0 0 18446744073709551615).2.span? 0).map
        (fun s => (s.isEnded, s.endTime?, Wire.endOf s)) = some (true, none, 1) := by
  decide +kernel

end Recorder
end SpanRelay
