import Mathlib.Data.List.Nodup
import SpanRelay.Hold

/-!
The queue of deadlines stays in the order in which they fire: a timer is put at its place, taken out
from anywhere, and fires from the front.
-/
namespace SpanRelay

namespace Timer

variable {a b c : Timer}

theorem before_iff :
    a.before b = true ↔ a.deadline < b.deadline ∨ a.deadline = b.deadline ∧ a.hold < b.hold := by
  simp [before]

theorem before_trans (h : a.before b = true) (g : b.before c = true) : a.before c = true := by
  rw [before_iff] at h g ⊢
  simp only [Nanos, HoldId] at h g ⊢
  omega

theorem ne_of_before (h : a.before b = true) : a ≠ b := by
  rintro rfl
  rw [before_iff] at h
  simp only [Nanos, HoldId] at h
  omega

theorem before_of_not (h : ¬ a.before b = true) (hn : a.hold ≠ b.hold) : b.before a = true := by
  rw [before_iff] at h ⊢
  simp only [Nanos, HoldId] at h hn ⊢
  omega

end Timer

namespace DeadlineQueue

/-- The timers stand in the order in which they fire. -/
def InOrder (timers : List Timer) : Prop := timers.Pairwise fun a b => a.before b = true

variable {q rest : DeadlineQueue} {t : Timer} {timers gone : List Timer}

theorem InOrder.nodup (h : InOrder timers) : timers.Nodup := h.imp Timer.ne_of_before

theorem InOrder.insertTimer (h : InOrder timers) (hn : ∀ s ∈ timers, t.hold ≠ s.hold) :
    InOrder (insertTimer t timers) := by
  induction timers with
  | nil => simp [DeadlineQueue.insertTimer, InOrder]
  | cons s rest ih =>
    obtain ⟨hs, hrest⟩ := List.pairwise_cons.mp h
    by_cases hb : t.before s = true
    · rw [DeadlineQueue.insertTimer, if_pos hb]
      apply List.pairwise_cons.mpr ⟨_, h⟩
      intro u hu
      rcases List.mem_cons.mp hu with rfl | hu
      · exact hb
      · exact Timer.before_trans hb (hs u hu)
    · rw [DeadlineQueue.insertTimer, if_neg hb]
      apply List.pairwise_cons.mpr ⟨_, ih hrest fun u hu => hn u (.tail s hu)⟩
      intro u hu
      rcases (mem_insertTimer t u rest).mp hu with rfl | hu
      · exact Timer.before_of_not hb (hn s (by simp))
      · exact hs u hu

theorem mem_of_schedule {s : Timer} (h : s ∈ (q.schedule t).timers) : s = t ∨ s ∈ q.timers := by
  unfold schedule at h
  split at h
  · exact (mem_insertTimer t s q.timers).mp h
  · exact .inr h

theorem popDue?_eq_some {now : Nanos} (h : q.popDue? now = some (t, rest)) :
    q.timers = t :: rest.timers ∧ t.deadline ≤ now ∧ rest = { q with timers := rest.timers } := by
  unfold popDue? at h
  split at h
  · contradiction
  next first others hq =>
    split at h
    · obtain ⟨rfl, rfl⟩ := Prod.mk.inj (Option.some.inj h)
      exact ⟨hq, by assumption, rfl⟩
    · contradiction

/-- Cancelling some timers leaves the others where they are. -/
theorem foldl_cancel (h : InOrder q.timers) (gone : List Timer) :
    gone.foldl cancel q = { q with timers := q.timers.filter fun s => s ∉ gone } := by
  have hdiff : ∀ q : DeadlineQueue, gone.foldl cancel q = { q with timers := q.timers.diff gone } := by
    induction gone with
    | nil => simp
    | cons t gone ih =>
      intro q
      rw [List.foldl_cons, ih, List.diff_cons]
      rfl
  rw [hdiff, h.nodup.sdiff_eq_filter]

/-- A timer that was taken out from the front is not found behind it. -/
theorem cancel_of_popDue? {now : Nanos} (h : InOrder q.timers)
    (hp : q.popDue? now = some (t, rest)) : rest.cancel t = q.cancel t := by
  obtain ⟨hq, -, heq⟩ := popDue?_eq_some hp
  have hnot : t ∉ rest.timers := by
    have hnodup := h.nodup
    rw [hq] at hnodup
    exact (List.nodup_cons.mp hnodup).1
  unfold cancel
  rw [heq, hq, List.erase_of_not_mem hnot, List.erase_cons_head]

end DeadlineQueue
end SpanRelay
