import Mathlib.Data.List.TakeWhile
import SpanRelay.ContextStack

/-!
What is live on a stack. Pruning, and taking off a span that is no longer live, change nothing of
it, so that a look at the stack is a search through the live entries.
-/
namespace SpanRelay.ContextStack

variable {isLive : SpanRef → Bool}

/-- The live entries, newest first. -/
def live (s : ContextStack) (isLive : SpanRef → Bool) : List SpanRef := s.entries.filter isLive

theorem live_prune (isLive : SpanRef → Bool) (s : ContextStack) :
    (s.prune isLive).live isLive = s.live isLive := by
  obtain ⟨entries⟩ := s
  show (entries.dropWhile fun e => !isLive e).filter isLive = entries.filter isLive
  induction entries with
  | nil => rfl
  | cons e rest ih =>
    cases he : isLive e with
    | true => simp [he]
    | false => simpa [he] using ih

theorem live_detach {span : SpanRef} (hdead : isLive span = false) (s : ContextStack) :
    (s.detach isLive span).live isLive = s.live isLive := by
  rw [← live_prune isLive s]
  unfold detach live
  cases (s.prune isLive).entries with
  | nil => rfl
  | cons top rest =>
    dsimp only
    split
    next h => simp [h, hdead]
    next => rfl

theorem entries_detach_subset (isLive : SpanRef → Bool) (s : ContextStack) (span : SpanRef) :
    (s.detach isLive span).entries ⊆ s.entries := by
  have hprune := (entries_prune_sublist isLive s).subset
  unfold detach
  cases hs : (s.prune isLive).entries with
  | nil => exact List.nil_subset _
  | cons top rest =>
    rw [hs] at hprune
    dsimp only
    split
    · exact fun e he => hprune (.tail top he)
    · exact hprune

theorem current?_eq (isLive : SpanRef → Bool) (s : ContextStack) :
    s.current? isLive = (s.live isLive).head? := by
  unfold current? prune live
  rw [← List.find?_eq_head?_dropWhile_not, List.head?_filter]

theorem find?_eq (isLive matching : SpanRef → Bool) (s : ContextStack) :
    s.find? isLive matching = (s.live isLive).find? matching := by
  rw [← live_prune]
  unfold find? live
  simp [List.find?_filter]

end SpanRelay.ContextStack
