import SpanRelay.Proofs.ContextStack
import SpanRelay.Proofs.Recorder.Strides

/-!
Which spans live, and which changes bring none of them back to life and take no live entry off a
stack. Creating a span is no such change, nor is taking hold of one that nobody holds on to.
-/
namespace SpanRelay

open Recorder

namespace Recorder

variable {r t : Recorder} {ref other : SpanRef} {s v : Span}

/-! ## What lives -/

theorem isLive_eq (r : Recorder) :
    r.isLive = fun ref => r.isAlive ref && (r.span? ref).any (·.state.isOpen) := by
  funext ref
  unfold isLive
  cases r.span? ref with
  | none => rfl
  | some s => simp [Span.isEnded]

theorem isLive_iff :
    r.isLive ref = true ↔
      r.isAlive ref = true ∧ ∃ s, r.span? ref = some s ∧ s.state.isOpen = true := by
  rw [isLive_eq, Bool.and_eq_true, Option.any_eq_true]

theorem isLive_of_not_isOpen (hs : r.span? ref = some s) (ho : s.state.isOpen = false) :
    r.isLive ref = false := by
  rw [Bool.eq_false_iff, ne_eq, isLive_iff]
  rintro ⟨-, u, hu, hopen⟩
  obtain rfl := Option.some.inj (hs.symm.trans hu)
  rw [ho] at hopen
  contradiction

theorem isAlive_iff :
    r.isAlive ref = true ↔ ref ∈ r.handles ∨ (∃ e ∈ r.tokens.entries, e.2.span = ref) ∨
      (∃ id ∈ r.heldHolds, r.holdConcerns ref id = true) ∨
        ∃ timer ∈ r.deadlines.timers, r.holdConcerns ref timer.hold = true := by
  simp only [isAlive, Bool.or_eq_true, List.contains_iff_mem, List.any_eq_true, beq_iff_eq, or_assoc]

theorem isAlive_mono (handles : t.handles ⊆ r.handles) (tokens : t.tokens = r.tokens)
    (heldHolds : t.heldHolds ⊆ r.heldHolds)
    (holds : ∀ id, t.holdConcerns ref id = r.holdConcerns ref id)
    (timers : t.deadlines.timers ⊆ r.deadlines.timers) (h : t.isAlive ref = true) :
    r.isAlive ref = true := by
  rw [isAlive_iff] at h ⊢
  simp only [holds, tokens] at h
  rcases h with h | h | ⟨id, hid, hc⟩ | ⟨timer, hm, hc⟩
  · exact .inl (handles h)
  · exact .inr (.inl h)
  · exact .inr (.inr (.inl ⟨id, heldHolds hid, hc⟩))
  · exact .inr (.inr (.inr ⟨timer, timers hm, hc⟩))

/-- Who takes hold of one span keeps no other alive. -/
theorem isAlive_of_handle (h : t.isAlive other = true) (hne : other ≠ ref)
    (handles : t.handles = ref :: r.handles) (tokens : t.tokens = r.tokens)
    (heldHolds : t.heldHolds = r.heldHolds) (holds : t.holds = r.holds)
    (deadlines : t.deadlines = r.deadlines) : r.isAlive other = true := by
  have hconcerns : t.holdConcerns other = r.holdConcerns other := by
    funext id
    unfold holdConcerns
    rw [holds]
  rw [isAlive_iff, handles, tokens, heldHolds, deadlines, hconcerns] at h
  rw [isAlive_iff]
  rcases h with hm | hrest
  · exact .inl (List.mem_of_ne_of_mem hne hm)
  · exact .inr hrest

/-- A new hold concerns no other span. -/
theorem holdConcerns_of_push {x : Hold} {id : HoldId} (hne : x.span ≠ other)
    (ht : t.holds = r.holds.push x) (h : t.holdConcerns other id = true) :
    r.holdConcerns other id = true ∧ id ≠ r.holds.size := by
  unfold holdConcerns at h ⊢
  rw [ht, Array.getElem?_push] at h
  by_cases hid : id = r.holds.size
  · simp [hid, hne] at h
  · rw [if_neg hid] at h
    exact ⟨h, hid⟩

/-- Nor does a new hold. -/
theorem isAlive_of_hold {x : Hold} {timer : Timer} (h : t.isAlive other = true)
    (holds : t.holds = r.holds.push x) (deadlines : t.deadlines = r.deadlines.schedule timer)
    (hne : x.span ≠ other) (hid : timer.hold = r.holds.size) (handles : t.handles = r.handles)
    (tokens : t.tokens = r.tokens) (heldHolds : t.heldHolds = r.holds.size :: r.heldHolds) :
    r.isAlive other = true := by
  rw [isAlive_iff, handles, tokens, heldHolds, deadlines] at h
  rw [isAlive_iff]
  rcases h with hm | hm | ⟨id, hm, hc⟩ | ⟨a, hm, hc⟩
  · exact .inl hm
  · exact .inr (.inl hm)
  · obtain ⟨hc, hold⟩ := holdConcerns_of_push hne holds hc
    exact .inr (.inr (.inl ⟨id, List.mem_of_ne_of_mem hold hm, hc⟩))
  · obtain ⟨hc, hold⟩ := holdConcerns_of_push hne holds hc
    rcases DeadlineQueue.mem_of_schedule hm with rfl | hm
    · contradiction
    · exact .inr (.inr (.inr ⟨a, hm, hc⟩))

/-! ## Changes that revive nothing and hide nothing -/

/-- No span comes back to life, and of the entries of the stacks only dead ones go. -/
structure Calm (r t : Recorder) : Prop where
  size : r.spans.size ≤ t.spans.size
  borrowed : t.borrowed = r.borrowed
  isLive : ∀ ref < r.spans.size, t.isLive ref = true → r.isLive ref = true
  subset : ∀ thread, (t.stackOf thread).entries ⊆ (r.stackOf thread).entries
  live : ∀ thread, (t.stackOf thread).live t.isLive = (r.stackOf thread).live t.isLive

/-- The stacks are left alone. -/
theorem calm_of_isLive (borrowed : t.borrowed = r.borrowed)
    (threadStacks : t.threadStacks = r.threadStacks) (size : r.spans.size ≤ t.spans.size)
    (isLive : ∀ ref < r.spans.size, t.isLive ref = true → r.isLive ref = true) : r.Calm t := by
  have hstack : ∀ thread, t.stackOf thread = r.stackOf thread := by
    intro thread
    unfold stackOf
    rw [threadStacks]
  constructor
  · exact size
  · exact borrowed
  · exact isLive
  · intro thread
    rw [hstack]
    exact List.Subset.refl _
  · intro thread
    rw [hstack]

/-- Nobody else holds on to a span, and no span is opened. -/
theorem calm_of_owners (borrowed : t.borrowed = r.borrowed)
    (threadStacks : t.threadStacks = r.threadStacks) (size : t.spans.size = r.spans.size)
    (spans : ∀ ref v, t.span? ref = some v → v.state.isOpen = true →
      ∃ s, r.span? ref = some s ∧ s.state.isOpen = true)
    (handles : t.handles ⊆ r.handles) (tokens : t.tokens = r.tokens)
    (heldHolds : t.heldHolds ⊆ r.heldHolds)
    (holds : ∀ ref id, t.holdConcerns ref id = r.holdConcerns ref id)
    (timers : t.deadlines.timers ⊆ r.deadlines.timers) : r.Calm t := by
  apply calm_of_isLive borrowed threadStacks (Nat.le_of_eq size.symm)
  intro ref _ hlive
  obtain ⟨halive, v, hv, ho⟩ := isLive_iff.mp hlive
  exact isLive_iff.mpr
    ⟨isAlive_mono handles tokens heldHolds (holds ref) timers halive, spans ref v hv ho⟩

theorem calm_of_fewer (borrowed : t.borrowed = r.borrowed)
    (threadStacks : t.threadStacks = r.threadStacks) (spans : t.spans = r.spans)
    (handles : t.handles ⊆ r.handles) (tokens : t.tokens = r.tokens)
    (heldHolds : t.heldHolds ⊆ r.heldHolds) (holds : t.holds = r.holds)
    (timers : t.deadlines.timers ⊆ r.deadlines.timers) : r.Calm t := by
  apply calm_of_owners borrowed threadStacks (by rw [spans]) _ handles tokens heldHolds _ timers
  · intro ref v hv ho
    unfold span? at hv ⊢
    rw [spans] at hv
    exact ⟨v, hv, ho⟩
  · intro ref id
    unfold holdConcerns
    rw [holds]

theorem calm_of_same (borrowed : t.borrowed = r.borrowed)
    (threadStacks : t.threadStacks = r.threadStacks) (spans : t.spans = r.spans)
    (handles : t.handles = r.handles) (tokens : t.tokens = r.tokens)
    (heldHolds : t.heldHolds = r.heldHolds) (holds : t.holds = r.holds)
    (deadlines : t.deadlines = r.deadlines) : r.Calm t := by
  apply calm_of_fewer borrowed threadStacks spans _ tokens _ holds
  · rw [deadlines]
    exact List.Subset.refl _
  · rw [handles]
    exact List.Subset.refl _
  · rw [heldHolds]
    exact List.Subset.refl _

theorem calm_refl (r : Recorder) : r.Calm r := calm_of_same rfl rfl rfl rfl rfl rfl rfl rfl

theorem calm_handles {handles : List SpanRef} (h : handles ⊆ r.handles) :
    r.Calm { r with handles } :=
  calm_of_fewer rfl rfl rfl h rfl (List.Subset.refl _) rfl (List.Subset.refl _)

theorem calm_heldHolds {heldHolds : List HoldId} (h : heldHolds ⊆ r.heldHolds) :
    r.Calm { r with heldHolds } :=
  calm_of_fewer rfl rfl rfl (List.Subset.refl _) rfl h rfl (List.Subset.refl _)

theorem calm_deadlines {deadlines : DeadlineQueue} (h : deadlines.timers ⊆ r.deadlines.timers) :
    r.Calm { r with deadlines } :=
  calm_of_fewer rfl rfl rfl (List.Subset.refl _) rfl (List.Subset.refl _) rfl h

theorem calm_put (hs : r.span? ref = some s)
    (ho : v.state.isOpen = true → s.state.isOpen = true) : r.Calm (r.put ref v) := by
  apply calm_of_owners (r := r) (t := r.put ref v) rfl rfl Array.size_setIfInBounds _
    (List.Subset.refl _) rfl (List.Subset.refl _) (fun _ _ => rfl) (List.Subset.refl _)
  intro other u hu hopen
  rw [span?_put hs] at hu
  by_cases h : ref = other
  · rw [if_pos h] at hu
    obtain rfl := Option.some.inj hu
    exact ⟨s, h ▸ hs, ho hopen⟩
  · rw [if_neg h] at hu
    exact ⟨u, hu, hopen⟩

theorem stackOf_onStack (r : Recorder) (thread : Nat) (f : ContextStack → ContextStack)
    (other : Nat) :
    (r.onStack thread f).stackOf other =
      if thread = other ∧ thread ∉ r.borrowed then f (r.stackOf thread) else r.stackOf other := by
  unfold onStack
  by_cases hb : thread ∈ r.borrowed
  · rw [if_pos (List.contains_iff_mem.mpr hb), if_neg fun h => h.2 hb]
  · rw [if_neg fun h => hb (List.contains_iff_mem.mp h)]
    unfold stackOf setStack
    rw [Dictionary.get?_insert]
    by_cases ht : thread = other
    · rw [if_pos ht, if_pos ⟨ht, hb⟩, Option.getD_some]
    · rw [if_neg ht, if_neg fun h => ht h.1]

theorem isLive_onStack (r : Recorder) (thread : Nat) (f : ContextStack → ContextStack) :
    (r.onStack thread f).isLive = r.isLive := by
  unfold onStack
  split <;> rfl

theorem borrowed_onStack (r : Recorder) (thread : Nat) (f : ContextStack → ContextStack) :
    (r.onStack thread f).borrowed = r.borrowed := by
  unfold onStack
  split <;> rfl

theorem calm_onStack (thread : Nat) {f : ContextStack → ContextStack}
    (hsub : ∀ s : ContextStack, (f s).entries ⊆ s.entries)
    (hlive : ∀ s : ContextStack, (f s).live r.isLive = s.live r.isLive) :
    r.Calm (r.onStack thread f) := by
  constructor
  · rw [(alike_onStack r thread f).spans]
  · exact borrowed_onStack r thread f
  · intro ref _ h
    rwa [isLive_onStack] at h
  · intro other
    rw [stackOf_onStack]
    split
    next h => exact h.1 ▸ hsub _
    next => exact List.Subset.refl _
  · intro other
    rw [isLive_onStack, stackOf_onStack]
    split
    next h => rw [hlive, h.1]
    next => rfl

theorem calm_prune (r : Recorder) (thread : Nat) :
    r.Calm (r.onStack thread (·.prune r.isLive)) :=
  calm_onStack thread (fun s => (ContextStack.entries_prune_sublist _ s).subset)
    (ContextStack.live_prune r.isLive)

theorem calm_detach (hs : r.span? ref = some s) (ho : s.state.isOpen = false) (thread : Nat) :
    r.Calm (r.detach thread ref) :=
  calm_onStack thread (fun s => ContextStack.entries_detach_subset _ s ref)
    (ContextStack.live_detach (isLive_of_not_isOpen hs ho))

/-- A span that is put into a backlog has ended, and is not brought back to life by that. -/
theorem calm_addTo (hs : r.span? ref = some s) (ho : s.state.isOpen = false) (b : Backlog) :
    r.Calm (r.addTo b ref).2 := by
  apply calm_of_isLive (r := r) (t := (r.addTo b ref).2) rfl rfl (Nat.le_refl _)
  intro other _ hlive
  obtain ⟨halive, v, hv, hopen⟩ := isLive_iff.mp hlive
  have hv : r.span? other = some v := hv
  have hne : other ≠ ref := by
    rintro rfl
    obtain rfl := Option.some.inj (hs.symm.trans hv)
    rw [ho] at hopen
    contradiction
  exact isLive_iff.mpr ⟨isAlive_of_handle halive hne rfl rfl rfl rfl rfl, v, hv, hopen⟩

theorem calm_cancelTimers (r : Recorder) (timers : List Timer) : r.Calm (r.cancelTimers timers) := by
  have hsub : ∀ q : DeadlineQueue, (timers.foldl DeadlineQueue.cancel q).timers ⊆ q.timers := by
    induction timers with
    | nil => exact fun q => List.Subset.refl _
    | cons a timers ih =>
      intro q
      exact fun b hb => List.erase_subset (ih (q.cancel a) hb)
  unfold cancelTimers
  split
  · exact calm_deadlines (hsub _)
  · exact calm_refl r

theorem calm_upgrade {id : HoldId} {x : Hold} (hx : r.holds[id]? = some x) :
    r.Calm { r with holds := r.holds.setIfInBounds id { x with upgraded := true } } := by
  let t : Recorder := { r with holds := r.holds.setIfInBounds id { x with upgraded := true } }
  have hholds : ∀ ref other, t.holdConcerns ref other = r.holdConcerns ref other := by
    intro ref other
    unfold holdConcerns
    by_cases hid : id = other
    · have hlt := (Array.getElem?_eq_some_iff.mp hx).1
      rw [← hid, hx, Array.getElem?_setIfInBounds_self_of_lt hlt]
    · rw [Array.getElem?_setIfInBounds_ne hid]
  exact calm_of_owners (t := t) rfl rfl rfl (fun ref v hv ho => ⟨v, hv, ho⟩)
    (List.Subset.refl _) rfl (List.Subset.refl _) hholds (List.Subset.refl _)

/-- What was taken out of the backlog is let go of, and nothing else is taken hold of. -/
theorem handles_emptied (r : Recorder) : r.emptied.handles ⊆ r.handles := by
  have hdrop : ∀ (batch : List SpanRef) (t : Recorder),
      (batch.foldr (fun ref r => r.dropHandle ref) t).handles ⊆ t.handles := by
    intro batch t
    induction batch with
    | nil => exact List.Subset.refl _
    | cons ref batch ih => exact fun e he => ih (List.erase_subset he)
  exact hdrop _ { r with links := _ }

end Recorder

variable {r t : Recorder} {K : SpanRef → Prop}

theorem Touch.calm (h : Touch K r t) : r.Calm t := by
  cases h with
  | edit hk hs he => exact calm_put hs (Span.Turn.change (.edit he)).isOpen
  | inform hk hs key value => exact calm_put hs fun ho => ho
  | advance hs ha => exact calm_put hs ha.isOpen
  | detach hs ho thread => exact calm_detach hs ho thread
  | keep hs ho => exact calm_addTo hs ho _
  | _ => exact calm_of_same rfl rfl rfl rfl rfl rfl rfl rfl

end SpanRelay
