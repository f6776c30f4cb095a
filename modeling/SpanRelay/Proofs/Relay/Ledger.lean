import Mathlib.Data.List.Nodup
import Mathlib.Logic.Function.Basic
import SpanRelay.Delivery.Outcome

/-!
Books on payloads: which were made, what came of each attempt to deliver them, and which are stored.
In sound books every payload has exactly one fate, and the three ways in which books are carried on
keep them sound.
-/
namespace SpanRelay

/-- What has become of a payload. -/
inductive Fate where
  | accepted
  | dropped
  | swept
  | stored
  deriving DecidableEq, Repr

/-- The fate that the answer to an attempt gives to a payload. -/
def ResponseClass.fate : ResponseClass → Fate
  | success => .accepted
  | permanent => .dropped
  | retryable => .stored

structure Ledger where
  made : List Payload
  /-- The attempts with their answers, newest first. -/
  tries : List (Payload × ResponseClass)
  swept : Payload → Prop
  stored : UInt64 → Option Payload

namespace Ledger

def Has (L : Ledger) (p : Payload) : Fate → Prop
  | .accepted => (p, .success) ∈ L.tries
  | .dropped => (p, .permanent) ∈ L.tries
  | .swept => L.swept p
  | .stored => L.stored p.timestamp = some p

/-- The fate of the payload is this one and no other. -/
def IsFate (L : Ledger) (p : Payload) (f : Fate) : Prop := ∀ g, L.Has p g ↔ g = f

structure Sound (L : Ledger) : Prop where
  distinct : (L.made.map Payload.timestamp).Nodup
  stored_made : ∀ timestamp p, L.stored timestamp = some p → p.timestamp = timestamp ∧ p ∈ L.made
  tried_made : ∀ e ∈ L.tries, e.1 ∈ L.made
  swept_made : ∀ p, L.swept p → p ∈ L.made
  fate : ∀ p ∈ L.made, ∃ f, L.IsFate p f
  once : ∀ p, L.tries.count (p, .success) ≤ 1

/-! ## Carrying on -/

/-- A payload is made and delivered for the first time; it is stored if it can be tried again. -/
def send (L : Ledger) (p : Payload) (c : ResponseClass) : Ledger where
  made := p :: L.made
  tries := (p, c) :: L.tries
  swept := L.swept
  stored := if c = .retryable then Function.update L.stored p.timestamp (some p) else L.stored

/-- A stored payload is delivered again, and stays stored only if it can be tried again. -/
def resend (L : Ledger) (p : Payload) (c : ResponseClass) : Ledger where
  made := L.made
  tries := (p, c) :: L.tries
  swept := L.swept
  stored := if c = .retryable then L.stored else Function.update L.stored p.timestamp none

/-- Stored payloads from before a moment are swept away. -/
def sweep (L : Ledger) (oldest : UInt64) : Ledger where
  made := L.made
  tries := L.tries
  swept p := L.swept p ∨ L.stored p.timestamp = some p ∧ p.timestamp < oldest
  stored timestamp := if decide (timestamp < oldest) then none else L.stored timestamp

variable {L : Ledger} {p : Payload} {c : ResponseClass}

theorem sound_empty : Sound ⟨[], [], fun _ => False, fun _ => none⟩ :=
  ⟨.nil, by simp, by simp, by simp, by simp, by simp⟩

/-- A payload that was not made has no fate. -/
theorem Sound.not_has (h : L.Sound) (hp : p ∉ L.made) (f : Fate) : ¬ L.Has p f := by
  cases f with
  | accepted => exact fun hm => hp (h.tried_made _ hm)
  | dropped => exact fun hm => hp (h.tried_made _ hm)
  | swept => exact fun hm => hp (h.swept_made p hm)
  | stored => exact fun hm => hp (h.stored_made _ p hm).2

theorem Sound.timestamp_ne (h : L.Sound) (hp : p ∈ L.made) {q : Payload} (hq : q ∈ L.made)
    (hne : q ≠ p) : q.timestamp ≠ p.timestamp := fun ht =>
  hne (List.inj_on_of_nodup_map h.distinct hq hp ht)

theorem IsFate.congr {K : Ledger} {f : Fate} (h : L.IsFate p f)
    (hk : ∀ g, K.Has p g ↔ L.Has p g) : K.IsFate p f := fun g => (hk g).trans (h g)

/-- A payload that was not accepted before is accepted at most once with one more attempt. -/
theorem Sound.once_cons (h : L.Sound) (hp : (p, .success) ∉ L.tries) (c : ResponseClass)
    (q : Payload) : ((p, c) :: L.tries).count (q, .success) ≤ 1 := by
  rw [List.count_cons]
  by_cases he : (p, c) = (q, .success)
  · obtain ⟨rfl, rfl⟩ := Prod.mk.inj he
    rw [List.count_eq_zero_of_not_mem hp]
    simp
  · have hq := h.once q
    simpa [he] using hq

/-! ### First attempts -/

theorem has_send_of_ne {q : Payload} (hq : q.timestamp ≠ p.timestamp) (c : ResponseClass)
    (g : Fate) : (L.send p c).Has q g ↔ L.Has q g := by
  have hne : q ≠ p := fun he => hq (he ▸ rfl)
  cases g with
  | accepted | dropped => simp [Has, send, hne]
  | swept => rfl
  | stored =>
    unfold Has send
    dsimp only
    split
    · rw [Function.update_of_ne hq]
    · rfl

theorem isFate_send (hn : ∀ f, ¬ L.Has p f) (c : ResponseClass) :
    (L.send p c).IsFate p c.fate := by
  have haccepted : (p, .success) ∉ L.tries := hn .accepted
  have hdropped : (p, .permanent) ∉ L.tries := hn .dropped
  have hswept : ¬ L.swept p := hn .swept
  have hstored : L.stored p.timestamp ≠ some p := hn .stored
  intro g
  cases g <;> cases c <;>
    simp [Has, send, ResponseClass.fate, haccepted, hdropped, hswept, hstored]

theorem Sound.send (h : L.Sound) (hp : p.timestamp ∉ L.made.map Payload.timestamp)
    (c : ResponseClass) : (L.send p c).Sound := by
  have hnew : p ∉ L.made := fun hm => hp (List.mem_map_of_mem hm)
  have hnone := h.not_has hnew
  refine ⟨List.nodup_cons.mpr ⟨hp, h.distinct⟩, fun timestamp q hq => ?_, fun e he => ?_,
    fun q hq => .tail p (h.swept_made q hq), fun q hq => ?_, h.once_cons (hnone .accepted) c⟩
  · have hold : L.stored timestamp = some q → q.timestamp = timestamp ∧ q ∈ p :: L.made :=
      fun hs => (h.stored_made timestamp q hs).imp_right (.tail p)
    unfold Ledger.send at hq
    dsimp only at hq
    split at hq
    · by_cases ht : timestamp = p.timestamp
      · subst ht
        rw [Function.update_self] at hq
        obtain rfl := Option.some.inj hq
        exact ⟨rfl, List.mem_cons_self⟩
      · rw [Function.update_of_ne ht] at hq
        exact hold hq
    · exact hold hq
  · rcases List.mem_cons.mp he with rfl | he
    · exact List.mem_cons_self
    · exact .tail p (h.tried_made e he)
  · rcases List.mem_cons.mp hq with rfl | hq
    · exact ⟨c.fate, isFate_send hnone c⟩
    · obtain ⟨f, hf⟩ := h.fate q hq
      have hne : q.timestamp ≠ p.timestamp := fun ht => hp (ht ▸ List.mem_map_of_mem hq)
      exact ⟨f, hf.congr (has_send_of_ne hne c)⟩

/-! ### Later attempts -/

theorem has_resend_of_ne {q : Payload} (hq : q.timestamp ≠ p.timestamp) (c : ResponseClass)
    (g : Fate) : (L.resend p c).Has q g ↔ L.Has q g := by
  have hne : q ≠ p := fun he => hq (he ▸ rfl)
  cases g with
  | accepted | dropped => simp [Has, resend, hne]
  | swept => rfl
  | stored =>
    unfold Has resend
    dsimp only
    split
    · rfl
    · rw [Function.update_of_ne hq]

theorem isFate_resend (hf : L.IsFate p .stored) (c : ResponseClass) :
    (L.resend p c).IsFate p c.fate := by
  have haccepted : (p, .success) ∉ L.tries := mt (hf .accepted).mp (by decide)
  have hdropped : (p, .permanent) ∉ L.tries := mt (hf .dropped).mp (by decide)
  have hswept : ¬ L.swept p := mt (hf .swept).mp (by decide)
  have hstored : L.stored p.timestamp = some p := (hf .stored).mpr rfl
  intro g
  cases g <;> cases c <;>
    simp [Has, resend, ResponseClass.fate, haccepted, hdropped, hswept, hstored]

theorem Sound.resend (h : L.Sound) (hp : L.stored p.timestamp = some p) (c : ResponseClass) :
    (L.resend p c).Sound := by
  have hmade := (h.stored_made _ p hp).2
  obtain ⟨f, hf⟩ := h.fate p hmade
  obtain rfl : .stored = f := (hf .stored).mp hp
  have haccepted : (p, .success) ∉ L.tries := mt (hf .accepted).mp (by decide)
  refine ⟨h.distinct, fun timestamp q hq => ?_, fun e he => ?_, h.swept_made, fun q hq => ?_,
    h.once_cons haccepted c⟩
  · unfold Ledger.resend at hq
    dsimp only at hq
    split at hq
    · exact h.stored_made timestamp q hq
    · by_cases ht : timestamp = p.timestamp
      · subst ht
        rw [Function.update_self] at hq
        contradiction
      · rw [Function.update_of_ne ht] at hq
        exact h.stored_made timestamp q hq
  · rcases List.mem_cons.mp he with rfl | he
    · exact hmade
    · exact h.tried_made e he
  · by_cases hqp : q = p
    · exact ⟨c.fate, hqp ▸ isFate_resend hf c⟩
    · obtain ⟨g, hg⟩ := h.fate q hq
      exact ⟨g, hg.congr (has_resend_of_ne (h.timestamp_ne hmade hq hqp) c)⟩

/-! ### Sweeping -/

theorem isFate_sweep {oldest : UInt64} (hf : L.IsFate p .stored) (hold : p.timestamp < oldest) :
    (L.sweep oldest).IsFate p .swept := by
  have haccepted : (p, .success) ∉ L.tries := mt (hf .accepted).mp (by decide)
  have hdropped : (p, .permanent) ∉ L.tries := mt (hf .dropped).mp (by decide)
  have hstored : L.stored p.timestamp = some p := (hf .stored).mpr rfl
  intro g
  cases g <;> simp [Has, sweep, haccepted, hdropped, hstored, hold]

theorem has_sweep_of_not {oldest : UInt64}
    (hn : ¬ (L.stored p.timestamp = some p ∧ p.timestamp < oldest)) (g : Fate) :
    (L.sweep oldest).Has p g ↔ L.Has p g := by
  cases g with
  | accepted | dropped => rfl
  | swept => simp [Has, sweep, hn]
  | stored =>
    unfold Has sweep
    dsimp only
    by_cases hold : p.timestamp < oldest
    · have hs : L.stored p.timestamp ≠ some p := fun hs => hn ⟨hs, hold⟩
      simp [hold, hs]
    · simp [hold]

theorem stored_sweep {oldest : UInt64} :
    (L.sweep oldest).stored p.timestamp = some p ↔
      L.stored p.timestamp = some p ∧ ¬ p.timestamp < oldest := by
  unfold sweep
  dsimp only
  by_cases hold : p.timestamp < oldest <;> simp [hold]

theorem Sound.sweep (h : L.Sound) (oldest : UInt64) : (L.sweep oldest).Sound := by
  refine ⟨h.distinct, fun timestamp q hq => ?_, h.tried_made, fun q hq => ?_, fun q hq => ?_,
    h.once⟩
  · unfold Ledger.sweep at hq
    dsimp only at hq
    split at hq
    · contradiction
    · exact h.stored_made timestamp q hq
  · rcases hq with hq | ⟨hs, -⟩
    · exact h.swept_made q hq
    · exact (h.stored_made _ q hs).2
  · obtain ⟨f, hf⟩ := h.fate q hq
    by_cases hgone : L.stored q.timestamp = some q ∧ q.timestamp < oldest
    · obtain rfl : .stored = f := (hf .stored).mp hgone.1
      exact ⟨.swept, isFate_sweep hf hgone.2⟩
    · exact ⟨f, hf.congr (has_sweep_of_not hgone)⟩

end Ledger
end SpanRelay
