import SpanRelay.Platform.Standard
import SpanRelay.Proofs.Payload.Headers
import SpanRelay.Proofs.Storage.RetryTurn

/-!
Encoded payloads in a retry queue. The headers that an encoder makes up itself come back as they
were; the key is free text, and decides whether a payload comes back as it was.
-/
namespace SpanRelay.RetryQueue

variable {q : RetryQueue} {t : FileTree}

/-- Whatever is encoded comes back unchanged from a queue that was empty and has no age limit,
exactly if the key has no line end in it and no white space in front. -/
theorem next_encoded_iff (hs : t.Sound) (hf : ∀ stage ∈ q.folder.stages, t.read? stage = none)
    (he : t.entries q.folder = []) (hage : UInt64.size ≤ q.maxAge + 1) (e : Encoder) (c : Clock)
    {p : Payload}
    (hp : p = e.probabilityRequest c ∨ ∃ spans resource, p = e.encode c spans resource)
    (now : UInt64) :
    (∃ u, q.add t p = .ok u ∧ (q.next u now).1 = some p) ↔
      ¬ ['\r', '\n'] <:+: e.apiKey.toList ∧
        ∀ first ∈ e.apiKey.toList.head?, Blank.isBlank first = false := by
  have hstorable : RetryFile.Storable p ↔ RetryFile.FitsLine ("Bugsnag-Api-Key", e.apiKey) := by
    rcases hp with rfl | ⟨spans, resource, rfl⟩
    · exact RetryFile.storable_probabilityRequest_iff e c
    · exact RetryFile.storable_encode_iff e c spans resource
  rw [next_add_iff (usable_of_entries hs hf he) (list_of_entries he) hage, hstorable]
  exact RetryFile.fitsLine_key_iff e.apiKey

/-- An ordinary key, and a batch without spans, whose sampling header is empty. -/
theorem next_encoded_ordinary :
    let q : RetryQueue := ⟨["queue"], Nanos.longest, fun _ => 0⟩
    let p := Encoder.encode ⟨"key", true, .standard⟩ default [] .empty
    ∃ u, q.add .empty p = .ok u ∧ (q.next u 50).1 = some p := by
  intro q p
  have hempty := FileTree.sound_empty
  have hage : UInt64.size ≤ q.maxAge + 1 := by decide
  apply (next_encoded_iff hempty (usable_empty q).folder rfl hage ⟨"key", true, .standard⟩ default
    (.inr ⟨[], .empty, rfl⟩) 50).mpr
  have hblank : Blank.isBlank 'k' = false := by decide
  constructor
  · simp [List.infix_cons_iff]
  · intro first hfirst
    obtain rfl : 'k' = first := Option.some.inj hfirst
    exact hblank

/-- White space in front of the key is lost on the way. -/
theorem next_encoded_blank_key :
    let q : RetryQueue := ⟨["queue"], Nanos.longest, fun _ => 0⟩
    let p := Encoder.encode ⟨" key", true, .standard⟩ default [] .empty
    ¬ ∃ u, q.add .empty p = .ok u ∧ (q.next u 50).1 = some p := by
  intro q p
  have hage : UInt64.size ≤ q.maxAge + 1 := by decide
  rw [next_add_iff (usable_empty q) rfl hage, RetryFile.storable_encode_iff,
    RetryFile.fitsLine_key_iff]
  rintro ⟨-, hstart⟩
  have hblank : Blank.isBlank ' ' = true := by decide
  exact absurd (hstart ' ' rfl) (by simp [hblank])

end SpanRelay.RetryQueue
