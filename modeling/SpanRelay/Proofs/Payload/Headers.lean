import SpanRelay.Payload.Encoder
import SpanRelay.Proofs.Storage.RetryFormat

/-!
The headers of encoded payloads. All but the key are digits, letters and a few signs, so that every
payload can be kept in a retry file if the key fits on a line of it.
-/
namespace SpanRelay

namespace Blank

/-- There is no blank in the text. -/
def Absent (text : List Char) : Prop := ∀ c ∈ text, isBlank c = false

instance (text : List Char) : Decidable (Absent text) :=
  List.decidableBAll _ text

theorem isBlank_of_isDigit {c : Char} (h : c.isDigit = true) : isBlank c = false := by
  have hlow : 48 ≤ c.toNat := (Char.isDigit_iff_toNat.mp h).1
  have hhigh : c.toNat ≤ 57 := (Char.isDigit_iff_toNat.mp h).2
  have houtside : ∀ r ∈ ranges, r.2 < 48 ∨ 57 < r.1 := by decide
  rw [isBlank, List.any_eq_false]
  intro r hr
  have hr := houtside r hr
  rw [decide_eq_true_iff]
  omega

theorem absent_toDigits (n : Nat) : Absent (Nat.toDigits 10 n) := fun _ hc =>
  isBlank_of_isDigit (Nat.isDigit_of_mem_toDigits (by decide) (by decide) hc)

theorem absent_append {text more : List Char} :
    Absent (text ++ more) ↔ Absent text ∧ Absent more := List.forall_mem_append

theorem absent_cons {c : Char} {text : List Char} :
    Absent (c :: text) ↔ isBlank c = false ∧ Absent text := List.forall_mem_cons

end Blank

open Blank

/-! ## Texts without blanks -/

theorem Hex.absent_bytes (data : List UInt8) : Absent (Hex.bytes data) := by
  have hdigit : ∀ n, isBlank (Hex.digit n) = false := by
    intro n
    have hall : ∀ k < 16, isBlank (Nat.digitChar k) = false := by decide
    have hlt : n % 16 < 16 := Nat.mod_lt n (by decide)
    rw [Hex.digit, Nat.toDigits_of_lt_base hlt]
    exact hall _ hlt
  have hpadded : ∀ width n, Absent (Hex.padded width n) := by
    intro width
    induction width with
    | zero => exact fun n c hc => absurd hc (by simp [Hex.padded])
    | succ width ih =>
      intro n
      rw [Hex.padded, absent_append]
      exact ⟨ih _, by simpa [Absent] using hdigit n⟩
  intro c hc
  obtain ⟨b, -, hb⟩ := List.mem_flatMap.mp hc
  exact hpadded 2 _ c hb

namespace Layout

/-- A character of which texts of doubles are made. -/
def Writes (c : Char) : Prop :=
  c.isDigit = true ∨ c ∈ ['+', '-', '.', 'e', 'i', 'n', 'f', 'N', 'a']

instance (c : Char) : Decidable (Writes c) := inferInstanceAs (Decidable (_ ∨ _))

def WritesAll (text : List Char) : Prop := ∀ c ∈ text, Writes c

instance (text : List Char) : Decidable (WritesAll text) := List.decidableBAll _ text

theorem writesAll_append {text more : List Char} :
    WritesAll (text ++ more) ↔ WritesAll text ∧ WritesAll more := List.forall_mem_append

theorem writesAll_cons {c : Char} {text : List Char} :
    WritesAll (c :: text) ↔ Writes c ∧ WritesAll text := List.forall_mem_cons

theorem WritesAll.of_subset {text more : List Char} (h : WritesAll text) (hs : more ⊆ text) :
    WritesAll more := fun c hc => h c (hs hc)

theorem writesAll_toDigits (n : Nat) : WritesAll (Nat.toDigits 10 n) := fun _ hc =>
  .inl (Nat.isDigit_of_mem_toDigits (by decide) (by decide) hc)

theorem writesAll_zeros (n : Nat) : WritesAll (zeros n) := by
  intro c hc
  rw [List.eq_of_mem_replicate hc]
  decide

theorem writesAll_positionalText (pointZero : Bool) {digits : List Char} (h : WritesAll digits)
    (exponent : Int) : WritesAll (positionalText pointZero digits exponent) := by
  have hpoint : Writes '.' := by decide
  have hzero : Writes '0' := by decide
  unfold positionalText
  dsimp only
  split
  · rw [writesAll_append, writesAll_append]
    refine ⟨⟨h, writesAll_zeros _⟩, ?_⟩
    cases pointZero <;> decide
  · split
    · rw [writesAll_append, writesAll_cons]
      exact ⟨h.of_subset (List.take_subset _ _), hpoint, h.of_subset (List.drop_subset _ _)⟩
    · rw [List.cons_append, List.cons_append, writesAll_cons, writesAll_cons, writesAll_append]
      exact ⟨hzero, hpoint, writesAll_zeros _, h⟩

theorem writesAll_scientificText (exponentPlus : Bool) {digits : List Char} (h : WritesAll digits)
    (scientific : Int) : WritesAll (scientificText exponentPlus digits scientific) := by
  have hpoint : Writes '.' := by decide
  have he : Writes 'e' := by decide
  unfold scientificText
  dsimp only
  rw [writesAll_append, writesAll_append, writesAll_cons]
  refine ⟨⟨?_, he, ?_⟩, writesAll_toDigits _⟩
  · split
    · rw [writesAll_cons, writesAll_cons] at h
      rw [writesAll_cons, writesAll_cons, writesAll_cons]
      exact ⟨h.1, hpoint, h.2⟩
    · exact h
  · split
    · decide
    · cases exponentPlus <;> decide

theorem writesAll_text (l : Layout) (x : Binary64) : WritesAll (l.text x) := by
  have hsigned : ∀ body, WritesAll body → WritesAll (if x.negative then '-' :: body else body) := by
    intro body hb
    split
    · exact writesAll_cons.mpr ⟨by decide, hb⟩
    · exact hb
  unfold text
  extract_lets signed
  split
  · decide
  · split
    · exact hsigned ['i', 'n', 'f'] (by decide)
    · refine hsigned _ ?_
      unfold magnitudeText
      extract_lets d digits scientific inRange
      split
      · exact writesAll_positionalText _ (writesAll_toDigits _) _
      · exact writesAll_scientificText _ (writesAll_toDigits _) _

theorem absent_text (l : Layout) (x : Binary64) : Absent (l.text x) := by
  intro c hc
  rcases writesAll_text l x c hc with hdigit | hmark
  · exact isBlank_of_isDigit hdigit
  · simp only [List.mem_cons, List.not_mem_nil, or_false] at hmark
    rcases hmark with rfl | rfl | rfl | rfl | rfl | rfl | rfl | rfl | rfl <;> decide

end Layout

namespace Encoder

theorem absent_countText (e : Binary64 × Nat) : Absent (countText e).toList := by
  rw [countText, String.toList_ofList, absent_append, absent_cons]
  exact ⟨Layout.absent_text _ _, by decide, absent_toDigits _⟩

theorem absent_samplingText (spans : List Span) : Absent (samplingText spans).toList := by
  rw [samplingText, String.toList_intercalate]
  generalize probabilityCounts _ = counts
  induction counts with
  | nil => decide
  | cons e counts ih =>
    cases counts with
    | nil => simpa using absent_countText e
    | cons f counts =>
      simp only [List.map_cons, List.intercalate_cons_cons, absent_append] at ih ⊢
      exact ⟨⟨absent_countText e, by decide⟩, ih⟩

end Encoder

/-! ## Headers -/

namespace RetryFile

/-- A header fits on a line if its name has no colon, and neither name nor value has a carriage
return. -/
theorem fitsLine_of_not_mem {name value : String} (hcolon : ':' ∉ name.toList)
    (hname : '\r' ∉ name.toList) (hvalue : '\r' ∉ value.toList)
    (hstart : ∀ c ∈ value.toList.head?, isBlank c = false) : FitsLine (name, value) where
  name_colon := hcolon
  name_unbroken h := hname (h.subset (by simp))
  value_unbroken h := hvalue (h.subset (by simp))
  value_start := hstart

theorem fitsLine_of_absent {name value : String} (hcolon : ':' ∉ name.toList)
    (hname : '\r' ∉ name.toList) (hvalue : Absent value.toList) : FitsLine (name, value) := by
  refine fitsLine_of_not_mem hcolon hname (fun hr => ?_) fun c hc => ?_
  · have hblank := hvalue _ hr
    exact absurd hblank (by decide)
  · exact hvalue c (List.mem_of_mem_head? hc)

theorem fitsLine_headersOf (codec : Codec) (body : Bytes) :
    ∀ h ∈ Payload.headersOf codec body, FitsLine h := by
  intro h hm
  rw [Payload.headersOf, List.mem_cons, List.mem_singleton] at hm
  rcases hm with rfl | rfl
  · refine fitsLine_of_absent (by decide) (by decide) ?_
    rw [Wire.decimal, String.toList_ofList]
    exact absent_toDigits _
  · have hdigest := Hex.absent_bytes (codec.digest body)
    have htext : ("sha1 " ++ String.ofList (Hex.bytes (codec.digest body))).toList =
        's' :: "ha1 ".toList ++ Hex.bytes (codec.digest body) := by
      rw [String.toList_append, String.toList_ofList (l := Hex.bytes _)]
      rfl
    refine fitsLine_of_not_mem (by decide) (by decide) (fun hr => ?_) fun c hc => ?_
    · rw [htext, List.mem_append] at hr
      rcases hr with hr | hr
      · exact absurd hr (by decide)
      · have hblank := hdigest _ hr
        exact absurd hblank (by decide)
    · rw [htext] at hc
      obtain rfl := Option.some.inj hc
      decide

/-- Whatever is encoded can be stored exactly if the key of the encoder can. -/
theorem storable_finish_iff (e : Encoder) (now : UInt64) (raw : Bytes) {sampling : Option String}
    (hs : ∀ text ∈ sampling, Absent text.toList) :
    Storable (e.finish now raw sampling) ↔ FitsLine ("Bugsnag-Api-Key", e.apiKey) := by
  have htype : FitsLine ("Content-Type", "application/json") :=
    fitsLine_of_absent (by decide) (by decide) (by decide)
  have hpacked : FitsLine ("Content-Encoding", "gzip") :=
    fitsLine_of_absent (by decide) (by decide) (by decide)
  have hsampling : ∀ text ∈ sampling, FitsLine ("Bugsnag-Span-Sampling", text) := fun text hm =>
    fitsLine_of_absent (by decide) (by decide) (hs text hm)
  unfold Encoder.finish Storable
  constructor
  · intro h
    exact h _ (by simp)
  · intro hkey h hm
    dsimp only at hm
    rw [List.mem_append, List.mem_append, List.mem_append] at hm
    rcases hm with ((hm | hm) | hm) | hm
    · rw [List.mem_cons, List.mem_singleton] at hm
      rcases hm with rfl | rfl
      · exact hkey
      · exact htype
    · split at hm
      · exact List.mem_singleton.mp hm ▸ hpacked
      · contradiction
    · exact fitsLine_headersOf _ _ h hm
    · rw [Option.mem_toList, Option.map_eq_some_iff] at hm
      obtain ⟨text, htext, rfl⟩ := hm
      exact hsampling text htext

theorem storable_encode_iff (e : Encoder) (c : Clock) (spans : List Span) (resource : Attributes) :
    Storable (e.encode c spans resource) ↔ FitsLine ("Bugsnag-Api-Key", e.apiKey) := by
  apply storable_finish_iff
  intro text hm
  split at hm
  · exact Option.some.inj hm ▸ Encoder.absent_samplingText spans
  · contradiction

theorem storable_probabilityRequest_iff (e : Encoder) (c : Clock) :
    Storable (e.probabilityRequest c) ↔ FitsLine ("Bugsnag-Api-Key", e.apiKey) := by
  apply storable_finish_iff
  intro text hm
  obtain rfl := Option.some.inj hm
  decide

/-- The key fits on a line if it has no line end and no blank in front. -/
theorem fitsLine_key_iff (key : String) : FitsLine ("Bugsnag-Api-Key", key) ↔
    ¬ ['\r', '\n'] <:+: key.toList ∧ ∀ c ∈ key.toList.head?, isBlank c = false := by
  have hcolon : ':' ∉ "Bugsnag-Api-Key".toList := by decide
  have hname : ¬ ['\r', '\n'] <:+: "Bugsnag-Api-Key".toList := by decide
  rw [fitsLine_iff]
  simp only [hcolon, hname, not_false_iff, true_and]

end RetryFile
end SpanRelay
