import Mathlib.Data.List.Infix
import SpanRelay.Storage.RetryFile

/-! Line ends in text and in its bytes. An ASCII character is one byte and is seen nowhere else. -/
namespace SpanRelay.Bytes

theorem ofString_eq_flatMap (s : String) :
    ofString s = s.toList.flatMap String.utf8EncodeChar := by
  have h : s.toByteArray = (s.toList.flatMap String.utf8EncodeChar).toByteArray := by
    rw [← String.utf8Encode_toList, List.utf8Encode]
  rw [ofString, h]
  simp

theorem ofString_append (s t : String) : ofString (s ++ t) = ofString s ++ ofString t := by
  simp [ofString_eq_flatMap]

@[simp] theorem ofAscii_nil : ofAscii [] = [] := rfl

@[simp] theorem ofAscii_cons (c : Char) (text : List Char) :
    ofAscii (c :: text) = UInt8.ofNat c.toNat :: ofAscii text := rfl

@[simp] theorem ofAscii_append (front back : List Char) :
    ofAscii (front ++ back) = ofAscii front ++ ofAscii back := by
  simp [ofAscii]

theorem ofString_of_toString? {bytes : Bytes} {s : String} (h : toString? bytes = some s) :
    ofString s = bytes := by
  unfold toString? String.fromUTF8? at h
  split at h
  · next hv =>
    obtain rfl := Option.some.inj h
    simp [ofString, String.fromUTF8]
  · contradiction

/-- A character is one ASCII byte, or bytes of which none is ASCII. -/
theorem encodeChar_cases (c : Char) :
    (c.toNat < 0x80 ∧ String.utf8EncodeChar c = [UInt8.ofNat c.toNat]) ∨
      (0x80 ≤ c.toNat ∧ ∀ b ∈ String.utf8EncodeChar c, 0x80 ≤ b) := by
  by_cases hc : c.toNat < 0x80
  · left
    refine ⟨hc, ?_⟩
    have hle : c.val.toNat ≤ 0x7f := by
      change c.toNat ≤ 0x7f
      omega
    rw [String.utf8EncodeChar, if_pos hle]
    rfl
  · right
    have hn : ¬ c.val.toNat ≤ 0x7f := by
      change ¬ c.toNat ≤ 0x7f
      omega
    refine ⟨by omega, fun b hb => ?_⟩
    simp only [String.utf8EncodeChar, hn, if_false] at hb
    rw [UInt8.le_iff_toNat_le]
    split_ifs at hb <;> simp only [List.mem_cons, List.not_mem_nil, or_false] at hb <;>
      rcases hb with rfl | rfl | rfl | rfl <;> simp <;> omega

/-- ASCII text is its own UTF-8. -/
theorem ofAscii_eq {text : List Char} (h : ∀ c ∈ text, c.toNat < 0x80) :
    ofAscii text = ofString (String.ofList text) := by
  rw [ofString_eq_flatMap, String.toList_ofList]
  induction text with
  | nil => rfl
  | cons c text ih =>
    have hc := h c List.mem_cons_self
    rw [List.flatMap_cons, ofAscii_cons, ih fun d hd => h d (List.mem_cons_of_mem c hd)]
    rcases encodeChar_cases c with ⟨-, he⟩ | ⟨hlarge, -⟩
    · rw [he, List.singleton_append]
    · omega

theorem infix_cons_of_ne {pair : Bytes} {a b : UInt8} {rest : Bytes} (hne : b ≠ a) :
    a :: pair <:+: b :: rest ↔ a :: pair <:+: rest := by
  rw [List.infix_cons_iff, or_iff_right]
  intro h
  exact hne (List.cons_prefix_cons.mp h).1.symm

/-- Bytes that do not begin a pattern may be left out in front. -/
theorem infix_append_of_notMem {pair : Bytes} {a : UInt8} {front rest : Bytes}
    (ha : a ∉ front) : a :: pair <:+: front ++ rest ↔ a :: pair <:+: rest := by
  induction front with
  | nil => rfl
  | cons b front ih =>
    rw [List.mem_cons, not_or] at ha
    rw [List.cons_append, infix_cons_of_ne (Ne.symm ha.1), ih ha.2]

theorem ofNat_toNat_inj {c d : Char} (hc : c.toNat < 0x80) (hd : d.toNat < 0x80) :
    UInt8.ofNat c.toNat = UInt8.ofNat d.toNat ↔ c = d := by
  rw [← UInt8.toNat_inj, UInt8.toNat_ofNat', UInt8.toNat_ofNat', ← Char.toNat_inj]
  omega

/-- An ASCII character in front of a text is seen in front of its bytes. -/
theorem ascii_prefix_iff {d : Char} (hd : d.toNat < 0x80) (text : List Char) :
    [UInt8.ofNat d.toNat] <+: text.flatMap String.utf8EncodeChar ↔ [d] <+: text := by
  cases text with
  | nil => simp
  | cons c text =>
    rw [List.flatMap_cons]
    rcases encodeChar_cases c with ⟨hc, he⟩ | ⟨hc, hall⟩
    · rw [he, List.singleton_append, List.cons_prefix_cons, ofNat_toNat_inj hd hc]
      simp
    · obtain ⟨b, front, he⟩ := List.exists_cons_of_ne_nil (String.utf8EncodeChar_ne_nil (c := c))
      have hb : 0x80 ≤ b := hall b (by simp [he])
      rw [he, List.cons_append, List.cons_prefix_cons, List.cons_prefix_cons]
      refine iff_of_false (fun h => ?_) fun h => ?_
      · rw [← h.1, UInt8.le_iff_toNat_le, UInt8.toNat_ofNat'] at hb
        simp at hb
        omega
      · obtain rfl := h.1
        omega

/-- A line end is found in the bytes of a text exactly where it is in the text. -/
theorem lineEnd_infix_iff (text : List Char) :
    RetryFile.lineEnd <:+: text.flatMap String.utf8EncodeChar ↔ ['\r', '\n'] <:+: text := by
  change [UInt8.ofNat '\r'.toNat, UInt8.ofNat '\n'.toNat] <:+: _ ↔ _
  induction text with
  | nil => simp
  | cons c text ih =>
    rw [List.flatMap_cons, List.infix_cons_iff, ← ih]
    rcases encodeChar_cases c with ⟨hc, he⟩ | ⟨hc, hall⟩
    · rw [he, List.singleton_append, List.infix_cons_iff, List.cons_prefix_cons,
        List.cons_prefix_cons, ofNat_toNat_inj (by decide) hc, ascii_prefix_iff (by decide)]
    · have hcr : UInt8.ofNat '\r'.toNat ∉ String.utf8EncodeChar c :=
        fun hm => absurd (hall _ hm) (by decide)
      rw [infix_append_of_notMem hcr, iff_or_self]
      intro h
      obtain rfl := (List.cons_prefix_cons.mp h).1
      exact absurd (hall 0x0d (by decide)) (by decide)

end SpanRelay.Bytes
