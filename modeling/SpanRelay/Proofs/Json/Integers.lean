import SpanRelay.Json.Number
import SpanRelay.Proofs.Json.Documents

/-! Whole numbers of 64 bits with sign are read back from what is written for them. -/
namespace SpanRelay.Json

open DecimalText Numeral

theorem digitOf_ofNat {c : Char} (h : c.isDigit = true) :
    digitOf (UInt8.ofNat c.toNat) = c.toNat - '0'.toNat := by
  have hrange : 48 ≤ c.toNat ∧ c.toNat ≤ 57 := Char.isDigit_iff_toNat.mp h
  rw [digitOf, UInt8.toNat_ofNat', Nat.mod_eq_of_lt (by omega)]
  rfl

theorem le_ofDigitChars (digits : List Char) (start : ℕ) :
    start ≤ Nat.ofDigitChars 10 digits start := by
  rw [Nat.ofDigitChars_eq_ofDigitChars_zero]
  have hpos : 1 ≤ 10 ^ digits.length := Nat.one_le_pow _ _ (by decide)
  nlinarith

/-- Digits whose number fits are taken in whole. -/
theorem significandOf_ofAscii {digits : List Char} (hd : Digits digits) {start : ℕ}
    (h : Nat.ofDigitChars 10 digits start < UInt64.size) :
    significandOf start (Bytes.ofAscii digits) = (Nat.ofDigitChars 10 digits start, 0) := by
  induction digits generalizing start with
  | nil => rfl
  | cons c digits ih =>
    have hc : c.isDigit = true := hd c List.mem_cons_self
    rw [Nat.ofDigitChars_cons] at h ⊢
    have hstart : start * 10 + (c.toNat - '0'.toNat) < UInt64.size := by
      rw [Nat.mul_comm start]
      exact Nat.lt_of_le_of_lt (le_ofDigitChars digits _) h
    rw [Bytes.ofAscii_cons, significandOf, digitOf_ofNat hc, if_pos hstart, Nat.mul_comm start]
    exact ih (hd.of_subset (List.subset_cons_self c digits)) h

theorem span_toDigits (n : ℕ) : (Bytes.ofAscii (Nat.toDigits 10 n)).span isDigitByte =
    (Bytes.ofAscii (Nat.toDigits 10 n), []) := by
  have hnone : ∀ b ∈ ([] : Bytes).head?, isDigitByte b = false := nofun
  simpa only [List.append_nil] using span_ofAscii (digits_toDigits n) hnone

theorem ofLiteral_toDigits (n : ℕ) :
    NumberParts.ofLiteral (Bytes.ofAscii (Nat.toDigits 10 n)) =
      ⟨false, Bytes.ofAscii (Nat.toDigits 10 n), [], none, false⟩ := by
  have hspan := span_toDigits n
  obtain ⟨c, more, hcons⟩ := List.exists_cons_of_ne_nil
    (Nat.toDigits_ne_nil : Nat.toDigits 10 n ≠ [])
  have hc := isDigitByte_ofNat (digits_toDigits n c (hcons ▸ List.mem_cons_self))
  have hminus : UInt8.ofNat c.toNat ≠ 0x2d := fun heq => absurd (heq ▸ hc) (by decide)
  rw [hcons, Bytes.ofAscii_cons] at hspan ⊢
  simp [NumberParts.ofLiteral, hminus, hspan, -List.span_eq_takeWhile_dropWhile]

theorem ofLiteral_minus (n : ℕ) :
    NumberParts.ofLiteral (0x2d :: Bytes.ofAscii (Nat.toDigits 10 n)) =
      ⟨true, Bytes.ofAscii (Nat.toDigits 10 n), [], none, false⟩ := by
  simp only [NumberParts.ofLiteral, span_toDigits]

theorem significandOf_toDigits {n : ℕ} (h : n < UInt64.size) :
    significandOf 0 (Bytes.ofAscii (Nat.toDigits 10 n)) = (n, 0) := by
  have hvalue : Nat.ofDigitChars 10 (Nat.toDigits 10 n) 0 = n := Nat.ofDigitChars_ten_toDigits
  rw [significandOf_ofAscii (digits_toDigits n) (hvalue.symm ▸ h), hvalue]

theorem asInteger?_ofInt {n : ℤ} (hlow : -(2 ^ 63) ≤ n) (hhigh : n < 2 ^ 63) :
    (ofInt n).asInteger? = some n := by
  have hsize : UInt64.size = 2 ^ 64 := rfl
  unfold ofInt
  split
  next hn =>
    have hread := significandOf_toDigits (n := n.natAbs) (by omega)
    have hfits : 0 < n.natAbs ∧ n.natAbs ≤ 1 <<< 63 := by
      rw [Nat.one_shiftLeft]
      omega
    have habs : (n.natAbs : ℤ) = -n := by omega
    simp only [asInteger?, NumberParts.toInteger?, ofLiteral_minus, hread, hfits]
    simp [habs]
  next hn =>
    have hread := significandOf_toDigits (n := n.toNat) (by omega)
    have hfits : n.toNat < 1 <<< 63 := by
      rw [Nat.one_shiftLeft]
      omega
    have htoNat : (n.toNat : ℤ) = n := by omega
    simp only [ofNat, asInteger?, NumberParts.toInteger?, ofLiteral_toDigits, hread, hfits]
    simp [-Int.ofNat_toNat, htoNat]

theorem sound_ofInt (n : ℤ) : Sound (ofInt n) := by
  unfold ofInt
  split
  next hn =>
    obtain ⟨hd, hne, hleading⟩ := Layout.plain_toDigits (fun _ => rfl : n.natAbs = 0 → (0 : ℤ) = 0)
    have hformed : Formed ⟨Nat.toDigits 10 n.natAbs, [], []⟩ :=
      ⟨hd, hne, fun hhead => (hleading hhead).1, by simp [Digits]⟩
    have hliteral := numberLiteral_minus hformed .none
    rw [Bytes.ofAscii_cons] at hliteral
    exact .number (by simpa [Numeral.text, marked] using hliteral)
  next => exact sound_ofNat n.toNat

end SpanRelay.Json
