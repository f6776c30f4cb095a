import Mathlib.Algebra.Order.Ring.Nat
import SpanRelay.Text.Hex

/-! Hexadecimal text of a fixed width stands for the number it was made of. -/
namespace SpanRelay.Hex

theorem digit_eq (n : Nat) : digit n = Nat.digitChar (n % 16) := by
  rw [digit, Nat.toDigits_of_lt_base (Nat.mod_lt n (by decide))]
  rfl

/-- What is true of the sixteen digits is true of every digit. -/
theorem forall_digit {p : Char → Prop} (h : ∀ k < 16, p (Nat.digitChar k)) (n : Nat) :
    p (digit n) := digit_eq n ▸ h _ (Nat.mod_lt n (by decide))

theorem forall_padded {p : Char → Prop} (h : ∀ k < 16, p (Nat.digitChar k)) (width n : Nat) :
    ∀ c ∈ padded width n, p c := by
  induction width generalizing n with
  | zero => simp [padded]
  | succ width ih =>
    intro c hc
    rcases List.mem_append.mp hc with hc | hc
    · exact ih _ c hc
    · exact List.mem_singleton.mp hc ▸ forall_digit h n

@[simp] theorem digitValue_digit (n : Nat) : digitValue (digit n) = n % 16 := by
  have hall : ∀ k < 16, digitValue (Nat.digitChar k) = k := by decide
  rw [digit_eq]
  exact hall _ (Nat.mod_lt n (by decide))

theorem value_concat (front : List Char) (c : Char) :
    value (front ++ [c]) = 16 * value front + digitValue c := by
  simp [value]

theorem value_padded (width n : Nat) : value (padded width n) = n % 16 ^ width := by
  induction width generalizing n with
  | zero => simp [padded, value, Nat.mod_one]
  | succ width ih =>
    rw [padded, value_concat, ih, digitValue_digit, Nat.pow_succ', Nat.mod_mul]
    omega

end SpanRelay.Hex
