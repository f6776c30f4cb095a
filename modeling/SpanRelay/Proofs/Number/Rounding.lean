import Mathlib.Algebra.Order.Field.Power
import Mathlib.Algebra.Order.Ring.Rat
import Mathlib.Tactic.FieldSimp
import Mathlib.Tactic.Linarith
import Mathlib.Tactic.NormNum
import Mathlib.Tactic.Positivity
import Mathlib.Tactic.Ring
import SpanRelay.Number.Binary64

/-!
Which ratios round to a double. Around the size of a double lies an interval that reaches halfway to
its neighbours, and every ratio in it is rounded to that double; the ends go to an even significand.
-/
namespace SpanRelay.Binary64

/-! ## Words and their parts -/

theorem hiddenBit_eq : hiddenBit = 2 ^ 52 := by decide

theorem signBit_eq : signBit = 2 ^ 63 := by decide

/-- A word is its sign and its magnitude. -/
theorem make_magnitudeBits (x : Binary64) : make x.negative x.magnitudeBits = x := by
  have hbits : x.bits.toNat < 2 ^ 64 := x.bits.toNat_lt
  have hsum : x.magnitudeBits + (if x.negative then signBit else 0) = x.bits.toNat := by
    simp only [magnitudeBits, negative, signBit_eq, decide_eq_true_eq]
    split <;> omega
  rw [make, hsum, UInt64.ofNat_toNat]

/-- Exponent and significand of a finite word, and how they make up its magnitude. -/
structure Parts (x : Binary64) : Prop where
  low : -1074 ≤ x.exponent
  high : x.exponent ≤ 971
  significand_lt : x.significand < 2 ^ 53
  normal : -1074 < x.exponent → 2 ^ 52 ≤ x.significand
  magnitude : x.magnitudeBits = (x.exponent + 1074).toNat * 2 ^ 52 + x.significand

theorem parts_of_isFinite {x : Binary64} (h : x.isFinite = true) : x.Parts := by
  have hfinite : x.magnitudeBits < 2047 * 2 ^ 52 := by
    rw [isFinite, decide_eq_true_iff, infinityBits, hiddenBit_eq] at h
    exact h
  by_cases hfield : x.magnitudeBits / 2 ^ 52 = 0
  · have hexponent : x.exponent = -1074 := by simp only [exponent, hiddenBit_eq, if_pos hfield]
    have hsignificand : x.significand = x.magnitudeBits % 2 ^ 52 := by
      simp only [significand, hiddenBit_eq, if_pos hfield]
    constructor <;> omega
  · have hexponent : x.exponent = (x.magnitudeBits / 2 ^ 52 : ℕ) - 1075 := by
      simp only [exponent, hiddenBit_eq, if_neg hfield]
    have hsignificand : x.significand = 2 ^ 52 + x.magnitudeBits % 2 ^ 52 := by
      simp only [significand, hiddenBit_eq, if_neg hfield]
    constructor <;> omega

/-! ## Powers and ratios -/

/-- A power with the sign of its exponent on the one side or the other. -/
theorem pow_toNat_div (b : ℚ) (k : ℤ) : b ^ k.toNat / b ^ (-k).toNat = b ^ k := by
  obtain ⟨n, rfl | rfl⟩ := k.eq_nat_or_neg
  · simp
  · simp

theorem shifted_ratio (num den : ℕ) (k : ℤ) :
    ((num <<< (-k).toNat : ℕ) : ℚ) / (den <<< k.toNat : ℕ) = num / den / 2 ^ k := by
  have hpow : (2 : ℚ) ^ (-k).toNat / 2 ^ k.toNat = (2 ^ k)⁻¹ := by
    rw [← zpow_neg, ← pow_toNat_div, neg_neg]
  rw [Nat.shiftLeft_eq, Nat.shiftLeft_eq]
  push_cast
  rw [mul_div_mul_comm, hpow]
  rfl

/-- The binary logarithm, rounded down. -/
theorem floorLog2_spec {num den : ℕ} (hn : 0 < num) (hd : 0 < den) :
    (2 : ℚ) ^ floorLog2 num den ≤ num / den ∧
      (num : ℚ) / den < 2 ^ (floorLog2 num den + 1) := by
  have hden : (0 : ℚ) < den := by exact_mod_cast hd
  have hnumLow : (2 : ℚ) ^ num.log2 ≤ num := by exact_mod_cast Nat.log2_self_le hn.ne'
  have hnumHigh : (num : ℚ) < 2 ^ (num.log2 + 1) := by exact_mod_cast Nat.lt_log2_self
  have hdenLow : (2 : ℚ) ^ den.log2 ≤ den := by exact_mod_cast Nat.log2_self_le hd.ne'
  have hdenHigh : (den : ℚ) < 2 ^ (den.log2 + 1) := by exact_mod_cast Nat.lt_log2_self
  obtain ⟨guess, hguess⟩ : ∃ guess : ℤ, guess = num.log2 - den.log2 := ⟨_, rfl⟩
  have hlow : (2 : ℚ) ^ (guess - 1) ≤ num / den := by
    rw [le_div_iff₀ hden]
    calc (2 : ℚ) ^ (guess - 1) * den ≤ 2 ^ (guess - 1) * 2 ^ (den.log2 + 1) := by gcongr
      _ = 2 ^ num.log2 := by
        rw [← zpow_natCast, ← zpow_natCast, ← zpow_add₀ two_ne_zero]
        congr 1
        omega
      _ ≤ num := hnumLow
  have hhigh : (num : ℚ) / den < 2 ^ (guess + 1) := by
    rw [div_lt_iff₀ hden]
    calc (num : ℚ) < 2 ^ (num.log2 + 1) := hnumHigh
      _ = 2 ^ (guess + 1) * 2 ^ den.log2 := by
        rw [← zpow_natCast, ← zpow_natCast, ← zpow_add₀ two_ne_zero]
        congr 1
        omega
      _ ≤ 2 ^ (guess + 1) * den := by gcongr
  have htest : den <<< guess.toNat ≤ num <<< (-guess).toNat ↔ (2 : ℚ) ^ guess ≤ num / den := by
    have hshifted : (0 : ℚ) < (den <<< guess.toNat : ℕ) := by
      rw [Nat.shiftLeft_eq]
      positivity
    rw [← Nat.cast_le (α := ℚ), ← one_le_div hshifted, shifted_ratio,
      one_le_div (by positivity)]
  unfold floorLog2
  simp only [← hguess]
  split
  next h => exact ⟨htest.mp h, hhigh⟩
  next h => exact ⟨hlow, by simpa using lt_of_not_ge fun hge => h (htest.mpr hge)⟩

/-- A ratio within a half of a whole number is rounded to it, at the half to an even one. -/
theorem roundHalfEven_eq {num den m : ℕ} (hd : 0 < den) (hlow : (m : ℚ) - 1 / 2 ≤ num / den)
    (hhigh : (num : ℚ) / den ≤ m + 1 / 2)
    (heven : (num : ℚ) / den = m - 1 / 2 ∨ (num : ℚ) / den = m + 1 / 2 → m % 2 = 0) :
    roundHalfEven num den = m := by
  have hden : (0 : ℚ) < den := by exact_mod_cast hd
  have hlow : 2 * m * den ≤ 2 * num + den := by
    rw [le_div_iff₀ hden] at hlow
    have h : (2 * m * den : ℚ) ≤ 2 * num + den := by linarith
    exact_mod_cast h
  have hhigh : 2 * num ≤ 2 * m * den + den := by
    rw [div_le_iff₀ hden] at hhigh
    have h : (2 * num : ℚ) ≤ 2 * m * den + den := by linarith
    exact_mod_cast h
  have heven : 2 * num + den = 2 * m * den ∨ 2 * num = 2 * m * den + den → m % 2 = 0 := by
    intro h
    apply heven
    rcases h with h | h
    · left
      have h : (2 * num + den : ℚ) = 2 * m * den := by exact_mod_cast h
      rw [div_eq_iff hden.ne']
      linarith
    · right
      have h : (2 * num : ℚ) = 2 * m * den + den := by exact_mod_cast h
      rw [div_eq_iff hden.ne']
      linarith
  have hsum : den * (num / den) + num % den = num := Nat.div_add_mod num den
  have hrest : num % den < den := Nat.mod_lt num hd
  unfold roundHalfEven
  dsimp only
  generalize num / den = quotient at hsum ⊢
  generalize num % den = rest at hsum hrest ⊢
  have hle : quotient ≤ m := by
    by_contra hlt
    have hmore : (m + 1) * den ≤ quotient * den := Nat.mul_le_mul_right den (by omega)
    linarith
  have hge : m ≤ quotient + 1 := by
    by_contra hlt
    have hless : (quotient + 2) * den ≤ m * den := Nat.mul_le_mul_right den (by omega)
    linarith
  obtain rfl | rfl : m = quotient ∨ m = quotient + 1 := by omega
  · have hhalf : 2 * rest ≤ den := by linarith
    have hends : 2 * rest = den → m % 2 = 0 := fun h => heven (.inr (by linarith))
    split_ifs <;> omega
  · have hhalf : den ≤ 2 * rest := by linarith
    have hends : 2 * rest = den → (quotient + 1) % 2 = 0 := fun h => heven (.inl (by linarith))
    split_ifs <;> omega

/-- The same in multiples of a power of two. -/
theorem roundHalfEven_shifted {num den m : ℕ} {k : ℤ} (hd : 0 < den)
    (hlow : ((m : ℚ) - 1 / 2) * 2 ^ k ≤ num / den)
    (hhigh : (num : ℚ) / den ≤ (m + 1 / 2) * 2 ^ k)
    (heven : (num : ℚ) / den = (m - 1 / 2) * 2 ^ k ∨ (num : ℚ) / den = (m + 1 / 2) * 2 ^ k →
      m % 2 = 0) : roundHalfEven (num <<< (-k).toNat) (den <<< k.toNat) = m := by
  have hpow : (0 : ℚ) < 2 ^ k := by positivity
  apply roundHalfEven_eq
  · rw [Nat.shiftLeft_eq]
    positivity
  · rwa [shifted_ratio, le_div_iff₀ hpow]
  · rwa [shifted_ratio, div_le_iff₀ hpow]
  · rwa [shifted_ratio, div_eq_iff hpow.ne', div_eq_iff hpow.ne']

/-! ## Intervals -/

/-- How far the interval reaches down, in quarters of the last place: less at a power of two. -/
def reach (x : Binary64) : ℕ := if x.significand = hiddenBit ∧ -1074 < x.exponent then 1 else 2

/-- The lower end of the interval. -/
def lowEnd (x : Binary64) : ℚ := (4 * x.significand - x.reach) * 2 ^ (x.exponent - 2)

/-- The upper end of the interval. -/
def highEnd (x : Binary64) : ℚ := (4 * x.significand + 2) * 2 ^ (x.exponent - 2)

/-- A positive size is in the interval of a double. -/
structure Catches (x : Binary64) (v : ℚ) : Prop where
  low : x.lowEnd ≤ v
  high : v ≤ x.highEnd
  ends : v = x.lowEnd ∨ v = x.highEnd → x.significand % 2 = 0

theorem reach_le (x : Binary64) : x.reach ≤ 2 := by
  unfold reach
  split <;> omega

theorem Catches.pos {x : Binary64} {v : ℚ} (h : x.Catches v) (hs : x.significand ≠ 0) : 0 < v := by
  have hone : (1 : ℚ) ≤ x.significand := by exact_mod_cast Nat.one_le_iff_ne_zero.mpr hs
  have hreach : (x.reach : ℚ) ≤ 2 := by exact_mod_cast x.reach_le
  have hpow : (0 : ℚ) < 2 ^ (x.exponent - 2) := by positivity
  have hlow : 0 < x.lowEnd := mul_pos (by linarith) hpow
  linarith [h.low]

/-- A power of two in quarters of the last place. -/
theorem two_pow_quarters {e k : ℤ} (n : ℕ) (h : k = e - 2 + n) :
    (2 : ℚ) ^ k = 2 ^ n * 2 ^ (e - 2) := by
  rw [h, zpow_add₀ two_ne_zero, zpow_natCast, mul_comm]

theorem reach_eq_one {x : Binary64} (h : x.reach = 1) :
    x.significand = 2 ^ 52 ∧ -1074 < x.exponent := by
  unfold reach at h
  split at h
  next hborder => exact ⟨hborder.1.trans hiddenBit_eq, hborder.2⟩
  · contradiction

variable {x : Binary64} {num den : ℕ}

/-- In its own place a ratio is rounded to the significand. -/
theorem Catches.roundHalfEven (h : x.Catches (num / den)) (hd : 0 < den)
    (hplace : x.reach = 1 → (2 : ℚ) ^ (x.exponent + 52) ≤ num / den) :
    roundHalfEven (num <<< (-x.exponent).toNat) (den <<< x.exponent.toNat) = x.significand := by
  obtain ⟨hlow, hhigh, hends⟩ := h
  unfold lowEnd at hlow hends
  unfold highEnd at hhigh hends
  have hunit : (2 : ℚ) ^ x.exponent = 2 ^ 2 * 2 ^ (x.exponent - 2) :=
    two_pow_quarters _ (by omega)
  have hpos : (0 : ℚ) < 2 ^ (x.exponent - 2) := by positivity
  by_cases hreach : x.reach = 1
  · obtain ⟨hsig, -⟩ := reach_eq_one hreach
    have hsigQ : (x.significand : ℚ) = 2 ^ 52 := by exact_mod_cast hsig
    have hpower : (2 : ℚ) ^ (x.exponent + 52) = 2 ^ 54 * 2 ^ (x.exponent - 2) :=
      two_pow_quarters _ (by omega)
    have hplace := hplace hreach
    rw [hpower] at hplace
    apply roundHalfEven_shifted hd
    · rw [hunit, hsigQ]
      linarith
    · rw [hunit]
      linarith
    · intro _
      rw [hsig]
      decide
  · have hreach : x.reach = 2 := by
      have hle := x.reach_le
      unfold reach at *
      split at * <;> simp_all
    rw [hreach] at hlow hends
    push_cast at hlow hends
    apply roundHalfEven_shifted hd
    · rw [hunit]
      linarith
    · rw [hunit]
      linarith
    · rw [hunit]
      rintro (h | h)
      · exact hends (.inl (by linarith))
      · exact hends (.inr (by linarith))

/-- Below a power of two the places are half as wide, and a ratio is rounded to that power. -/
theorem Catches.roundHalfEven_below (h : x.Catches (num / den)) (hd : 0 < den)
    (hreach : x.reach = 1) (hbelow : (num : ℚ) / den < 2 ^ (x.exponent + 52)) :
    SpanRelay.Binary64.roundHalfEven (num <<< (-(x.exponent - 1)).toNat)
      (den <<< (x.exponent - 1).toNat) = 2 ^ 53 := by
  have hlow := h.low
  unfold lowEnd at hlow
  have hsig : (x.significand : ℚ) = 2 ^ 52 := by exact_mod_cast (reach_eq_one hreach).1
  rw [hreach, hsig] at hlow
  push_cast at hlow
  have hunit : (2 : ℚ) ^ (x.exponent - 1) = 2 ^ 1 * 2 ^ (x.exponent - 2) :=
    two_pow_quarters _ (by omega)
  have hpower : (2 : ℚ) ^ (x.exponent + 52) = 2 ^ 54 * 2 ^ (x.exponent - 2) :=
    two_pow_quarters _ (by omega)
  have hpos : (0 : ℚ) < 2 ^ (x.exponent - 2) := by positivity
  rw [hpower] at hbelow
  apply roundHalfEven_shifted hd
  · rw [hunit]
    push_cast
    linarith
  · rw [hunit]
    push_cast
    linarith
  · intro _
    decide

/-- Whatever is in the interval of a double is rounded to it. -/
theorem roundMagnitude_of_catches (hx : x.isFinite = true) (hs : x.significand ≠ 0) (hd : 0 < den)
    (h : x.Catches (num / den)) : roundMagnitude num den = x.magnitudeBits := by
  obtain ⟨hexpLow, -, hsig, hnormal, hmagnitude⟩ := parts_of_isFinite hx
  have hfinite : x.magnitudeBits ≤ infinityBits := by
    rw [isFinite, decide_eq_true_iff] at hx
    exact hx.le
  have hnum : num ≠ 0 := by
    rintro rfl
    have hpos := h.pos hs
    simp at hpos
  obtain ⟨hlogLow, hlogHigh⟩ := floorLog2_spec (Nat.pos_of_ne_zero hnum) hd
  obtain ⟨log, hlog⟩ : ∃ log, floorLog2 num den = log := ⟨_, rfl⟩
  rw [hlog] at hlogLow hlogHigh
  have hpos : (0 : ℚ) < 2 ^ (x.exponent - 2) := by positivity
  have hlogLt : log < x.exponent + 53 := by
    rw [← zpow_lt_zpow_iff_right₀ (one_lt_two (α := ℚ))]
    have hpower : (2 : ℚ) ^ (x.exponent + 53) = 2 ^ 55 * 2 ^ (x.exponent - 2) :=
      two_pow_quarters _ (by omega)
    have hsig : (x.significand : ℚ) + 1 ≤ 2 ^ 53 := by exact_mod_cast hsig
    have hhigh := h.high
    unfold highEnd at hhigh
    rw [hpower]
    nlinarith
  unfold roundMagnitude
  simp only [if_neg hnum, hlog]
  by_cases hunit : max (log - 52) (-1074) = x.exponent
  · have hplace : x.reach = 1 → (2 : ℚ) ^ (x.exponent + 52) ≤ num / den := by
      intro hreach
      have hlog : x.exponent + 52 = log := by
        have hexp := (reach_eq_one hreach).2
        omega
      exact hlog ▸ hlogLow
    rw [hunit, h.roundHalfEven hd hplace, hiddenBit_eq, ← hmagnitude]
    exact min_eq_left hfinite
  · have hexp : -1074 < x.exponent := by omega
    have hbelow : (num : ℚ) / den < 2 ^ (x.exponent + 52) :=
      hlogHigh.trans_le (zpow_le_zpow_right₀ one_le_two (by omega))
    have hpower : (2 : ℚ) ^ (x.exponent + 52) = 2 ^ 54 * 2 ^ (x.exponent - 2) :=
      two_pow_quarters _ (by omega)
    have hlow := h.low
    unfold lowEnd at hlow
    have hsig : x.significand = 2 ^ 52 := by
      have hreach : (x.reach : ℚ) ≤ 2 := by exact_mod_cast x.reach_le
      have hlt : (x.significand : ℚ) < 2 ^ 52 + 1 := by nlinarith
      have hlt : x.significand < 2 ^ 52 + 1 := by exact_mod_cast hlt
      have hle := hnormal hexp
      omega
    have hreach : x.reach = 1 := if_pos ⟨hsig, hexp⟩
    have hunit : max (log - 52) (-1074) = x.exponent - 1 := by
      have habove : (2 : ℚ) ^ (x.exponent + 51) < 2 ^ (log + 1) := by
        rw [hreach, hsig] at hlow
        push_cast at hlow
        rw [two_pow_quarters (e := x.exponent) 53 (by omega)]
        linarith
      rw [zpow_lt_zpow_iff_right₀ (one_lt_two (α := ℚ))] at habove
      omega
    have hsame : (x.exponent - 1 + 1074).toNat * 2 ^ 52 + 2 ^ 53 = x.magnitudeBits := by
      rw [hmagnitude, hsig]
      omega
    rw [hunit, h.roundHalfEven_below hd hreach hbelow, hiddenBit_eq, hsame]
    exact min_eq_left hfinite

end SpanRelay.Binary64
