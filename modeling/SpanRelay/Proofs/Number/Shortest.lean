import Mathlib.Data.Nat.Cast.Order.Field
import SpanRelay.Number.Shortest
import SpanRelay.Proofs.Number.Rounding

/-!
The search for the fewest digits finds some: it looks at ever finer decimals, and the finest of them
lie closer together than the interval of a double is wide. What it finds lies in that interval.
-/
namespace SpanRelay

namespace DecimalDigits

/-- The number that the digits stand for. -/
def value (d : DecimalDigits) : ℚ := d.digits * 10 ^ d.exponent

theorem value_stripped (fuel : ℕ) (d : DecimalDigits) : (stripped fuel d).value = d.value := by
  induction fuel generalizing d with
  | zero => rfl
  | succ fuel ih =>
    unfold stripped
    split
    next h =>
      rw [ih]
      have hdigits : (d.digits : ℚ) = 10 * (d.digits / 10 : ℕ) := by
        have hdvd : d.digits = 10 * (d.digits / 10) := by omega
        exact_mod_cast hdvd
      rw [value, value, hdigits, zpow_add_one₀ (by norm_num)]
      ring
    next => rfl

theorem exponent_le_stripped (fuel : ℕ) (d : DecimalDigits) :
    d.exponent ≤ (stripped fuel d).exponent := by
  induction fuel generalizing d with
  | zero => exact le_refl _
  | succ fuel ih =>
    unfold stripped
    split
    next =>
      have hnext := ih ⟨d.digits / 10, d.exponent + 1⟩
      dsimp only at hnext
      omega
    next => exact le_refl _

end DecimalDigits

namespace Shortest

open Binary64

/-- An interval with its value strictly inside. -/
structure Interval.Proper (i : Interval) : Prop where
  denominator : 0 < i.denominator
  low : i.low < i.value
  high : i.value < i.high

/-- A number is in the interval, at an end only if that belongs to it. -/
structure Interval.Holds (i : Interval) (v : ℚ) : Prop where
  low : (i.low : ℚ) / i.denominator ≤ v
  high : v ≤ i.high / i.denominator
  ends : v = i.low / i.denominator ∨ v = i.high / i.denominator → i.closed = true

variable {i : Interval} {tie : Tie} {grid : ℤ}

/-- A step of the grid as a ratio of naturals. -/
theorem ten_zpow_eq (grid : ℤ) :
    (10 : ℚ) ^ grid = (Nat.pow 10 grid.toNat : ℕ) / (Nat.pow 10 (-grid).toNat : ℕ) := by
  have hcast : ∀ n, ((Nat.pow 10 n : ℕ) : ℚ) = 10 ^ n := fun n => Nat.cast_pow 10 n
  rw [hcast, hcast, pow_toNat_div]

/-- A multiple of a ratio against the interval, without fractions. -/
theorem holds_ratio (hd : 0 < i.denominator) {n num den : ℕ} (hden : 0 < den)
    (hlow : i.low * den ≤ n * (i.denominator * num))
    (hhigh : n * (i.denominator * num) ≤ i.high * den)
    (hends : n * (i.denominator * num) = i.low * den ∨
      n * (i.denominator * num) = i.high * den → i.closed = true) :
    i.Holds (n * (num / den)) := by
  have hd : (0 : ℚ) < i.denominator := by exact_mod_cast hd
  have hden : (0 : ℚ) < den := by exact_mod_cast hden
  have hswap : n * num * i.denominator = n * (i.denominator * num) := by ring
  rw [← mul_div_assoc]
  constructor
  · rw [div_le_div_iff₀ hd hden]
    exact_mod_cast hswap ▸ hlow
  · rw [div_le_div_iff₀ hden hd]
    exact_mod_cast hswap ▸ hhigh
  · rw [div_eq_div_iff hden.ne' hd.ne', div_eq_div_iff hden.ne' hd.ne']
    intro h
    apply hends
    rw [← hswap]
    exact_mod_cast h

/-- A test against an end of the interval. -/
theorem hit_iff {closed : Bool} {a b : ℕ} :
    (if closed then decide (a ≤ b) else decide (a < b)) = true ↔
      a ≤ b ∧ (a = b → closed = true) := by
  cases closed
  · simp
    omega
  · simp

/-- What is found on a grid is in the interval. -/
theorem holds_of_onGrid? (hi : i.Proper) {d : ℕ} (h : i.onGrid? tie grid = some d) :
    i.Holds (d * 10 ^ grid) := by
  obtain ⟨hd, hlow, hhigh⟩ := hi
  unfold Interval.onGrid? at h
  extract_lets lift den down rest downHit upHit preferUp at h
  have hlift : 0 < lift := Nat.pow_pos (by decide)
  have hden : 0 < den := Nat.mul_pos hd (Nat.pow_pos (by decide))
  have hdown : down * den ≤ i.value * lift := Nat.div_mul_le_self ..
  have hup : i.value * lift < (down + 1) * den := by
    rw [Nat.succ_mul]
    exact Nat.lt_div_mul_add hden
  have hlow : i.low * lift < i.value * lift := Nat.mul_lt_mul_of_pos_right hlow hlift
  have hhigh : i.value * lift < i.high * lift := Nat.mul_lt_mul_of_pos_right hhigh hlift
  rw [ten_zpow_eq]
  split at h
  next hhit =>
    obtain rfl := Option.some.inj h
    obtain ⟨hle, hends⟩ := hit_iff.mp (Bool.and_eq_true_iff.mp hhit).1
    refine holds_ratio hd hlift hle (hdown.trans hhigh.le) ?_
    rintro (heq | heq)
    · exact hends heq.symm
    · change down * den = i.high * lift at heq
      omega
  next =>
    split at h
    next hhit =>
      obtain rfl := Option.some.inj h
      obtain ⟨hle, hends⟩ := hit_iff.mp hhit
      refine holds_ratio hd hlift (hlow.trans hup).le hle ?_
      rintro (heq | heq)
      · change (down + 1) * den = i.low * lift at heq
        omega
      · exact hends heq
    · contradiction

/-- Something is found on a grid that is finer than the interval is wide. -/
theorem onGrid?_ne_none (hi : i.Proper)
    (hw : (10 : ℚ) ^ grid < i.high / i.denominator - i.low / i.denominator) :
    i.onGrid? tie grid ≠ none := by
  obtain ⟨hd, hlow, hhigh⟩ := hi
  intro h
  unfold Interval.onGrid? at h
  extract_lets lift den down rest downHit upHit preferUp at h
  have hlift : 0 < lift := Nat.pow_pos (by decide)
  have hden : 0 < den := Nat.mul_pos hd (Nat.pow_pos (by decide))
  have hmiss : ¬ downHit = true ∧ ¬ upHit = true := by
    cases hdown : downHit <;> cases hup : upHit <;> cases hprefer : preferUp <;> simp_all
  have hbelow : down * den ≤ i.low * lift := by
    by_contra hlt
    exact hmiss.1 (hit_iff.mpr ⟨by omega, by omega⟩)
  have habove : i.high * lift ≤ (down + 1) * den := by
    by_contra hlt
    exact hmiss.2 (hit_iff.mpr ⟨by omega, by omega⟩)
  have hwidth : i.low * lift + den < i.high * lift := by
    rw [ten_zpow_eq, ← sub_div, div_lt_div_iff₀ (by exact_mod_cast hlift) (by exact_mod_cast hd),
      sub_mul, lt_sub_iff_add_lt, mul_comm] at hw
    have hw : i.denominator * Nat.pow 10 grid.toNat + i.low * lift < i.high * lift := by
      exact_mod_cast hw
    rw [add_comm]
    exact hw
  rw [Nat.succ_mul] at habove
  omega

/-- The search ends on a grid on which there is something to be found, the finest at last. -/
theorem exists_search_eq (i : Interval) (tie : Tie) {length : ℤ} {fuel count : ℕ}
    (h : i.onGrid? tie (length - (count + fuel)) ≠ none) :
    ∃ d grid, i.onGrid? tie grid = some d ∧ length - (count + fuel) ≤ grid ∧
      i.search tie length (fuel + 1) count = DecimalDigits.stripped 20 ⟨d, grid⟩ := by
  induction fuel generalizing count with
  | zero =>
    obtain ⟨d, hd⟩ := Option.ne_none_iff_exists'.mp h
    refine ⟨d, length - count, by simpa using hd, by simp, ?_⟩
    have hd : i.onGrid? tie (length - count) = some d := by simpa using hd
    simp only [Interval.search, hd]
  | succ fuel ih =>
    cases hd : i.onGrid? tie (length - count) with
    | some d =>
      refine ⟨d, length - count, hd, by push_cast; omega, ?_⟩
      simp only [Interval.search, hd]
    | none =>
      have hsame : length - (count + (fuel + 1 : ℕ)) = length - ((count + 1 : ℕ) + fuel) := by
        push_cast
        ring
      rw [hsame] at h
      obtain ⟨d, grid, hgrid, hle, hsearch⟩ := ih h
      refine ⟨d, grid, hgrid, hsame ▸ hle, ?_⟩
      rw [Interval.search]
      simp only [hd]
      exact hsearch

/-! ## Where the search begins -/

theorem leadingZeros_le (den fuel num : ℕ) : leadingZeros den fuel num ≤ fuel := by
  induction fuel generalizing num with
  | zero => exact le_refl _
  | succ fuel ih =>
    unfold leadingZeros
    split
    · omega
    · exact Nat.succ_le_succ (ih _)

theorem le_mul_leadingZeros {den fuel num : ℕ} (h : den ≤ num * 10 ^ fuel) :
    den ≤ num * 10 ^ leadingZeros den fuel num := by
  induction fuel generalizing num with
  | zero => exact h
  | succ fuel ih =>
    unfold leadingZeros
    split
    next hle => simpa using hle
    next =>
      rw [pow_succ', ← mul_assoc] at h ⊢
      exact ih h

theorem exists_length_toDigits {n : ℕ} (hn : n ≠ 0) :
    ∃ k, (Nat.toDigits 10 n).length = k + 1 ∧ 10 ^ k ≤ n := by
  obtain ⟨k, hk⟩ : ∃ k, (Nat.toDigits 10 n).length = k + 1 :=
    Nat.exists_eq_succ_of_ne_zero Nat.length_toDigits_pos.ne'
  refine ⟨k, hk, ?_⟩
  by_contra hlt
  cases k with
  | zero => omega
  | succ k =>
    have hshort := (Nat.length_toDigits_le_iff (by decide) k.succ_pos).mpr (not_le.mp hlt)
    omega

/-- The value has no fewer digits before the point than the search takes it to have. -/
theorem pow_decimalLength_le (hd : 0 < i.denominator)
    (hv : i.denominator ≤ i.value * 10 ^ 400) :
    (10 : ℚ) ^ (i.decimalLength - 1) ≤ i.value / i.denominator ∧ -399 ≤ i.decimalLength := by
  have hden : (0 : ℚ) < i.denominator := by exact_mod_cast hd
  unfold Interval.decimalLength
  split
  next hle =>
    obtain ⟨whole, hwhole⟩ : ∃ whole, i.value / i.denominator = whole := ⟨_, rfl⟩
    have hpos : whole ≠ 0 := by
      rw [← hwhole]
      exact (Nat.div_pos hle hd).ne'
    rw [hwhole]
    obtain ⟨k, hk, hpow⟩ := exists_length_toDigits hpos
    refine ⟨?_, by omega⟩
    have hfloor : (whole : ℚ) ≤ i.value / i.denominator := hwhole ▸ Nat.cast_div_le
    have hcast : ((10 ^ k : ℕ) : ℚ) ≤ whole := by exact_mod_cast hpow
    rw [hk]
    push_cast at hcast ⊢
    rw [add_sub_cancel_right, zpow_natCast]
    exact hcast.trans hfloor
  next =>
    have hle := leadingZeros_le i.denominator 400 i.value
    have hzeros := le_mul_leadingZeros hv
    refine ⟨?_, by omega⟩
    generalize leadingZeros i.denominator 400 i.value = zeros at hzeros ⊢
    have hcast : (i.denominator : ℚ) ≤ i.value * 10 ^ zeros := by exact_mod_cast hzeros
    have hexp : (1 : ℤ) - zeros - 1 = -(zeros : ℕ) := by ring
    rw [hexp, zpow_neg, zpow_natCast, inv_eq_one_div, div_le_div_iff₀ (by positivity) hden]
    linarith

/-! ## Doubles -/

/-- The interval in which the search for a double looks. -/
def intervalOf (x : Binary64) : Interval := .of x.significand x.exponent

theorem scaled_ratio (n : ℕ) (k : ℤ) :
    ((n * 1 <<< k.toNat : ℕ) : ℚ) / (1 <<< (-k).toNat : ℕ) = n * 2 ^ k := by
  rw [Nat.shiftLeft_eq, Nat.shiftLeft_eq, one_mul, one_mul, ← pow_toNat_div, ← mul_div_assoc]
  push_cast
  rfl

variable {x : Binary64}

theorem low_intervalOf (hs : x.significand ≠ 0) :
    ((intervalOf x).low : ℚ) / (intervalOf x).denominator = x.lowEnd := by
  have hle : x.reach ≤ 4 * x.significand := by
    have hreach := x.reach_le
    omega
  refine (scaled_ratio (4 * x.significand - x.reach) (x.exponent - 2)).trans ?_
  rw [Nat.cast_sub hle, lowEnd]
  push_cast
  rfl

theorem high_intervalOf (x : Binary64) :
    ((intervalOf x).high : ℚ) / (intervalOf x).denominator = x.highEnd := by
  refine (scaled_ratio (4 * x.significand + 2) (x.exponent - 2)).trans ?_
  rw [highEnd]
  push_cast
  rfl

theorem value_intervalOf (x : Binary64) :
    ((intervalOf x).value : ℚ) / (intervalOf x).denominator = x.significand * 2 ^ x.exponent := by
  have hunit : (2 : ℚ) ^ x.exponent = 2 ^ 2 * 2 ^ (x.exponent - 2) := two_pow_quarters 2 (by omega)
  refine (scaled_ratio (4 * x.significand) (x.exponent - 2)).trans ?_
  rw [hunit]
  push_cast
  ring

theorem proper_intervalOf (hs : x.significand ≠ 0) : (intervalOf x).Proper := by
  have hscale : 0 < 1 <<< (x.exponent - 2).toNat := by
    rw [Nat.shiftLeft_eq]
    positivity
  have hreach : 1 ≤ x.reach ∧ x.reach ≤ 2 := by
    unfold reach
    split <;> omega
  constructor
  · change 0 < 1 <<< (-(x.exponent - 2)).toNat
    rw [Nat.shiftLeft_eq]
    positivity
  · change (4 * x.significand - x.reach) * _ < 4 * x.significand * _
    exact Nat.mul_lt_mul_of_pos_right (by omega) hscale
  · change 4 * x.significand * _ < (4 * x.significand + 2) * _
    exact Nat.mul_lt_mul_of_pos_right (by omega) hscale

theorem catches_of_holds (hs : x.significand ≠ 0) {v : ℚ} (h : (intervalOf x).Holds v) :
    x.Catches v := by
  obtain ⟨hlow, hhigh, hends⟩ := h
  rw [low_intervalOf hs] at hlow hends
  rw [high_intervalOf] at hhigh hends
  exact ⟨hlow, hhigh, fun h => by simpa [intervalOf, Interval.of] using hends h⟩

/-- Seventeen digits tell a double from its neighbours. -/
theorem pow_lt_width (hx : x.isFinite = true) {length : ℤ}
    (hl : (10 : ℚ) ^ (length - 1) ≤ x.significand * 2 ^ x.exponent) :
    (10 : ℚ) ^ (length - 17) < x.highEnd - x.lowEnd := by
  have hsig : (x.significand : ℚ) < 2 ^ 53 := by
    exact_mod_cast (parts_of_isFinite hx).significand_lt
  have hpos : (0 : ℚ) < 2 ^ (x.exponent - 2) := by positivity
  have hunit : (2 : ℚ) ^ x.exponent = 2 ^ 2 * 2 ^ (x.exponent - 2) := two_pow_quarters 2 (by omega)
  have hstep : (10 : ℚ) ^ (length - 1) = 10 ^ (length - 17) * 10 ^ 16 := by
    have hsum : length - 1 = length - 17 + (16 : ℕ) := by
      push_cast
      omega
    rw [hsum, zpow_add₀ (by norm_num), zpow_natCast]
  rw [hunit, hstep] at hl
  unfold highEnd lowEnd
  by_cases hreach : x.reach = 1
  · have hsig : (x.significand : ℚ) = 2 ^ 52 := by exact_mod_cast (reach_eq_one hreach).1
    rw [hsig] at hl
    rw [hreach]
    push_cast
    nlinarith
  · have hreach : x.reach = 2 := by
      unfold reach at *
      split at * <;> simp_all
    rw [hreach]
    push_cast
    nlinarith

theorem two_pow_le_ten_pow : (2 : ℚ) ^ 1075 ≤ 10 ^ 400 := by
  have hstep : (2 : ℚ) ^ 43 ≤ 10 ^ 16 := by norm_num
  have hpow := pow_le_pow_left₀ (by positivity) hstep 25
  rwa [← pow_mul, ← pow_mul] at hpow

/-- No double is too small for the search to find its first digit. -/
theorem denominator_le (hx : x.isFinite = true) (hs : x.significand ≠ 0) :
    (intervalOf x).denominator ≤ (intervalOf x).value * 10 ^ 400 := by
  have hden : (0 : ℚ) < (intervalOf x).denominator := by
    exact_mod_cast (proper_intervalOf hs).denominator
  have hone : (1 : ℚ) ≤ x.significand := by exact_mod_cast Nat.one_le_iff_ne_zero.mpr hs
  have hpower : (1 : ℚ) ≤ 2 ^ x.exponent * 10 ^ 400 := by
    have hlow : (2 : ℚ) ^ (-1075 : ℤ) ≤ 2 ^ x.exponent :=
      zpow_le_zpow_right₀ one_le_two (by have := (parts_of_isFinite hx).low; omega)
    have hcancel : (1 : ℚ) = 2 ^ (-1075 : ℤ) * 2 ^ 1075 := by
      rw [← zpow_natCast, ← zpow_add₀ two_ne_zero]
      rfl
    rw [hcancel]
    exact mul_le_mul hlow two_pow_le_ten_pow (by positivity) (by positivity)
  have hvalue : (1 : ℚ) ≤ (intervalOf x).value / (intervalOf x).denominator * 10 ^ 400 := by
    rw [value_intervalOf, mul_assoc]
    exact hpower.trans (le_mul_of_one_le_left (zero_le_one.trans hpower) hone)
  rw [div_mul_eq_mul_div, le_div_iff₀ hden, one_mul] at hvalue
  exact_mod_cast hvalue

theorem lt_of_ten_zpow_lt {a b : ℤ} (h : (10 : ℚ) ^ a < 10 ^ b) : a < b :=
  (zpow_lt_zpow_iff_right₀ (by norm_num)).mp h

/-- What is in the interval of a double is neither far above nor far below one. -/
theorem bounds_of_catches (hx : x.isFinite = true) (hs : x.significand ≠ 0) {v : ℚ}
    (h : x.Catches v) : (10 : ℚ) ^ (-400 : ℤ) ≤ v ∧ v < 10 ^ (316 : ℤ) := by
  obtain ⟨hexpLow, hexpHigh, hsig, -, -⟩ := parts_of_isFinite hx
  constructor
  · have hone : (1 : ℚ) ≤ x.significand := by exact_mod_cast Nat.one_le_iff_ne_zero.mpr hs
    have hreach : (x.reach : ℚ) ≤ 2 := by exact_mod_cast x.reach_le
    have hunit : (2 : ℚ) ^ (-1076 : ℤ) ≤ 2 ^ (x.exponent - 2) :=
      zpow_le_zpow_right₀ one_le_two (by omega)
    have hlow : (2 : ℚ) * 2 ^ (-1076 : ℤ) ≤ x.lowEnd :=
      mul_le_mul (by linarith) hunit (by positivity) (by linarith)
    have hten : (10 : ℚ) ^ (-400 : ℤ) ≤ 2 ^ (-1075 : ℤ) := by
      rw [zpow_neg, zpow_neg]
      exact inv_anti₀ (by positivity) (by exact_mod_cast two_pow_le_ten_pow)
    have hhalf : (2 : ℚ) * 2 ^ (-1076 : ℤ) = 2 ^ (-1075 : ℤ) := by
      rw [← zpow_one_add₀ two_ne_zero]
      rfl
    exact hten.trans (hhalf ▸ hlow.trans h.low)
  · have hsig : (4 * x.significand + 2 : ℚ) < 2 ^ 55 := by
      have hle : (x.significand : ℚ) + 1 ≤ 2 ^ 53 := by exact_mod_cast hsig
      linarith
    have hunit : (2 : ℚ) ^ (x.exponent - 2) ≤ 2 ^ (972 : ℤ) :=
      zpow_le_zpow_right₀ one_le_two (by omega)
    have hhigh : x.highEnd < 2 ^ 55 * 2 ^ (972 : ℤ) :=
      mul_lt_mul hsig hunit (by positivity) (by positivity)
    have hten : (2 : ℚ) ^ 1027 ≤ 10 ^ 316 := by
      have hstep : (2 : ℚ) ^ 13 ≤ 10 ^ 4 := by norm_num
      have hpow := pow_le_pow_left₀ (by positivity) hstep 79
      rwa [← pow_mul, ← pow_mul] at hpow
    have hsum : (2 : ℚ) ^ 55 * 2 ^ (972 : ℤ) = 2 ^ 1027 := by
      rw [← zpow_natCast, ← zpow_natCast, ← zpow_add₀ two_ne_zero]
      rfl
    refine (h.high.trans_lt hhigh).trans_le ?_
    rw [hsum]
    exact_mod_cast hten

/-- The shortest digits lie in the interval of the double. -/
theorem catches_shortest (hx : x.isFinite = true) (hs : x.significand ≠ 0) (tie : Tie) :
    x.Catches (x.shortest tie).value ∧ -416 ≤ (x.shortest tie).exponent := by
  have hproper := proper_intervalOf hs
  obtain ⟨hpow, hlength⟩ := pow_decimalLength_le hproper.denominator (denominator_le hx hs)
  rw [value_intervalOf] at hpow
  have hwidth := pow_lt_width hx hpow
  rw [← low_intervalOf hs, ← high_intervalOf] at hwidth
  have hfound : (intervalOf x).onGrid? tie ((intervalOf x).decimalLength - ((1 : ℕ) + (16 : ℕ))) ≠
      none := onGrid?_ne_none hproper hwidth
  obtain ⟨d, grid, hgrid, hle, hsearch⟩ := exists_search_eq (intervalOf x) tie hfound
  have hshortest : x.shortest tie = DecimalDigits.stripped 20 ⟨d, grid⟩ := by
    unfold Binary64.shortest
    rw [if_neg hs]
    exact hsearch
  rw [hshortest, DecimalDigits.value_stripped]
  refine ⟨catches_of_holds hs (holds_of_onGrid? hproper hgrid), ?_⟩
  have hexp := DecimalDigits.exponent_le_stripped 20 ⟨d, grid⟩
  dsimp only at hexp
  push_cast at hle
  omega

end Shortest
end SpanRelay
