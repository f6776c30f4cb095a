import SpanRelay.Number.DecimalText
import SpanRelay.Number.Layout
import SpanRelay.Proofs.Number.Shortest

/-!
Numbers as digits with a point and an exponent. Wherever a layout puts the point, the text stands
for the digits that it was given.
-/
namespace SpanRelay

open Binary64 Shortest

namespace DecimalText

/-! ## Digits -/

theorem digitValue_eq (digits : List Char) : digitValue digits = Nat.ofDigitChars 10 digits 0 := by
  unfold digitValue Nat.ofDigitChars
  congr
  funext n c
  rw [Nat.mul_comm]

@[simp] theorem digitValue_toDigits (n : ℕ) : digitValue (Nat.toDigits 10 n) = n := by
  rw [digitValue_eq, Nat.ofDigitChars_ten_toDigits]

theorem digitValue_append (front back : List Char) :
    digitValue (front ++ back) = digitValue front * 10 ^ back.length + digitValue back := by
  rw [digitValue_eq, Nat.ofDigitChars_append, Nat.ofDigitChars_eq_ofDigitChars_zero,
    ← digitValue_eq, ← digitValue_eq, Nat.mul_comm]

@[simp] theorem digitValue_zeros (n : ℕ) : digitValue (Layout.zeros n) = 0 := by
  simp [digitValue_eq, Layout.zeros]

/-- Only digits. -/
def Digits (text : List Char) : Prop := ∀ c ∈ text, c.isDigit = true

instance (text : List Char) : Decidable (Digits text) := List.decidableBAll _ text

theorem digits_toDigits (n : ℕ) : Digits (Nat.toDigits 10 n) := fun _ hc =>
  Nat.isDigit_of_mem_toDigits (by decide) (by decide) hc

theorem digits_zeros (n : ℕ) : Digits (Layout.zeros n) := by
  intro c hc
  rw [List.eq_of_mem_replicate hc]
  decide

theorem digits_append {front back : List Char} :
    Digits (front ++ back) ↔ Digits front ∧ Digits back := List.forall_mem_append

theorem Digits.of_subset {text more : List Char} (h : Digits text) (hs : more ⊆ text) :
    Digits more := fun c hc => h c (hs hc)

theorem digitValue_cons (c : Char) (rest : List Char) :
    digitValue (c :: rest) = (c.toNat - 48) * 10 ^ rest.length + digitValue rest := by
  rw [← List.singleton_append, digitValue_append]
  simp [digitValue]

theorem digitValue_lt {digits : List Char} (h : Digits digits) :
    digitValue digits < 10 ^ digits.length := by
  induction digits with
  | nil => decide
  | cons c rest ih =>
    have hrest := ih (h.of_subset (List.subset_cons_self ..))
    have hc : 48 ≤ c.toNat ∧ c.toNat ≤ 57 := Char.isDigit_iff_toNat.mp (h c List.mem_cons_self)
    have hfront : (c.toNat - 48) * 10 ^ rest.length ≤ 9 * 10 ^ rest.length :=
      Nat.mul_le_mul_right _ (by omega)
    rw [digitValue_cons, List.length_cons, pow_succ]
    omega

/-- A leading digit other than zero counts. -/
theorem le_digitValue {c : Char} {rest : List Char} (h : c.isDigit = true) (hc : c ≠ '0') :
    10 ^ rest.length ≤ digitValue (c :: rest) := by
  have hrange : 48 ≤ c.toNat ∧ c.toNat ≤ 57 := Char.isDigit_iff_toNat.mp h
  have hne : c.toNat ≠ 48 := fun heq => hc (Char.toNat_inj.mp heq)
  have hfront : 1 * 10 ^ rest.length ≤ (c.toNat - 48) * 10 ^ rest.length :=
    Nat.mul_le_mul_right _ (by omega)
  rw [digitValue_cons]
  omega

end DecimalText

open DecimalText

/-! ## Numerals -/

/-- Digits, more of them behind a point, and an exponent; the last two may be missing. -/
structure Numeral where
  whole : List Char
  fraction : List Char
  power : List Char

namespace Numeral

def marked (mark : Char) : List Char → List Char
  | [] => []
  | text => mark :: text

def text (n : Numeral) : List Char := n.whole ++ (marked '.' n.fraction ++ marked 'e' n.power)

def signed (plus : Bool) (e : ℤ) : List Char :=
  (if e < 0 then ['-'] else if plus then ['+'] else []) ++ Nat.toDigits 10 e.natAbs

inductive Power : List Char → ℤ → Prop where
  | none : Power [] 0
  | signed (plus : Bool) {e : ℤ} (h : e.natAbs < 65536) : Power (signed plus e) e

/-- Digits stand before the point, and a zero does not stand in front of others. -/
structure Formed (n : Numeral) : Prop where
  whole : Digits n.whole
  whole_ne : n.whole ≠ []
  leading : n.whole.head? = some '0' → n.whole.length = 1
  fraction : Digits n.fraction

/-- A numeral that stands for this number, with not too many digits. -/
structure Denotes (n : Numeral) (v : ℚ) : Prop extends Formed n where
  length : (n.whole ++ n.fraction).length ≤ decisiveDigits
  value : ∃ e, Power n.power e ∧
    (digitValue (n.whole ++ n.fraction) : ℚ) * 10 ^ (e - n.fraction.length) = v

theorem marked_of_ne {text : List Char} (h : text ≠ []) (mark : Char) :
    marked mark text = mark :: text := by
  obtain ⟨c, text, rfl⟩ := List.exists_cons_of_ne_nil h
  rfl

theorem Formed.head_digit {n : Numeral} (h : n.Formed) :
    ∀ c ∈ n.text.head?, c.isDigit = true := by
  obtain ⟨d, rest, hwhole⟩ := List.exists_cons_of_ne_nil h.whole_ne
  intro c hc
  rw [text, hwhole] at hc
  obtain rfl := Option.some.inj hc
  exact h.whole d (hwhole ▸ List.mem_cons_self)

theorem isAscii_of_isDigit {c : Char} (h : c.isDigit = true) : c.toNat < 0x80 := by
  have hrange : 48 ≤ c.toNat ∧ c.toNat ≤ 57 := Char.isDigit_iff_toNat.mp h
  omega

theorem Power.isAscii {power : List Char} {e : ℤ} (h : Power power e) :
    ∀ c ∈ power, c.toNat < 0x80 := by
  cases h with
  | none => simp
  | signed plus h =>
    intro c hc
    rcases List.mem_append.mp hc with hc | hc
    · split_ifs at hc <;> simp at hc <;> simp [hc]
    · exact isAscii_of_isDigit (digits_toDigits _ c hc)

theorem Formed.isAscii {n : Numeral} (h : n.Formed) {e : ℤ} (hp : Power n.power e) :
    ∀ c ∈ n.text, c.toNat < 0x80 := by
  have hmarked : ∀ mark : Char, mark.toNat < 0x80 → ∀ text : List Char,
      (∀ c ∈ text, c.toNat < 0x80) → ∀ c ∈ marked mark text, c.toNat < 0x80 := by
    intro mark hm text ht c hc
    cases text with
    | nil => simp [marked] at hc
    | cons d text =>
      rcases List.mem_cons.mp hc with rfl | hc
      · exact hm
      · exact ht c hc
  intro c hc
  rcases List.mem_append.mp hc with hc | hc
  · exact isAscii_of_isDigit (h.whole c hc)
  rcases List.mem_append.mp hc with hc | hc
  · exact hmarked '.' (by decide) _ (fun c hc => isAscii_of_isDigit (h.fraction c hc)) c hc
  · exact hmarked 'e' (by decide) _ hp.isAscii c hc

end Numeral

open Numeral

/-! ## Layouts -/

namespace Layout

/-- Digits without a zero in front, unless it stands alone for zero. -/
def Plain (digits : List Char) (e : ℤ) : Prop :=
  Digits digits ∧ digits ≠ [] ∧ (digits.head? = some '0' → digits.length = 1 ∧ e = 0)

theorem denotes_positionalText (pointZero : Bool) {digits : List Char} {e : ℤ} (h : Plain digits e)
    (hl : digits.length < decisiveDigits) (hlow : -decisiveDigits < e)
    (hhigh : digits.length + e < decisiveDigits) :
    ∃ n : Numeral, n.text = positionalText pointZero digits e ∧
      n.Denotes (digitValue digits * 10 ^ e) := by
  obtain ⟨hd, hne, hlead⟩ := h
  obtain ⟨c, rest, hcons⟩ := List.exists_cons_of_ne_nil hne
  unfold positionalText
  dsimp only
  by_cases he : 0 ≤ e
  · -- all digits stand before the point
    obtain ⟨k, rfl⟩ := Int.eq_ofNat_of_zero_le he
    have hwhole : Digits (digits ++ zeros k) := digits_append.mpr ⟨hd, digits_zeros k⟩
    have hvalue : (digitValue (digits ++ zeros k) : ℚ) = digitValue digits * 10 ^ (k : ℤ) := by
      rw [digitValue_append, digitValue_zeros, zpow_natCast]
      simp [zeros]
    have hleading : (digits ++ zeros k).head? = some '0' → (digits ++ zeros k).length = 1 := by
      intro hzero
      have hzero : digits.head? = some '0' := by simpa [hcons] using hzero
      obtain ⟨hone, hk⟩ := hlead hzero
      simp [zeros]
      omega
    have hlength : (digits ++ zeros k).length < decisiveDigits := by
      simp [zeros]
      omega
    rw [if_pos he, Int.toNat_natCast]
    cases pointZero with
    | true =>
      refine ⟨⟨digits ++ zeros k, ['0'], []⟩, by simp [Numeral.text, marked],
        ⟨⟨hwhole, by simp [hne], hleading, (by decide : Digits ['0'])⟩, ?_, 0, .none, ?_⟩⟩
      · rw [List.length_append]
        exact hlength
      · rw [digitValue_append, Nat.cast_add, Nat.cast_mul, hvalue]
        simp [digitValue]
    | false =>
      refine ⟨⟨digits ++ zeros k, [], []⟩, by simp [Numeral.text, marked],
        ⟨⟨hwhole, by simp [hne], hleading, by simp [Digits]⟩, ?_, 0, .none, ?_⟩⟩
      · rw [List.append_nil]
        exact hlength.le
      · rw [List.append_nil, hvalue]
        simp
  · rw [if_neg he]
    obtain ⟨k, hk⟩ : ∃ k : ℤ, digits.length + e = k := ⟨_, rfl⟩
    rw [hk]
    split
    next hpoint =>
      -- the point stands between the digits
      obtain ⟨k, rfl⟩ := Int.eq_ofNat_of_zero_le hpoint.le
      have hback : e = 0 - (digits.drop k).length := by
        rw [List.length_drop]
        omega
      have hdrop : digits.drop k ≠ [] := by
        rw [Ne, List.drop_eq_nil_iff]
        omega
      have htake : (digits.take k).head? = digits.head? := by
        rw [hcons]
        cases k with
        | zero => simp at hpoint
        | succ k => rfl
      have hfront : digits.take k ≠ [] := by
        intro hnil
        rw [hnil, hcons] at htake
        contradiction
      refine ⟨⟨digits.take k, digits.drop k, []⟩, ?_,
        ⟨⟨hd.of_subset (List.take_subset k digits), hfront, ?_,
          hd.of_subset (List.drop_subset k digits)⟩, ?_, 0, .none, ?_⟩⟩
      · rw [Numeral.text, marked_of_ne hdrop]
        simp [marked]
      · intro hzero
        have hone := (hlead (htake ▸ hzero)).1
        omega
      · rw [List.take_append_drop]
        exact hl.le
      · rw [List.take_append_drop, ← hback]
    next hpoint =>
      -- zeros stand between the point and the digits
      obtain ⟨k', hk'⟩ := Int.eq_ofNat_of_zero_le (by omega : 0 ≤ -k)
      have hlength : (zeros k' ++ digits).length = k' + digits.length := by simp [zeros]
      have hback : e = 0 - (zeros k' ++ digits).length := by
        rw [hlength]
        push_cast
        omega
      have hfraction : zeros k' ++ digits ≠ [] := by simp [hne]
      rw [hk', Int.toNat_natCast]
      refine ⟨⟨['0'], zeros k' ++ digits, []⟩, ?_,
        ⟨⟨(by decide : Digits ['0']), by simp, fun _ => rfl,
          digits_append.mpr ⟨digits_zeros k', hd⟩⟩, ?_, 0, .none, ?_⟩⟩
      · rw [Numeral.text, marked_of_ne hfraction]
        simp [marked]
      · rw [List.length_append, hlength]
        simp
        omega
      · rw [← hback, digitValue_append, digitValue_append, digitValue_zeros]
        simp [digitValue]

theorem denotes_scientificText (exponentPlus : Bool) {digits : List Char} {e : ℤ}
    (hd : Digits digits) (hne : digits ≠ []) (hl : digits.length ≤ decisiveDigits)
    (hsmall : (digits.length + e - 1).natAbs < 65536) :
    ∃ n : Numeral, n.text = scientificText exponentPlus digits (digits.length + e - 1) ∧
      n.Denotes (digitValue digits * 10 ^ e) := by
  obtain ⟨c, rest, rfl⟩ := List.exists_cons_of_ne_nil hne
  obtain ⟨scientific, hscientific⟩ : ∃ s : ℤ, (c :: rest).length + e - 1 = s := ⟨_, rfl⟩
  rw [hscientific] at hsmall ⊢
  have hexp : scientific - rest.length = e := by
    rw [← hscientific]
    simp
    ring
  have hpower : signed exponentPlus scientific ≠ [] := by simp [signed]
  refine ⟨⟨[c], rest, signed exponentPlus scientific⟩, ?_,
    ⟨⟨hd.of_subset (by simp), by simp, fun _ => rfl,
      hd.of_subset (List.subset_cons_self c rest)⟩, hl, scientific, .signed exponentPlus hsmall,
      ?_⟩⟩
  · rw [Numeral.text, marked_of_ne hpower]
    cases rest <;> simp [scientificText, marked, signed]
  · rw [hexp]
    rfl

/-! ## Doubles -/

variable {x : Binary64}

/-- The digits of a double are few, and the point is not far from them. -/
theorem length_shortest (hx : x.isFinite = true) (hs : x.significand ≠ 0) (tie : Tie) :
    (Nat.toDigits 10 (x.shortest tie).digits).length < 733 ∧
    (Nat.toDigits 10 (x.shortest tie).digits).length + (x.shortest tie).exponent ≤ 316 := by
  obtain ⟨hcatches, hexponent⟩ := catches_shortest hx hs tie
  have hbound := (bounds_of_catches hx hs hcatches).2
  have hpos := hcatches.pos hs
  generalize x.shortest tie = d at *
  unfold DecimalDigits.value at hbound hpos
  have hne : d.digits ≠ 0 := by
    intro hzero
    simp [hzero] at hpos
  obtain ⟨k, hk, hpow⟩ := exists_length_toDigits hne
  have hlt : k + d.exponent < 316 := by
    have hcast : (10 : ℚ) ^ k ≤ d.digits := by exact_mod_cast hpow
    apply lt_of_ten_zpow_lt
    rw [zpow_add₀ (by norm_num), zpow_natCast]
    exact (mul_le_mul_of_nonneg_right hcast (by positivity)).trans_lt hbound
  omega


theorem plain_toDigits {n : ℕ} {e : ℤ} (h : n = 0 → e = 0) : Plain (Nat.toDigits 10 n) e := by
  refine ⟨digits_toDigits n, Nat.toDigits_ne_nil, fun hhead => ?_⟩
  by_cases hn : n = 0
  · subst hn
    exact ⟨rfl, h rfl⟩
  · -- a zero in front would make the number too small for its digits
    obtain ⟨k, hk, hpow⟩ := exists_length_toDigits hn
    have hdigits := digits_toDigits n
    have hvalue := digitValue_toDigits n
    cases hcons : Nat.toDigits 10 n with
    | nil => simp [hcons] at hhead
    | cons c rest =>
      rw [hcons] at hhead hk hdigits hvalue
      obtain rfl := Option.some.inj hhead
      have hlt := digitValue_lt (hdigits.of_subset (List.subset_cons_self _ rest))
      rw [digitValue_cons] at hvalue
      simp at hvalue hk
      subst hk
      omega

theorem text_of_isFinite (l : Layout) (hx : x.isFinite = true) :
    l.text x = if x.negative then '-' :: l.magnitudeText x else l.magnitudeText x := by
  have hfinite : x.magnitudeBits < infinityBits := of_decide_eq_true hx
  have hnan : x.isNaN = false := by simp [isNaN, hfinite.le]
  have hinf : x.isInfinite = false := by simp [isInfinite, hfinite.ne]
  simp only [text, hnan, hinf, Bool.false_eq_true, if_false]

/-- The text of a finite magnitude is a numeral for its shortest digits. -/
theorem exists_numeral (l : Layout) (hx : x.isFinite = true) :
    ∃ n : Numeral, n.text = l.magnitudeText x ∧ n.Denotes (x.shortest l.tie).value := by
  have hsmall : (Nat.toDigits 10 (x.shortest l.tie).digits).length < 733 ∧
      (Nat.toDigits 10 (x.shortest l.tie).digits).length + (x.shortest l.tie).exponent ≤ 316 ∧
      -416 ≤ (x.shortest l.tie).exponent ∧
      ((x.shortest l.tie).digits = 0 → (x.shortest l.tie).exponent = 0) := by
    by_cases hs : x.significand = 0
    · have hzero : x.shortest l.tie = ⟨0, 0⟩ := if_pos hs
      rw [hzero]
      decide
    · obtain ⟨hlength, hpoint⟩ := length_shortest hx hs l.tie
      obtain ⟨hcatches, hexponent⟩ := catches_shortest hx hs l.tie
      refine ⟨hlength, hpoint, hexponent, fun hzero => ?_⟩
      have hpos := hcatches.pos hs
      simp [DecimalDigits.value, hzero] at hpos
  have hvalue : (x.shortest l.tie).value = digitValue (Nat.toDigits 10 (x.shortest l.tie).digits) *
      10 ^ (x.shortest l.tie).exponent := by
    rw [digitValue_toDigits]
    rfl
  rw [hvalue]
  unfold magnitudeText
  extract_lets d digits scientific inRange
  change digits.length < 733 ∧ digits.length + d.exponent ≤ 316 ∧ -416 ≤ d.exponent ∧
    (d.digits = 0 → d.exponent = 0) at hsmall
  obtain ⟨hlength, hpoint, hexponent, hzero⟩ := hsmall
  have hplain : Plain digits d.exponent := plain_toDigits hzero
  have hmany : decisiveDigits = 800 := rfl
  split
  · exact denotes_positionalText l.pointZero hplain (by omega) (by omega) (by omega)
  · exact denotes_scientificText l.exponentPlus hplain.1 hplain.2.1 (by omega) (by omega)

end Layout
end SpanRelay
