import SpanRelay.Proofs.Number.Numerals

/-!
The text of a finite double reads back as that double, in whatever layout it is written: the text
stands for the shortest digits, and the nearest double of those is the one that was written.
-/
namespace SpanRelay.DecimalText

open Binary64 Shortest

theorem digitValue_dropWhile (digits : List Char) :
    digitValue (digits.dropWhile (· == '0')) = digitValue digits := by
  induction digits with
  | nil => rfl
  | cons c rest ih =>
    rw [List.dropWhile_cons]
    split
    next h =>
      obtain rfl : c = '0' := by simpa using h
      rw [ih, digitValue_cons]
      simp
    next => rfl

theorem head_dropWhile (digits : List Char) :
    ∀ c ∈ (digits.dropWhile (· == '0')).head?, c ≠ '0' := by
  intro c hc hzero
  have hnot := List.head?_dropWhile_not (· == '0') digits
  rw [Option.mem_def.mp hc, hzero] at hnot
  simp at hnot

/-! ## The nearest double -/

theorem nearest_zero (negative : Bool) {digits : List Char} (hd : Digits digits)
    (h : digitValue digits = 0) (e : ℤ) : nearest negative digits e = .make negative 0 := by
  have hnil : digits.dropWhile (· == '0') = [] := by
    rw [← digitValue_dropWhile] at h
    have hd : Digits (digits.dropWhile (· == '0')) := hd.of_subset (List.dropWhile_subset _)
    have hfirst := head_dropWhile digits
    generalize digits.dropWhile (· == '0') = digits at *
    cases digits with
    | nil => rfl
    | cons c rest =>
      have hle : 10 ^ rest.length ≤ digitValue (c :: rest) :=
        le_digitValue (hd c List.mem_cons_self) (hfirst c rfl)
      have hpos : 0 < 10 ^ rest.length := Nat.pow_pos (by decide)
      omega
  unfold nearest
  simp only [hnil, List.isEmpty_nil, if_true]

variable {x : Binary64}

/-- Digits that are in the interval of a double are read as that double. -/
theorem nearest_of_catches (hx : x.isFinite = true) (hs : x.significand ≠ 0) (negative : Bool)
    {digits : List Char} (hd : Digits digits) (hl : digits.length ≤ decisiveDigits) {e : ℤ}
    (h : x.Catches (digitValue digits * 10 ^ e)) :
    nearest negative digits e = .make negative x.magnitudeBits := by
  rw [← digitValue_dropWhile] at h
  unfold nearest
  have hd : Digits (digits.dropWhile (· == '0')) := hd.of_subset (List.dropWhile_subset _)
  have hl : (digits.dropWhile (· == '0')).length ≤ decisiveDigits :=
    (List.dropWhile_suffix _).length_le.trans hl
  have hfirst := head_dropWhile digits
  generalize digits.dropWhile (· == '0') = digits at *
  cases digits with
  | nil =>
    have hpos := h.pos hs
    simp [digitValue] at hpos
  | cons c rest =>
    have hc : c ≠ '0' := hfirst c rfl
    obtain ⟨hlow, hhigh⟩ := bounds_of_catches hx hs h
    have hsize : e + rest.length < 316 := by
      have hcount : (10 : ℚ) ^ rest.length ≤ digitValue (c :: rest) := by
        exact_mod_cast le_digitValue (hd c List.mem_cons_self) hc
      apply lt_of_ten_zpow_lt
      rw [add_comm, zpow_add₀ (by norm_num), zpow_natCast]
      exact (mul_le_mul_of_nonneg_right hcount (by positivity)).trans_lt hhigh
    have hsmall : -400 < e + rest.length + 1 := by
      have hcount : (digitValue (c :: rest) : ℚ) < 10 ^ (c :: rest).length := by
        exact_mod_cast digitValue_lt hd
      have hexp : e + rest.length + 1 = (c :: rest).length + e := by
        simp
        ring
      apply lt_of_ten_zpow_lt
      rw [hexp, zpow_add₀ (by norm_num), zpow_natCast]
      exact hlow.trans_lt (mul_lt_mul_of_pos_right hcount (by positivity))
    have hlength : ((c :: rest).length : ℤ) = rest.length + 1 := by simp
    have hdrop : (c :: rest).drop decisiveDigits = [] := List.drop_eq_nil_of_le hl
    have htake : (c :: rest).take decisiveDigits = c :: rest := List.take_of_length_le hl
    simp only [List.isEmpty_cons, hlength, hdrop, htake]
    rw [if_neg (by simp), if_neg (by omega), if_neg (by omega)]
    simp only [List.all_nil, if_true, List.length_nil]
    unfold Binary64.ofRatio
    congr 1
    have hvalue :
        (((digitValue (c :: rest) * 10 + 0) * Nat.pow 10 (e + (0 : ℕ) - 1).toNat : ℕ) : ℚ) /
          (Nat.pow 10 (-(e + (0 : ℕ) - 1)).toNat : ℕ) = digitValue (c :: rest) * 10 ^ e := by
      have hstep : (10 : ℚ) ^ e = 10 * 10 ^ (e + (0 : ℕ) - 1) := by
        rw [← zpow_one_add₀ (by norm_num)]
        congr 1
        push_cast
        ring
      rw [Nat.cast_mul, mul_div_assoc, ← ten_zpow_eq, hstep]
      push_cast
      ring
    rw [← hvalue] at h
    exact roundMagnitude_of_catches hx hs (Nat.pow_pos (by decide)) h

/-! ## Numerals -/

theorem span_digits {digits rest : List Char} (hd : Digits digits)
    (hr : ∀ c ∈ rest.head?, c.isDigit = false) :
    (digits ++ rest).span Char.isDigit = (digits, rest) := by
  rw [List.span_eq_takeWhile_dropWhile, List.takeWhile_append_of_pos hd,
    List.dropWhile_append_of_pos hd]
  cases rest with
  | nil => simp
  | cons c rest => simp [hr c rfl]

theorem toLower_of_isDigit {c : Char} (h : c.isDigit = true) : c.toLower = c := by
  have hrange : 48 ≤ c.toNat ∧ c.toNat ≤ 57 := Char.isDigit_iff_toNat.mp h
  have hsmall : ∀ n : Fin 128, 48 ≤ n.val ∧ n.val ≤ 57 →
      (Char.ofNat n.val).toLower = Char.ofNat n.val := by decide
  simpa using hsmall ⟨c.toNat, by omega⟩ hrange

/-- Text that begins with a digit is no name. -/
theorem name_ne {digits rest name : List Char} {d : Char} (hd : Digits digits) (hne : digits ≠ [])
    (hname : d.isDigit = false) : ((digits ++ rest).map Char.toLower == d :: name) = false := by
  obtain ⟨c, digits, rfl⟩ := List.exists_cons_of_ne_nil hne
  have hc := hd c List.mem_cons_self
  rw [beq_eq_false_iff_ne]
  intro h
  rw [List.cons_append, List.map_cons, toLower_of_isDigit hc] at h
  obtain rfl := (List.cons.inj h).1
  rw [hc] at hname
  contradiction

/-- Small exponents are read in full. -/
theorem exponentSize_eq {digits : List Char} (h : digitValue digits < 65536) :
    exponentSize digits = digitValue digits := by
  suffices hfold : ∀ start, Nat.ofDigitChars 10 digits start < 65536 →
      digits.foldl (fun n c => if n < 65536 then n * 10 + (c.toNat - '0'.toNat) else n) start =
        Nat.ofDigitChars 10 digits start by
    rw [digitValue_eq] at h ⊢
    exact hfold 0 h
  clear h
  induction digits with
  | nil => simp
  | cons c rest ih =>
    intro start h
    rw [Nat.ofDigitChars_cons] at h ⊢
    have hstart : start < 65536 := by
      rw [Nat.ofDigitChars_eq_ofDigitChars_zero] at h
      have hpow : 1 ≤ 10 ^ rest.length := Nat.one_le_pow _ _ (by decide)
      nlinarith
    rw [List.foldl_cons, if_pos hstart, Nat.mul_comm start 10]
    exact ih _ h

theorem exponent?_signed (plus : Bool) {e : ℤ} (h : e.natAbs < 65536) :
    exponent? (Numeral.signed plus e) = some e := by
  have hdigits : (Nat.toDigits 10 e.natAbs).all Char.isDigit = true :=
    List.all_eq_true.mpr (digits_toDigits e.natAbs)
  have hne : Nat.toDigits 10 e.natAbs ≠ [] := Nat.toDigits_ne_nil
  have hvalue := digitValue_toDigits e.natAbs
  have hsize : exponentSize (Nat.toDigits 10 e.natAbs) = e.natAbs :=
    (exponentSize_eq (hvalue.symm ▸ h)).trans hvalue
  unfold exponent? Numeral.signed
  by_cases hneg : e < 0
  · simp [hneg, hne, hdigits, hsize, abs_of_neg hneg]
  · have habs : |e| = e := abs_of_nonneg (not_lt.mp hneg)
    cases plus with
    | true => simp [hneg, hne, hdigits, hsize, habs]
    | false =>
      obtain ⟨c, rest, hcons⟩ := List.exists_cons_of_ne_nil hne
      have hc : c.isDigit = true := digits_toDigits e.natAbs c (hcons ▸ List.mem_cons_self)
      simp only [hneg, if_false, Bool.false_eq_true, List.nil_append]
      split
      next r hminus =>
        obtain rfl := (List.cons.inj (hcons.symm.trans hminus)).1
        contradiction
      next r hplus =>
        obtain rfl := (List.cons.inj (hcons.symm.trans hplus)).1
        contradiction
      next => simp [hne, hdigits, hsize, habs]

/-- What may follow the digits: an exponent, or nothing. -/
inductive Tail : List Char → ℤ → Prop where
  | none : Tail [] 0
  | exponent {text : List Char} {e : ℤ} (h : exponent? text = some e) : Tail ('e' :: text) e

theorem tail_of_power {power : List Char} {e : ℤ} (h : Numeral.Power power e) :
    Tail (Numeral.marked 'e' power) e := by
  cases h with
  | none => exact .none
  | signed plus hsmall =>
    have hsigned : Numeral.signed plus e ≠ [] := by simp [Numeral.signed]
    rw [Numeral.marked_of_ne hsigned]
    exact .exponent (exponent?_signed plus hsmall)

theorem Tail.head_not_digit {tail : List Char} {e : ℤ} (h : Tail tail e) :
    ∀ c ∈ tail.head?, c.isDigit = false := by
  intro c hc
  cases h with
  | none => contradiction
  | exponent h =>
    obtain rfl := Option.some.inj hc
    decide

theorem magnitude?_whole {digits tail : List Char} {e : ℤ} (hd : Digits digits)
    (hne : digits ≠ []) (ht : Tail tail e) (negative : Bool) :
    magnitude? negative (digits ++ tail) = some (nearest negative digits e) := by
  unfold magnitude?
  simp only [name_ne hd hne (by decide : 'i'.isDigit = false),
    name_ne hd hne (by decide : 'n'.isDigit = false), span_digits hd ht.head_not_digit]
  cases ht with
  | none => simp [hne]
  | exponent h => simp [hne, h]

theorem magnitude?_point {whole fraction tail : List Char} {e : ℤ} (hw : Digits whole)
    (hne : whole ≠ []) (hf : Digits fraction) (ht : Tail tail e) (negative : Bool) :
    magnitude? negative (whole ++ '.' :: (fraction ++ tail)) =
      some (nearest negative (whole ++ fraction) (e - fraction.length)) := by
  have hpoint : ∀ c ∈ ('.' :: (fraction ++ tail)).head?, c.isDigit = false := by
    intro c hc
    obtain rfl := Option.some.inj hc
    decide
  unfold magnitude?
  simp only [name_ne hw hne (by decide : 'i'.isDigit = false),
    name_ne hw hne (by decide : 'n'.isDigit = false), span_digits hw hpoint,
    span_digits hf ht.head_not_digit]
  cases ht with
  | none => simp [hne]
  | exponent h => simp [hne, h]

/-- A numeral is read as the nearest double of its digits. -/
theorem magnitude?_text {n : Numeral} {v : ℚ} (h : n.Denotes v) :
    ∃ e, (digitValue (n.whole ++ n.fraction) : ℚ) * 10 ^ e = v ∧ ∀ negative,
      magnitude? negative n.text = some (nearest negative (n.whole ++ n.fraction) e) := by
  obtain ⟨whole, fraction, power⟩ := n
  obtain ⟨⟨hw, hne, -, hf⟩, -, e, hpower, hvalue⟩ := h
  have htail := tail_of_power hpower
  refine ⟨e - fraction.length, hvalue, fun negative => ?_⟩
  cases fraction with
  | nil =>
    have hread := magnitude?_whole hw hne htail negative
    simpa [Numeral.text, Numeral.marked] using hread
  | cons c more => exact magnitude?_point hw hne hf htail negative

/-- The magnitude of a finite double is read from its text. -/
theorem magnitude?_magnitudeText (l : Layout) (hx : x.isFinite = true) (negative : Bool) :
    magnitude? negative (l.magnitudeText x) = some (.make negative x.magnitudeBits) := by
  obtain ⟨n, htext, hdenotes⟩ := l.exists_numeral hx
  obtain ⟨e, hvalue, hread⟩ := magnitude?_text hdenotes
  have hdigits := digits_append.mpr ⟨hdenotes.whole, hdenotes.fraction⟩
  rw [← htext, hread]
  congr 1
  by_cases hs : x.significand = 0
  · have hzero : x.magnitudeBits = 0 := by
      obtain ⟨hlow, -, -, hnormal, hmagnitude⟩ := parts_of_isFinite hx
      by_cases hexp : -1074 < x.exponent
      · have hle := hnormal hexp
        omega
      · rw [hmagnitude, hs]
        omega
    have hdigitValue : digitValue (n.whole ++ n.fraction) = 0 := by
      have hshortest : (x.shortest l.tie).value = 0 := by
        rw [Binary64.shortest, if_pos hs]
        simp [DecimalDigits.value]
      rw [hshortest] at hvalue
      exact_mod_cast (mul_eq_zero.mp hvalue).resolve_right (by positivity)
    rw [hzero]
    exact nearest_zero negative hdigits hdigitValue e
  · have hcatches := (catches_shortest hx hs l.tie).1
    rw [← hvalue] at hcatches
    exact nearest_of_catches hx hs negative hdigits hdenotes.length hcatches

/-- The text of a finite double reads back as that double. -/
theorem parse?_text (l : Layout) (hx : x.isFinite = true) : parse? (l.text x) = some x := by
  have hmagnitude := magnitude?_magnitudeText l hx
  have hhead : ∀ c ∈ (l.magnitudeText x).head?, c.isDigit = true := by
    obtain ⟨n, htext, hdenotes⟩ := l.exists_numeral hx
    exact htext ▸ hdenotes.head_digit
  have hmake : make x.negative x.magnitudeBits = x := make_magnitudeBits x
  rw [l.text_of_isFinite hx]
  cases hneg : x.negative with
  | true =>
    rw [hneg] at hmake
    simp only [if_true, parse?]
    rw [hmagnitude, hmake]
  | false =>
    rw [hneg] at hmake
    simp only [Bool.false_eq_true, if_false]
    unfold parse?
    split
    next r hminus =>
      rw [hminus] at hhead
      exact absurd (hhead '-' rfl) (by decide)
    next r hplus =>
      rw [hplus] at hhead
      exact absurd (hhead '+' rfl) (by decide)
    next => rw [hmagnitude, hmake]

end SpanRelay.DecimalText
