import SpanRelay.Json.Reader
import SpanRelay.Proofs.Number.Numerals
import SpanRelay.Proofs.Text.Utf8

/-!
Number literals. A numeral is taken in whole by the scanner, with a sign or without, and so is what
is written for an integer or a finite double.
-/
namespace SpanRelay.Json

open DecimalText Numeral

variable {rest : Bytes}

/-- No number goes on here. -/
def Ends (rest : Bytes) : Prop :=
  ∀ b ∈ rest.head?, isDigitByte b = false ∧ b ≠ 0x2e ∧ b ≠ 0x65 ∧ b ≠ 0x45

theorem ends_cons {b : UInt8} (h : isDigitByte b = false ∧ b ≠ 0x2e ∧ b ≠ 0x65 ∧ b ≠ 0x45) :
    Ends (b :: rest) := fun _ hc => Option.some.inj hc ▸ h

/-! ## Digits -/

theorem isDigitByte_ofNat {c : Char} (h : c.isDigit = true) :
    isDigitByte (UInt8.ofNat c.toNat) = true := by
  have hrange : 48 ≤ c.toNat ∧ c.toNat ≤ 57 := Char.isDigit_iff_toNat.mp h
  rw [isDigitByte, decide_eq_true_eq, UInt8.le_iff_toNat_le, UInt8.le_iff_toNat_le,
    UInt8.toNat_ofNat']
  simp only [UInt8.reduceToNat]
  omega

theorem span_ofAscii {digits : List Char} (hd : Digits digits)
    (hr : ∀ b ∈ rest.head?, isDigitByte b = false) :
    (Bytes.ofAscii digits ++ rest).span isDigitByte = (Bytes.ofAscii digits, rest) := by
  have hall : ∀ b ∈ Bytes.ofAscii digits, isDigitByte b = true := by
    intro b hb
    obtain ⟨c, hc, rfl⟩ := List.mem_map.mp hb
    exact isDigitByte_ofNat (hd c hc)
  rw [List.span_eq_takeWhile_dropWhile, List.takeWhile_append_of_pos hall,
    List.dropWhile_append_of_pos hall]
  cases rest with
  | nil => simp
  | cons b rest => simp [hr b rfl]

theorem scanDigits_ofAscii {digits : List Char} (hd : Digits digits) (hne : digits ≠ [])
    (hr : ∀ b ∈ rest.head?, isDigitByte b = false) :
    scanDigits (Bytes.ofAscii digits ++ rest) = some (Bytes.ofAscii digits, rest) := by
  have hbytes : Bytes.ofAscii digits ≠ [] := by simpa [Bytes.ofAscii] using hne
  unfold scanDigits
  rw [span_ofAscii hd hr]
  split
  next hnil => exact absurd (congrArg Prod.fst hnil) hbytes
  next => rfl

/-! ## Parts of a numeral -/

theorem scanFraction_marked {fraction : List Char} (hf : Digits fraction)
    (hr : ∀ b ∈ rest.head?, isDigitByte b = false ∧ b ≠ 0x2e) :
    scanFraction (Bytes.ofAscii (marked '.' fraction) ++ rest) =
      some (Bytes.ofAscii (marked '.' fraction), rest) := by
  by_cases hne : fraction = []
  · subst hne
    simp only [marked, Bytes.ofAscii_nil, List.nil_append]
    unfold scanFraction
    split
    next => exact absurd rfl (hr 0x2e rfl).2
    next => rfl
  · have hscan := scanDigits_ofAscii hf hne fun b hb => (hr b hb).1
    rw [marked_of_ne hne]
    simp [scanFraction, hscan]

theorem scanExponent_marked {power : List Char} {e : ℤ} (hp : Power power e) (hr : Ends rest) :
    scanExponent (Bytes.ofAscii (marked 'e' power) ++ rest) =
      some (Bytes.ofAscii (marked 'e' power), rest) := by
  cases hp with
  | none =>
    simp only [marked, Bytes.ofAscii_nil, List.nil_append]
    unfold scanExponent
    split
    next b s rest =>
      obtain ⟨-, -, hlower, hupper⟩ := hr b rfl
      simp [hlower, hupper]
    next b =>
      obtain ⟨-, -, hlower, hupper⟩ := hr b rfl
      simp [hlower, hupper]
    next => rfl
  | signed plus h =>
    have hdigits := digits_toDigits e.natAbs
    have hscan := scanDigits_ofAscii hdigits Nat.toDigits_ne_nil fun b hb => (hr b hb).1
    have hsigned : Numeral.signed plus e ≠ [] := by simp [Numeral.signed]
    rw [marked_of_ne hsigned]
    unfold Numeral.signed
    split_ifs with hneg hplus
    · simp [scanExponent, hscan]
    · simp [scanExponent, hscan]
    · -- without a sign, the first digit must not be taken for one
      obtain ⟨c, more, hcons⟩ := List.exists_cons_of_ne_nil
        (Nat.toDigits_ne_nil : Nat.toDigits 10 e.natAbs ≠ [])
      rw [hcons] at hdigits hscan ⊢
      have hc := isDigitByte_ofNat (hdigits c List.mem_cons_self)
      have hplus : UInt8.ofNat c.toNat ≠ 0x2b := fun heq => absurd (heq ▸ hc) (by decide)
      have hminus : UInt8.ofNat c.toNat ≠ 0x2d := fun heq => absurd (heq ▸ hc) (by decide)
      simp only [Bytes.ofAscii_cons, List.cons_append] at hscan
      simp [scanExponent, hplus, hminus, hscan]

/-! ## Literals -/

theorem scanMagnitude_text {n : Numeral} (h : n.Formed) {e : ℤ} (hp : Power n.power e)
    (hr : Ends rest) :
    scanMagnitude (Bytes.ofAscii n.text ++ rest) = some (Bytes.ofAscii n.text, rest) := by
  obtain ⟨whole, fraction, power⟩ := n
  obtain ⟨hw, hne, hleading, hf⟩ := h
  have hexponent : ∀ b ∈ (Bytes.ofAscii (marked 'e' power) ++ rest).head?,
      isDigitByte b = false ∧ b ≠ 0x2e := by
    intro b hb
    cases power with
    | nil => exact ⟨(hr b hb).1, (hr b hb).2.1⟩
    | cons c power =>
      obtain rfl := Option.some.inj hb
      decide
  have hpoint : ∀ b ∈ (Bytes.ofAscii (marked '.' fraction) ++
      (Bytes.ofAscii (marked 'e' power) ++ rest)).head?, isDigitByte b = false := by
    intro b hb
    cases fraction with
    | nil => exact (hexponent b hb).1
    | cons c fraction =>
      obtain rfl := Option.some.inj hb
      decide
  have hzero : ¬ ((Bytes.ofAscii whole).head? = some 0x30 ∧ (Bytes.ofAscii whole).length ≠ 1) := by
    obtain ⟨c, more, rfl⟩ := List.exists_cons_of_ne_nil hne
    rintro ⟨hhead, hlength⟩
    have hc : 48 ≤ c.toNat ∧ c.toNat ≤ 57 :=
      Char.isDigit_iff_toNat.mp (hw c List.mem_cons_self)
    have hbyte : UInt8.ofNat c.toNat = UInt8.ofNat '0'.toNat := Option.some.inj hhead
    obtain rfl := (Bytes.ofNat_toNat_inj (by omega) (by decide)).mp hbyte
    exact hlength (by simpa [Bytes.ofAscii] using hleading rfl)
  unfold scanMagnitude Numeral.text
  simp only [Bytes.ofAscii_append, List.append_assoc]
  rw [scanDigits_ofAscii hw hne hpoint]
  simp only [hzero, if_false, scanFraction_marked hf hexponent, scanExponent_marked hp hr,
    Option.map_some]

def OpensNumber (b : UInt8) : Prop := isDigitByte b = true ∨ b = 0x2d

instance (b : UInt8) : Decidable (OpensNumber b) := inferInstanceAs (Decidable (_ ∨ _))

/-- A literal that the scanner takes in whole, as a number. -/
structure NumberLiteral (literal : Bytes) : Prop where
  head : ∃ b more, literal = b :: more ∧ OpensNumber b
  scans : ∀ rest, Ends rest → scanNumber (literal ++ rest) = some (literal, rest)

theorem numberLiteral_text {n : Numeral} (h : n.Formed) {e : ℤ} (hp : Power n.power e) :
    NumberLiteral (Bytes.ofAscii n.text) := by
  have hdigit := h.head_digit
  obtain ⟨c, more, hcons⟩ := List.exists_cons_of_ne_nil
    (List.append_ne_nil_of_left_ne_nil h.whole_ne (marked '.' n.fraction ++ marked 'e' n.power))
  have hc : isDigitByte (UInt8.ofNat c.toNat) = true :=
    isDigitByte_ofNat (hdigit c (by rw [Numeral.text, hcons]; rfl))
  have hbytes : Bytes.ofAscii n.text = UInt8.ofNat c.toNat :: Bytes.ofAscii more := by
    rw [Numeral.text, hcons, Bytes.ofAscii_cons]
  refine ⟨⟨_, _, hbytes, .inl hc⟩, fun rest hr => ?_⟩
  have hscan := scanMagnitude_text h hp hr
  have hminus : UInt8.ofNat c.toNat ≠ 0x2d := fun heq => absurd (heq ▸ hc) (by decide)
  rw [hbytes, List.cons_append] at hscan ⊢
  unfold scanNumber
  split
  next heq => exact absurd (List.cons.inj heq).1 hminus
  next => exact hscan

theorem numberLiteral_minus {n : Numeral} (h : n.Formed) {e : ℤ} (hp : Power n.power e) :
    NumberLiteral (Bytes.ofAscii ('-' :: n.text)) := by
  refine ⟨⟨_, _, Bytes.ofAscii_cons .., .inr (by decide)⟩, fun rest hr => ?_⟩
  have hscan := scanMagnitude_text h hp hr
  simp [scanNumber, hscan]

theorem numberLiteral_toDigits (n : ℕ) : NumberLiteral (Bytes.ofAscii (Nat.toDigits 10 n)) := by
  obtain ⟨hd, hne, hleading⟩ := Layout.plain_toDigits (fun _ => rfl : n = 0 → (0 : ℤ) = 0)
  have hformed : Formed ⟨Nat.toDigits 10 n, [], []⟩ :=
    ⟨hd, hne, fun hhead => (hleading hhead).1, by simp [Digits]⟩
  simpa [Numeral.text, marked] using numberLiteral_text hformed .none

/-- The text of a finite double is a literal, in whatever layout. -/
theorem numberLiteral_layout (l : Layout) {x : Binary64} (hx : x.isFinite = true) :
    NumberLiteral (Bytes.ofAscii (l.text x)) := by
  obtain ⟨n, htext, hdenotes⟩ := l.exists_numeral hx
  obtain ⟨e, hp, -⟩ := hdenotes.value
  rw [l.text_of_isFinite hx, ← htext]
  split
  · exact numberLiteral_minus hdenotes.toFormed hp
  · exact numberLiteral_text hdenotes.toFormed hp

theorem toString?_layout (l : Layout) {x : Binary64} (hx : x.isFinite = true) :
    Bytes.toString? (Bytes.ofAscii (l.text x)) = some (String.ofList (l.text x)) := by
  have hascii : ∀ c ∈ l.text x, c.toNat < 0x80 := by
    obtain ⟨n, htext, hdenotes⟩ := l.exists_numeral hx
    obtain ⟨e, hp, -⟩ := hdenotes.value
    have hmagnitude := hdenotes.toFormed.isAscii hp
    rw [l.text_of_isFinite hx, ← htext]
    split
    · exact List.forall_mem_cons.mpr ⟨by decide, hmagnitude⟩
    · exact hmagnitude
  rw [Bytes.ofAscii_eq hascii, Bytes.toString?_ofString]

theorem toString?_toDigits (n : ℕ) :
    Bytes.toString? (Bytes.ofAscii (Nat.toDigits 10 n)) =
      some (String.ofList (Nat.toDigits 10 n)) := by
  rw [Bytes.ofAscii_eq fun c hc => Numeral.isAscii_of_isDigit (digits_toDigits n c hc),
    Bytes.toString?_ofString]

end SpanRelay.Json
