import SpanRelay.Json.Reader
import SpanRelay.Proofs.Text.Hex
import SpanRelay.Proofs.Text.Utf8

/-!
String literals. Whatever text is quoted, the scanner ends at the closing quote, and the literal
denotes that text.
-/
namespace SpanRelay.Json

theorem hexDigit_byte (n : Nat) : isHexDigit (UInt8.ofNat (Hex.digit n).toNat) = true ∧
    hexValue (UInt8.ofNat (Hex.digit n).toNat) = n % 16 := by
  have hall : ∀ k < 16, isHexDigit (UInt8.ofNat (Nat.digitChar k).toNat) = true ∧
      hexValue (UInt8.ofNat (Nat.digitChar k).toNat) = k := by decide
  rw [Hex.digit_eq]
  exact hall _ (Nat.mod_lt n (by decide))

theorem hexQuad?_padded {n : Nat} (h : n < 65536) (rest : Bytes) :
    hexQuad? (Bytes.ofAscii (Hex.padded 4 n) ++ rest) = some (n, rest) := by
  have hdigits : Bytes.ofAscii (Hex.padded 4 n) =
      [n / 16 / 16 / 16, n / 16 / 16, n / 16, n].map fun k => UInt8.ofNat (Hex.digit k).toNat := rfl
  rw [hdigits]
  simp only [List.map_cons, List.map_nil, List.cons_append, List.nil_append, hexQuad?,
    List.all_cons, List.all_nil, hexDigit_byte, Bool.and_self, if_true, List.foldl_cons,
    List.foldl_nil]
  congr 2
  omega

theorem utf8Of_ascii {n : Nat} (h : n < 0x80) : utf8Of n = [UInt8.ofNat n] := by
  have hall : ∀ k < 0x80, (Char.ofNat k).toNat = k := by decide
  have hn := hall n h
  rw [utf8Of, Bytes.ofString_eq_flatMap]
  rcases Bytes.encodeChar_cases (Char.ofNat n) with ⟨-, he⟩ | ⟨hlarge, -⟩
  · simp [he, hn]
  · omega

/-- Bytes that stand for themselves in a string literal. -/
def PlainByte (b : UInt8) : Prop := ¬ b < 0x20 ∧ b ≠ 0x22 ∧ b ≠ 0x5c

instance (b : UInt8) : Decidable (PlainByte b) := inferInstanceAs (Decidable (_ ∧ _ ∧ _))

theorem scanString_plain {b : UInt8} (h : PlainByte b) (rest : Bytes) :
    scanString (b :: rest) = (scanString rest).map fun r => (b :: r.1, r.2) := by
  obtain ⟨hcontrol, hquote, hslash⟩ := h
  rw [scanString]
  · simp [hcontrol, hslash]
  · exact fun hb => hquote hb
  · exact fun _ _ hb => absurd hb hslash

theorem scanString_hex (n : Nat) (rest : Bytes) :
    scanString (Bytes.ofAscii (Hex.padded 4 n) ++ rest) =
      (scanString rest).map fun r => (Bytes.ofAscii (Hex.padded 4 n) ++ r.1, r.2) := by
  have hplain : ∀ k, PlainByte (UInt8.ofNat (Hex.digit k).toNat) :=
    Hex.forall_digit (p := fun c => PlainByte (UInt8.ofNat c.toNat)) (by decide)
  simp [Hex.padded, Bytes.ofAscii, scanString_plain (hplain _), Function.comp_def]

/-! ## One byte -/

/-- An escaped byte is plain, or stands behind a backslash, or in four digits. -/
inductive Escaped (b : UInt8) : Bytes → Prop where
  | plain (h : PlainByte b) : Escaped b [b]
  | short {c : UInt8} (h : c ≠ 0x75) (hc : simpleEscape? c = some b) : Escaped b [0x5c, c]
  | digits (h : b < 0x80) : Escaped b (0x5c :: 0x75 :: Bytes.ofAscii (Hex.padded 4 b.toNat))

theorem escaped_escapeByte (b : UInt8) : Escaped b (escapeByte b) := by
  unfold escapeByte
  split_ifs with hquote hslash hback hfeed hline hreturn htab hcontrol
  · exact .short (by decide) (by simp [hquote, simpleEscape?])
  · exact .short (by decide) (by simp [hslash, simpleEscape?])
  · exact .short (by decide) (by simp [hback, simpleEscape?])
  · exact .short (by decide) (by simp [hfeed, simpleEscape?])
  · exact .short (by decide) (by simp [hline, simpleEscape?])
  · exact .short (by decide) (by simp [hreturn, simpleEscape?])
  · exact .short (by decide) (by simp [htab, simpleEscape?])
  · exact .digits (UInt8.lt_trans hcontrol (by decide))
  · exact .plain ⟨hcontrol, hquote, hslash⟩

variable {b : UInt8} {literal : Bytes}

theorem Escaped.ne_nil (h : Escaped b literal) : literal ≠ [] := by
  cases h <;> simp

theorem Escaped.unescapeOne? (h : Escaped b literal) (rest : Bytes) :
    unescapeOne? (literal ++ rest) = some ([b], rest) := by
  cases h with
  | plain h =>
    obtain ⟨-, -, hslash⟩ := h
    rw [List.singleton_append, Json.unescapeOne?]
    · simp [hslash]
    · exact fun _ hb => absurd hb hslash
    · exact fun _ _ hb => absurd hb hslash
  | short hne hc =>
    rw [List.cons_append, List.singleton_append, Json.unescapeOne?]
    · simp [hc]
    · exact fun hu => absurd hu hne
  | digits h =>
    have hsmall : b.toNat < 0x80 := h
    rw [List.cons_append, List.cons_append, Json.unescapeOne?, hexQuad?_padded (by omega)]
    simp only
    rw [if_neg (by omega), if_neg (by omega), utf8Of_ascii hsmall, UInt8.ofNat_toNat]

theorem Escaped.scanString (h : Escaped b literal) (rest : Bytes) :
    scanString (literal ++ rest) = (scanString rest).map fun r => (literal ++ r.1, r.2) := by
  cases h with
  | plain h => exact scanString_plain h rest
  | short hne hc =>
    rw [List.cons_append, List.singleton_append, Json.scanString]
    simp [hne, hc]
  | digits h =>
    have hsmall : b.toNat < 0x80 := h
    rw [List.cons_append, List.cons_append, Json.scanString, hexQuad?_padded (by omega),
      scanString_hex]
    simp [Function.comp_def]

/-! ## Whole literals -/

/-- Content of a literal that the scanner takes up to the closing quote. -/
def Content (content : Bytes) : Prop :=
  ∀ rest, scanString (content ++ 0x22 :: rest) = some (content, rest)

theorem content_flatMap (bytes : Bytes) : Content (bytes.flatMap escapeByte) := by
  intro rest
  induction bytes with
  | nil => simp [scanString]
  | cons b bytes ih =>
    rw [List.flatMap_cons, List.append_assoc, (escaped_escapeByte b).scanString, ih]
    rfl

theorem content_quoted (s : String) : Content (quoted s) := content_flatMap _

theorem unescape_flatMap (bytes : Bytes) {fuel : Nat}
    (h : (bytes.flatMap escapeByte).length ≤ fuel) :
    unescape fuel (bytes.flatMap escapeByte) = some bytes := by
  induction bytes generalizing fuel with
  | nil => simp [unescape]
  | cons b bytes ih =>
    have hb := escaped_escapeByte b
    obtain ⟨c, more, hcons⟩ := List.exists_cons_of_ne_nil hb.ne_nil
    have hone := hb.unescapeOne? (bytes.flatMap escapeByte)
    rw [List.flatMap_cons, hcons] at h ⊢
    rw [hcons] at hone
    rw [List.cons_append, List.length_cons, List.length_append] at h
    cases fuel with
    | zero => contradiction
    | succ fuel =>
      rw [List.cons_append] at hone ⊢
      rw [unescape, hone]
      · simp [ih (by omega : (bytes.flatMap escapeByte).length ≤ fuel)]
      · simp

/-- A quoted text reads back as it was. -/
@[simp] theorem text?_quoted (s : String) : text? (quoted s) = some s := by
  rw [text?, quoted, unescape_flatMap _ le_rfl]
  exact Bytes.toString?_ofString s

end SpanRelay.Json
