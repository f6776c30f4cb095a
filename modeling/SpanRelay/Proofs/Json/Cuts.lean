import SpanRelay.Json.Printer
import SpanRelay.Proofs.Json.Strings

/-!
Documents that are cut short. The reader asks for the closing quote of a literal and for the closing
brace of an object, so that nothing but the whole of an object with a text in it is read.
-/
namespace SpanRelay.Json

theorem prefix_append_cases {α : Type} {p a b : List α} (h : p <+: a ++ b) :
    p <+: a ∨ ∃ q, p = a ++ q ∧ q <+: b := by
  rcases List.prefix_or_prefix_of_prefix h (List.prefix_append a b) with hp | ⟨q, rfl⟩
  · exact .inl hp
  · exact .inr ⟨q, rfl, (List.prefix_append_right_inj a).mp h⟩

variable {b : UInt8} {literal p : Bytes}

/-! ## String literals -/

theorem scanString_nil : scanString [] = none := by rw [scanString]

/-- An escape that is cut short is none. -/
theorem Escaped.scanString_cut (h : Escaped b literal) (hp : p <+: literal) (hne : p ≠ literal) :
    Json.scanString p = none := by
  cases h with
  | plain =>
    rcases List.prefix_cons_iff.mp hp with rfl | ⟨q, rfl, hq⟩
    · exact scanString_nil
    · obtain rfl := List.prefix_nil.mp hq
      contradiction
  | @short c =>
    rcases List.prefix_cons_iff.mp hp with rfl | ⟨q, rfl, hq⟩
    · exact scanString_nil
    rcases List.prefix_cons_iff.mp hq with rfl | ⟨r, rfl, hr⟩
    · simp [Json.scanString]
    · obtain rfl := List.prefix_nil.mp hr
      contradiction
  | digits =>
    rcases List.prefix_cons_iff.mp hp with rfl | ⟨q, rfl, hq⟩
    · exact scanString_nil
    rcases List.prefix_cons_iff.mp hq with rfl | ⟨r, rfl, hr⟩
    · simp [Json.scanString]
    have hfour : (Bytes.ofAscii (Hex.padded 4 b.toNat)).length = 4 := by
      rw [Bytes.ofAscii, List.length_map, Hex.length_padded]
    have hshort : r.length < 4 := by
      refine Nat.lt_of_le_of_ne (hfour ▸ hr.length_le) fun hlen => hne ?_
      rw [hr.eq_of_length (hlen.trans hfour.symm)]
    have hnone : hexQuad? r = none := by
      unfold hexQuad?
      split
      next =>
        simp only [List.length_cons] at hshort
        omega
      next => rfl
    rw [Json.scanString]
    simp [hnone]

/-- Without its closing quote a literal is not read. -/
theorem scanString_cut {bytes : Bytes} (hp : p <+: bytes.flatMap escapeByte) :
    scanString p = none := by
  induction bytes generalizing p with
  | nil =>
    obtain rfl := List.prefix_nil.mp hp
    exact scanString_nil
  | cons b bytes ih =>
    have hb := escaped_escapeByte b
    rw [List.flatMap_cons] at hp
    by_cases hne : p <+: escapeByte b ∧ p ≠ escapeByte b
    · exact hb.scanString_cut hne.1 hne.2
    · have hsplit : ∃ q, p = escapeByte b ++ q ∧ q <+: bytes.flatMap escapeByte := by
        rcases prefix_append_cases hp with hfirst | hrest
        · obtain rfl : p = escapeByte b := by simpa [hfirst] using hne
          exact ⟨[], (List.append_nil _).symm, List.nil_prefix⟩
        · exact hrest
      obtain ⟨q, rfl, hq⟩ := hsplit
      rw [hb.scanString, ih hq, Option.map_none]

/-- What is cut in a literal or behind it. -/
theorem scanString_cut_cases {s : String} {rest : Bytes}
    (hp : p <+: quoted s ++ 0x22 :: rest) :
    scanString p = none ∨ ∃ q, q <+: rest ∧ scanString p = some (quoted s, q) := by
  rcases prefix_append_cases hp with hp | ⟨q, rfl, hq⟩
  · exact .inl (scanString_cut hp)
  rcases List.prefix_cons_iff.mp hq with rfl | ⟨r, rfl, hr⟩
  · rw [List.append_nil]
    exact .inl (scanString_cut List.prefix_rfl)
  · exact .inr ⟨r, hr, content_quoted s r⟩

/-! ## Objects -/

theorem skipBlanks_nil : skipBlanks [] = [] := rfl

theorem skipBlanks_quote (rest : Bytes) : skipBlanks (0x22 :: rest) = 0x22 :: rest := by
  simp [skipBlanks, isBlankByte]

/-- A text value is read if its closing quote is there, and leaves nothing then. -/
theorem value_cut {s : String} (fuel : Nat) (hp : p <+: stringLiteral (quoted s)) :
    value fuel p = none ∨ ∃ j, value fuel p = some (j, []) := by
  cases fuel with
  | zero => exact .inl (by rw [value])
  | succ fuel =>
    rcases List.prefix_cons_iff.mp hp with rfl | ⟨q, rfl, hq⟩
    · exact .inl (by simp [value, skipBlanks, scanNumber, scanMagnitude, scanDigits])
    rcases scanString_cut_cases hq with hnone | ⟨r, hr, hscan⟩
    · exact .inl (by simp [value, skipBlanks_quote, hnone])
    · obtain rfl := List.prefix_nil.mp hr
      exact .inr ⟨.string (quoted s), by simp [value, skipBlanks_quote, hscan]⟩

theorem members_cut {name s : String} (fuel : Nat)
    (hp : p <+: renderMembers [(quoted name, ofText s)]) : members fuel p = none := by
  cases fuel with
  | zero => rw [members]
  | succ fuel =>
    rw [renderMembers, stringLiteral, ofText, render] at hp
    simp only [List.cons_append, List.append_assoc, List.nil_append] at hp
    rcases List.prefix_cons_iff.mp hp with rfl | ⟨q, rfl, hq⟩
    · simp [members, skipBlanks]
    rcases scanString_cut_cases hq with hnone | ⟨r, hr, hscan⟩
    · simp [members, skipBlanks_quote, hnone]
    rcases List.prefix_cons_iff.mp hr with rfl | ⟨t, rfl, ht⟩
    · simp [members, skipBlanks_quote, hscan, skipBlanks_nil]
    have hcolon : skipBlanks (0x3a :: t) = 0x3a :: t := by simp [skipBlanks, isBlankByte]
    rcases value_cut fuel ht with hnone | ⟨j, hvalue⟩
    · simp [members, skipBlanks_quote, hscan, hcolon, hnone]
    · simp [members, skipBlanks_quote, hscan, hcolon, hvalue, skipBlanks_nil]

/-- No strict first part of an object with one text in it is a document. -/
theorem parse?_cut {name s : String} (hp : p <+: render (record [(name, ofText s)]))
    (hne : p ≠ render (record [(name, ofText s)])) : parse? p = none := by
  have hrender : render (record [(name, ofText s)]) =
      0x7b :: (renderMembers [(quoted name, ofText s)] ++ [0x7d]) := by
    rw [record, List.map_cons, List.map_nil, render, List.cons_append]
  rw [hrender] at hp hne
  have hnone : value (p.length + 1) p = none := by
    rcases List.prefix_cons_iff.mp hp with rfl | ⟨q, rfl, hq⟩
    · simp [value, skipBlanks, scanNumber, scanMagnitude, scanDigits]
    rcases List.prefix_concat_iff.mp hq with rfl | hq
    · contradiction
    have hmembers := members_cut (0x7b :: q).length hq
    have hbrace : skipBlanks (0x7b :: q) = 0x7b :: q := by simp [skipBlanks, isBlankByte]
    rw [renderMembers, stringLiteral, List.cons_append, List.cons_append] at hq
    rw [value, hbrace]
    rcases List.prefix_cons_iff.mp hq with rfl | ⟨r, rfl, -⟩
    · simpa [skipBlanks] using hmembers
    · have hquote : skipBlanks (0x22 :: r) = 0x22 :: r := skipBlanks_quote r
      simp only [hquote]
      exact congrArg (Option.map _) hmembers
  rw [parse?, hnone]

end SpanRelay.Json
