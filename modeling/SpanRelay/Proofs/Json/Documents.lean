import SpanRelay.Json.Printer
import SpanRelay.Proofs.Json.Numbers
import SpanRelay.Proofs.Json.Strings

/-!
Documents whose literals are sound are read back as they were printed, whatever document it is: the
reader takes exactly the bytes that were printed for a value, and its fuel is enough for that.
-/
namespace SpanRelay.Json

/-- Documents of which every string and number literal is one. -/
inductive Sound : Json → Prop where
  | null : Sound .null
  | bool (b : Bool) : Sound (.bool b)
  | number {literal : Bytes} (h : NumberLiteral literal) : Sound (.number literal)
  | string {content : Bytes} (h : Content content) : Sound (.string content)
  | array {items : List Json} (h : ∀ j ∈ items, Sound j) : Sound (.array items)
  | object {members : List (Bytes × Json)} (hn : ∀ m ∈ members, Content m.1)
      (h : ∀ m ∈ members, Sound m.2) : Sound (.object members)

/-! ## Heads -/

theorem OpensNumber.ne {b c : UInt8} (h : OpensNumber b) (hc : ¬ OpensNumber c) : b ≠ c :=
  fun heq => hc (heq ▸ h)

theorem OpensNumber.not_blank {b : UInt8} (h : OpensNumber b) : isBlankByte b = false := by
  have hspace : b ≠ 0x20 := h.ne (by decide)
  have hline : b ≠ 0x0a := h.ne (by decide)
  have htab : b ≠ 0x09 := h.ne (by decide)
  have hreturn : b ≠ 0x0d := h.ne (by decide)
  simp [isBlankByte, hspace, hline, htab, hreturn]

theorem skipBlanks_cons {b : UInt8} (h : isBlankByte b = false) (rest : Bytes) :
    skipBlanks (b :: rest) = b :: rest := by
  simp [skipBlanks, h]

variable {j : Json}

/-- What is printed begins with a byte that is neither blank nor the end of an array. -/
theorem Sound.head (h : Sound j) :
    ∃ b more, render j = b :: more ∧ isBlankByte b = false ∧ b ≠ 0x5d := by
  cases h with
  | null => exact ⟨_, _, by rw [render], by decide⟩
  | bool b => cases b <;> exact ⟨_, _, by rw [render], by decide⟩
  | number h =>
    obtain ⟨b, more, rfl, hb⟩ := h.head
    exact ⟨b, more, by rw [render], hb.not_blank, hb.ne (by decide)⟩
  | string h => exact ⟨0x22, _, by rw [render, stringLiteral, List.cons_append], by decide⟩
  | array h => exact ⟨0x5b, _, by rw [render, List.cons_append], by decide⟩
  | object hn h => exact ⟨0x7b, _, by rw [render, List.cons_append], by decide⟩

theorem Sound.skipBlanks (h : Sound j) (rest : Bytes) :
    skipBlanks (render j ++ rest) = render j ++ rest := by
  obtain ⟨b, more, hcons, hb, -⟩ := h.head
  rw [hcons, List.cons_append, skipBlanks_cons hb]

/-! ## Values -/

/-- With this much fuel, the value is read off the front of whatever follows it. -/
def Reads (j : Json) : Prop :=
  ∀ fuel rest, (render j).length ≤ fuel → Ends rest → value fuel (render j ++ rest) = some (j, rest)

theorem ends_comma (rest : Bytes) : Ends (0x2c :: rest) := ends_cons (by decide)

theorem ends_bracket (rest : Bytes) : Ends (0x5d :: rest) := ends_cons (by decide)

theorem ends_brace (rest : Bytes) : Ends (0x7d :: rest) := ends_cons (by decide)

theorem reads_number {literal : Bytes} (h : NumberLiteral literal) : Reads (.number literal) := by
  intro fuel rest hfuel hr
  have hscan := h.scans rest hr
  obtain ⟨b, more, rfl, hb⟩ := h.head
  rw [render] at hfuel ⊢
  cases fuel with
  | zero => simp at hfuel
  | succ fuel =>
    have hskip : skipBlanks (b :: more ++ rest) = b :: more ++ rest := by
      rw [List.cons_append, skipBlanks_cons hb.not_blank]
    have hhead : ∀ {c : UInt8} {tail : Bytes}, ¬ OpensNumber c → b :: more ++ rest ≠ c :: tail :=
      fun hc heq => hb.ne hc (List.cons.inj heq).1
    rw [value, hskip]
    split
    next heq => exact absurd heq (hhead (by decide))
    next heq => exact absurd heq (hhead (by decide))
    next heq => exact absurd heq (hhead (by decide))
    next heq => exact absurd heq (hhead (by decide))
    next heq => exact absurd heq (hhead (by decide))
    next heq => exact absurd heq (hhead (by decide))
    next => rw [hscan, Option.map_some]

theorem reads_string {content : Bytes} (h : Content content) : Reads (.string content) := by
  intro fuel rest hfuel _
  rw [render, stringLiteral] at hfuel ⊢
  cases fuel with
  | zero => simp at hfuel
  | succ fuel =>
    have hscan := h rest
    simp [value, skipBlanks, isBlankByte, hscan]

/-! ## Arrays and objects -/

theorem items_renderItems {items : List Json} (hs : ∀ j ∈ items, Sound j)
    (h : ∀ j ∈ items, Reads j) (hne : items ≠ []) (fuel : Nat) (rest : Bytes)
    (hfuel : (renderItems items).length < fuel) :
    Json.items fuel (renderItems items ++ 0x5d :: rest) = some (items, rest) := by
  induction items generalizing fuel with
  | nil => contradiction
  | cons j more ih =>
    have hj := h j List.mem_cons_self
    cases fuel with
    | zero => contradiction
    | succ fuel =>
      cases more with
      | nil =>
        rw [renderItems] at hfuel ⊢
        have hread := hj fuel (0x5d :: rest) (by omega) (ends_bracket rest)
        simp [Json.items, hread, Json.skipBlanks, isBlankByte]
      | cons k more =>
        rw [renderItems] at hfuel ⊢
        simp only [List.append_assoc, List.cons_append, List.length_append,
          List.length_cons] at hfuel ⊢
        have hmore := ih (fun i hi => hs i (List.mem_cons_of_mem j hi))
          (fun i hi => h i (List.mem_cons_of_mem j hi)) (List.cons_ne_nil k more) fuel (by omega)
        have hread := hj fuel (0x2c :: (renderItems (k :: more) ++ 0x5d :: rest)) (by omega)
          (ends_comma _)
        simp [Json.items, hread, Json.skipBlanks, isBlankByte, hmore]

theorem members_renderMembers {members : List (Bytes × Json)} (hn : ∀ m ∈ members, Content m.1)
    (h : ∀ m ∈ members, Reads m.2) (hne : members ≠ []) (fuel : Nat) (rest : Bytes)
    (hfuel : (renderMembers members).length < fuel) :
    Json.members fuel (renderMembers members ++ 0x7d :: rest) = some (members, rest) := by
  induction members generalizing fuel with
  | nil => contradiction
  | cons m more ih =>
    obtain ⟨name, j⟩ := m
    have hname := hn _ List.mem_cons_self
    have hj := h _ List.mem_cons_self
    dsimp only at hname hj
    cases fuel with
    | zero => contradiction
    | succ fuel =>
      cases more with
      | nil =>
        rw [renderMembers, stringLiteral] at hfuel ⊢
        simp only [List.append_assoc, List.cons_append, List.nil_append, List.length_append,
          List.length_cons] at hfuel ⊢
        have hread := hj fuel (0x7d :: rest) (by omega) (ends_brace rest)
        have hscan := hname (0x3a :: (render j ++ 0x7d :: rest))
        simp [Json.members, hread, hscan, Json.skipBlanks, isBlankByte]
      | cons k more =>
        rw [renderMembers, stringLiteral] at hfuel ⊢
        simp only [List.append_assoc, List.cons_append, List.nil_append, List.length_append,
          List.length_cons] at hfuel ⊢
        have hmore := ih (fun i hi => hn i (List.mem_cons_of_mem _ hi))
          (fun i hi => h i (List.mem_cons_of_mem _ hi)) (List.cons_ne_nil k more) fuel (by omega)
        have hread := hj fuel (0x2c :: (renderMembers (k :: more) ++ 0x7d :: rest)) (by omega)
          (ends_comma _)
        have hscan := hname
          (0x3a :: (render j ++ 0x2c :: (renderMembers (k :: more) ++ 0x7d :: rest)))
        simp [Json.members, hread, hscan, Json.skipBlanks, isBlankByte, hmore]

theorem exists_renderItems_cons (j : Json) (more : List Json) :
    ∃ tail, renderItems (j :: more) = render j ++ tail := by
  cases more with
  | nil => exact ⟨[], by rw [renderItems, List.append_nil]⟩
  | cons k more => exact ⟨_, by rw [renderItems]⟩

theorem exists_renderMembers_cons (m : Bytes × Json) (more : List (Bytes × Json)) :
    ∃ tail, renderMembers (m :: more) = 0x22 :: tail := by
  cases more with
  | nil => exact ⟨_, by rw [renderMembers, stringLiteral, List.cons_append, List.cons_append]⟩
  | cons k more =>
    exact ⟨_, by rw [renderMembers, stringLiteral, List.cons_append, List.cons_append,
      List.cons_append]⟩

theorem reads_array {items : List Json} (hs : ∀ j ∈ items, Sound j) (h : ∀ j ∈ items, Reads j) :
    Reads (.array items) := by
  intro fuel rest hfuel _
  rw [render] at hfuel ⊢
  simp only [List.cons_append, List.append_assoc, List.length_cons, List.length_append,
    List.nil_append] at hfuel ⊢
  cases fuel with
  | zero => contradiction
  | succ fuel =>
    rw [value, skipBlanks_cons (by decide)]
    cases items with
    | nil => simp [renderItems, Json.skipBlanks, isBlankByte]
    | cons j more =>
      have hread := items_renderItems hs h (List.cons_ne_nil j more) fuel rest (by omega)
      -- the first item is not taken for the end of an empty array
      obtain ⟨tail, htail⟩ := exists_renderItems_cons j more
      obtain ⟨b, front, hcons, hb, hclose⟩ := (hs j List.mem_cons_self).head
      rw [htail, hcons, List.cons_append, List.cons_append] at hread ⊢
      simp only [skipBlanks_cons hb]
      split
      next heq => exact absurd (List.cons.inj heq).1 hclose
      next => rw [hread, Option.map_some]

theorem reads_object {members : List (Bytes × Json)} (hn : ∀ m ∈ members, Content m.1)
    (h : ∀ m ∈ members, Reads m.2) : Reads (.object members) := by
  intro fuel rest hfuel _
  rw [render] at hfuel ⊢
  simp only [List.cons_append, List.append_assoc, List.length_cons, List.length_append,
    List.nil_append] at hfuel ⊢
  cases fuel with
  | zero => contradiction
  | succ fuel =>
    rw [value, skipBlanks_cons (by decide)]
    cases members with
    | nil => simp [renderMembers, Json.skipBlanks, isBlankByte]
    | cons m more =>
      have hread := members_renderMembers hn h (List.cons_ne_nil m more) fuel rest (by omega)
      obtain ⟨tail, htail⟩ := exists_renderMembers_cons m more
      rw [htail, List.cons_append] at hread ⊢
      have hquote : isBlankByte 0x22 = false := by decide
      simp [skipBlanks_cons hquote, hread]

theorem Sound.reads (h : Sound j) : Reads j := by
  induction h with
  | null =>
    intro fuel rest hfuel _
    cases fuel with
    | zero => simp [render] at hfuel
    | succ fuel => simp [render, value, Json.skipBlanks, isBlankByte]
  | bool b =>
    intro fuel rest hfuel _
    cases fuel with
    | zero => cases b <;> simp [render] at hfuel
    | succ fuel => cases b <;> simp [render, value, Json.skipBlanks, isBlankByte]
  | number h => exact reads_number h
  | string h => exact reads_string h
  | array h ih => exact reads_array h ih
  | object hn h ih => exact reads_object hn ih

/-- A sound document is read back from its bytes. -/
theorem Sound.parse?_render (h : Sound j) : parse? (render j) = some j := by
  have hread := h.reads ((render j).length + 1) [] (by omega) (by simp [Ends])
  rw [List.append_nil] at hread
  rw [parse?, hread]
  rfl

/-! ## What is written -/

theorem sound_ofText (s : String) : Sound (ofText s) := .string (content_quoted s)

theorem sound_ofNat (n : Nat) : Sound (ofNat n) := .number (numberLiteral_toDigits n)

theorem sound_ofDouble (x : Binary64) : Sound (ofDouble x) := by
  unfold ofDouble
  split
  next hx => exact .number (numberLiteral_layout Layout.json hx)
  next => exact .null

theorem sound_record {members : List (String × Json)} (h : ∀ m ∈ members, Sound m.2) :
    Sound (record members) := by
  refine .object ?_ ?_
  · intro m hm
    obtain ⟨n, -, rfl⟩ := List.mem_map.mp hm
    exact content_quoted n.1
  · intro m hm
    obtain ⟨n, hn, rfl⟩ := List.mem_map.mp hm
    exact h n hn

end SpanRelay.Json
