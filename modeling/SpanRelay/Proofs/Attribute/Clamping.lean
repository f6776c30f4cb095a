import SpanRelay.Attribute.Limits

/-!
What the limits make of a value, at every depth of it. An array keeps as many of its first items as
fit, a long text keeps whole characters in front of a marker that counts the others, and all that is
within the limits stays as it is.
-/
namespace SpanRelay

/-- The part of a value at a place, which tells for one array after another the item to enter. -/
def AttributeValue.part? (v : AttributeValue) : List Nat → Option AttributeValue
  | [] => some v
  | i :: place =>
    match v with
    | .array items => (items[i]?).bind fun item => item.part? place
    | _ => none

namespace AttributeLimits

variable {l : AttributeLimits} {v w : AttributeValue}

/-! ## One value -/

/-- What is made of a value under the limits. -/
inductive Clamps (l : AttributeLimits) : AttributeValue → AttributeValue → Prop where
  | short {s : String} (h : s.length ≤ l.text) : l.Clamps (.text s) (.text s)
  /-- The characters that fit are kept, and those cut off behind them are counted. -/
  | long {kept cut : String} (hkept : kept.length = l.text) (hcut : 0 < cut.length) :
      l.Clamps (.text (kept ++ cut))
        (.text (kept ++ ("*** " ++ Nat.repr cut.length ++ " CHARS TRUNCATED")))
  | int (n : Int64) : l.Clamps (.int n) (.int n)
  | double (x : Binary64) : l.Clamps (.double x) (.double x)
  | bool (b : Bool) : l.Clamps (.bool b) (.bool b)
  | array (items : List AttributeValue) :
      l.Clamps (.array items) (.array ((items.take l.array).map l.clamp))

theorem cutMarker_eq (n : Nat) : cutMarker n = "*** " ++ Nat.repr n ++ " CHARS TRUNCATED" := by
  have hjoin : ∀ (front back : String) (digits : List Char),
      String.ofList (front.toList ++ digits ++ back.toList) =
        front ++ String.ofList digits ++ back := by
    intro front back digits
    rw [String.ofList_append, String.ofList_append, String.ofList_toList, String.ofList_toList]
  exact hjoin ..

theorem clamps_text (l : AttributeLimits) (s : String) :
    l.Clamps (.text s) (.text (l.clampText s)) := by
  unfold clampText
  split
  next h => exact .short h
  next h =>
    let kept := String.ofList (s.toList.take l.text)
    let cut := String.ofList (s.toList.drop l.text)
    have hs : s = kept ++ cut := by
      rw [← String.toList_inj]
      simp [kept, cut]
    have hlength : s.toList.length = s.length := String.length_toList
    have hkept : kept.length = l.text := by
      rw [String.length_ofList, List.length_take, hlength]
      omega
    have hcut : cut.length = s.length - l.text := by
      rw [String.length_ofList, List.length_drop, hlength]
    have hlong := Clamps.long hkept (hcut ▸ (by omega : 0 < s.length - l.text))
    rw [← hs, hcut] at hlong
    rw [cutMarker_eq]
    exact hlong

theorem clamp_array (l : AttributeLimits) (items : List AttributeValue) :
    l.clamp (.array items) = .array ((items.take l.array).map l.clamp) := by
  rw [clamp, clampFirst_eq_map]

theorem clamps_clamp (l : AttributeLimits) (v : AttributeValue) : l.Clamps v (l.clamp v) := by
  cases v with
  | text s =>
    rw [clamp]
    exact clamps_text l s
  | int n =>
    rw [clamp]
    exact .int n
  | double x =>
    rw [clamp]
    exact .double x
  | bool b =>
    rw [clamp]
    exact .bool b
  | array items =>
    rw [clamp_array]
    exact .array items

/-- Nothing else is made of a value. -/
theorem Clamps.eq_clamp (h : l.Clamps v w) : w = l.clamp v := by
  cases h with
  | short h => rw [clamp, clampText, if_pos h]
  | @long kept cut hkept hcut =>
    have htake : (kept ++ cut).toList.take l.text = kept.toList := by
      rw [String.toList_append]
      exact List.take_left' (String.length_toList.trans hkept)
    have hrest : kept.length + cut.length - l.text = cut.length := by omega
    rw [clamp, clampText, String.length_append, if_neg (by omega), htake, hrest,
      String.ofList_toList, cutMarker_eq]
  | int n => rw [clamp]
  | double x => rw [clamp]
  | bool b => rw [clamp]
  | array items => rw [clamp_array]

theorem clamps_iff : l.Clamps v w ↔ w = l.clamp v :=
  ⟨Clamps.eq_clamp, fun h => h ▸ clamps_clamp l v⟩

/-! ## Every depth -/

/-- The places that lead through items within the limit hold what is made of the parts there. -/
theorem part?_clamp (l : AttributeLimits) (v : AttributeValue) (place : List Nat) :
    (l.clamp v).part? place =
      if ∀ i ∈ place, i < l.array then (v.part? place).map l.clamp else none := by
  induction place generalizing v with
  | nil => simp [AttributeValue.part?]
  | cons i place ih =>
    cases v with
    | array items =>
      rw [clamp_array]
      simp only [AttributeValue.part?, List.getElem?_map, List.getElem?_take, List.forall_mem_cons]
      by_cases hi : i < l.array
      · cases hitem : items[i]? with
        | none => simp [hi]
        | some item => simp [hi, ih]
      · simp [hi]
    | _ => simp [clamp, AttributeValue.part?]

/-- All arrays and texts within a value, at any depth, are within the limits. -/
structure Allows (l : AttributeLimits) (v : AttributeValue) : Prop where
  array : ∀ place items, v.part? place = some (.array items) → items.length ≤ l.array
  text : ∀ place s, v.part? place = some (.text s) → s.length ≤ l.text

theorem Allows.item {items : List AttributeValue} (h : l.Allows (.array items)) :
    ∀ item ∈ items, l.Allows item := by
  intro item hitem
  obtain ⟨i, hi⟩ := List.mem_iff_getElem?.mp hitem
  have hpart : ∀ place, (AttributeValue.array items).part? (i :: place) = item.part? place := by
    intro place
    simp [AttributeValue.part?, hi]
  exact ⟨fun place inner hinner => h.array (i :: place) inner ((hpart place).trans hinner),
    fun place s hs => h.text (i :: place) s ((hpart place).trans hs)⟩

mutual

theorem clamp_of_allows : ∀ v, l.Allows v → l.clamp v = v
  | .text s, h => by
    have hs : s.length ≤ l.text := h.text [] s rfl
    rw [clamp, clampText, if_pos hs]
  | .int n, _ => by rw [clamp]
  | .double x, _ => by rw [clamp]
  | .bool b, _ => by rw [clamp]
  | .array items, h => by
    have hlength : items.length ≤ l.array := h.array [] items rfl
    rw [clamp_array, List.take_of_length_le hlength, map_clamp_of_allows items h.item]

theorem map_clamp_of_allows : ∀ items : List AttributeValue, (∀ v ∈ items, l.Allows v) →
    items.map l.clamp = items
  | [], _ => rfl
  | v :: rest, h => by
    obtain ⟨hv, hrest⟩ := List.forall_mem_cons.mp h
    rw [List.map_cons, clamp_of_allows v hv, map_clamp_of_allows rest hrest]

end

theorem part?_clamp_eq_some_iff {place : List Nat} : (l.clamp v).part? place = some w ↔
    (∀ i ∈ place, i < l.array) ∧ ∃ u, v.part? place = some u ∧ l.Clamps u w := by
  rw [part?_clamp]
  split
  next h =>
    simp only [Option.map_eq_some_iff, clamps_iff, eq_comm (a := w), iff_true_intro h, true_and]
  next h => simp [h]

/-- A clamped value has, at the places that keep to the limit of arrays and at no others, what is
made there of the part of the value: arrays lose the items beyond the limit, and of texts that are
too long all characters beyond theirs are counted in a marker. No array is then longer than the
limit, and no text by more than its marker. A value that keeps to both limits at every depth stays
as it is. -/
theorem parts_clamp (text array count : Nat) (v : AttributeValue) :
    let l := ofRequested text array count
    (∀ place w, (l.clamp v).part? place = some w ↔
      (∀ i ∈ place, i < l.array) ∧ ∃ u, v.part? place = some u ∧ l.Clamps u w) ∧
    (∀ place items, (l.clamp v).part? place = some (.array items) → items.length ≤ l.array) ∧
    (∀ place t, (l.clamp v).part? place = some (.text t) →
      t.length ≤ l.text ∨ ∃ n, 0 < n ∧
        t.length = l.text + ("*** " ++ Nat.repr n ++ " CHARS TRUNCATED").length) ∧
    (l.Allows v → l.clamp v = v) := by
  intro l
  refine ⟨fun place w => part?_clamp_eq_some_iff, fun place items h => ?_, fun place t h => ?_,
    clamp_of_allows v⟩
  · obtain ⟨-, u, -, hu⟩ := part?_clamp_eq_some_iff.mp h
    cases hu with
    | array items =>
      rw [List.length_map]
      exact List.length_take_le _ _
  · obtain ⟨-, u, -, hu⟩ := part?_clamp_eq_some_iff.mp h
    cases hu with
    | short h => exact .inl h
    | @long kept cut hkept hcut =>
      refine .inr ⟨cut.length, hcut, ?_⟩
      rw [String.length_append, hkept]

example : (ofRequested 2 2 0).clamp (.array [.text "äöüß", .array [.text "äö"], .bool true]) =
    .array [.text "äö*** 2 CHARS TRUNCATED", .array [.text "äö"]] := by
  rfl

end AttributeLimits
end SpanRelay
