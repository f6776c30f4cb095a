import Mathlib.Data.Finset.Card
import SpanRelay.Proofs.Dictionary
import SpanRelay.Span.Basic

/-!
How many attributes a span may have. What a producer sets counts against the limit of the span, and
what the library sets comes on top of it. Whatever is set, replaced, removed and set again, the keys
that count and the attributes stay in step.
-/
namespace SpanRelay

/-- The key that the library sets in a call. -/
def AttributeCall.ownKey? : AttributeCall → Option String
  | .setInternal key _ => some key
  | .setProbability _ => some Span.probabilityKey
  | .set _ _ => none
  | .remove _ => none
  | .freeze => none

namespace Span

/-- The keys that the library has set since the span was made. -/
def ownKeys (category : SpanCategory) (calls : List AttributeCall) : List String :=
  (category.label?.map fun _ => categoryKey).toList ++ calls.filterMap AttributeCall.ownKey?

variable {s : Span} {own : List String} {key : String}

/-! ## One attribute of a producer -/

theorem refuses_iff : s.refuses key = true ↔
    s.isSealed = true ∨ key = "" ∨ 128 < key.length ∨
      key ∉ s.attributes.keys ∧ s.limits.count ≤ s.customKeys.length := by
  have hkey : AttributeLimits.acceptsKey key = false ↔ key = "" ∨ 128 < key.length := by
    rw [AttributeLimits.acceptsKey, Bool.and_eq_false_iff, Bool.not_eq_false', decide_eq_false_iff_not,
      String.isEmpty_iff, AttributeLimits.longestKey, Nat.not_le]
  rw [refuses, Bool.or_eq_true, Bool.or_eq_true, Bool.and_eq_true, Bool.not_eq_true', hkey,
    Bool.not_eq_true', decide_eq_true_iff, ← Bool.not_eq_true, Dictionary.contains_iff]
  simp only [or_assoc]

theorem setAttribute_of_refuses (h : s.refuses key = true) (value : AttributeValue) :
    s.setAttribute key value = { s with dropped := s.dropped + 1 } := if_pos h

theorem setAttribute_of_accepted (h : s.refuses key = false) (value : AttributeValue) :
    s.setAttribute key value =
      { s with
        customKeys := if key ∈ s.attributes.keys then s.customKeys else s.customKeys ++ [key]
        attributes := s.attributes.insert key (s.limits.clamp value) } := by
  unfold setAttribute
  rw [if_neg (Bool.eq_false_iff.mp h)]
  simp only [Dictionary.contains_iff]

/-! ## The budget -/

/-- The attributes, the keys that count and those of the library are in step. -/
structure Budgeted (s : Span) (own : List String) : Prop where
  nodup : s.attributes.keys.Nodup
  distinct : s.customKeys.Nodup
  present : s.customKeys ⊆ s.attributes.keys
  room : s.customKeys.length ≤ s.limits.count
  known : s.attributes.keys ⊆ s.customKeys ++ own

theorem Budgeted.setInternal (h : s.Budgeted own) (key : String) (value : AttributeValue) :
    (s.setInternal key value).Budgeted (own ++ [key]) where
  nodup := Dictionary.nodup_keys_insert h.nodup key _
  distinct := h.distinct
  present k hk := Dictionary.mem_keys_insert.mpr (.inr (h.present hk))
  room := h.room
  known k hk := by
    rcases Dictionary.mem_keys_insert.mp hk with rfl | hold
    · simp
    · rw [← List.append_assoc]
      exact List.mem_append_left _ (h.known hold)

theorem Budgeted.setAttribute (h : s.Budgeted own) (key : String) (value : AttributeValue) :
    (s.setAttribute key value).Budgeted own := by
  by_cases hr : s.refuses key = true
  · rw [setAttribute_of_refuses hr]
    exact ⟨h.nodup, h.distinct, h.present, h.room, h.known⟩
  rw [setAttribute_of_accepted (Bool.eq_false_iff.mpr hr)]
  have hnodup := Dictionary.nodup_keys_insert h.nodup key (s.limits.clamp value)
  by_cases hk : key ∈ s.attributes.keys
  · rw [if_pos hk]
    refine ⟨hnodup, h.distinct, fun k hm => ?_, h.room, fun k hm => ?_⟩
    · exact Dictionary.mem_keys_insert.mpr (.inr (h.present hm))
    · rcases Dictionary.mem_keys_insert.mp hm with rfl | hold
      · exact h.known hk
      · exact h.known hold
  · -- the key is new, so it was not among those that count, and there is room for it
    rw [if_neg hk]
    have hroom : s.customKeys.length < s.limits.count := by
      by_contra hfull
      exact hr (refuses_iff.mpr (.inr (.inr (.inr ⟨hk, Nat.not_lt.mp hfull⟩))))
    refine ⟨hnodup, ?_, fun k hm => ?_, ?_, fun k hm => ?_⟩
    · exact List.nodup_append.mpr
        ⟨h.distinct, by simp, fun k hm other ho hk' => hk (h.present (by simp_all))⟩
    · rcases List.mem_append.mp hm with hold | hnew
      · exact Dictionary.mem_keys_insert.mpr (.inr (h.present hold))
      · exact Dictionary.mem_keys_insert.mpr (.inl (List.mem_singleton.mp hnew))
    · rw [List.length_append, List.length_singleton]
      exact hroom
    · rcases Dictionary.mem_keys_insert.mp hm with rfl | hold
      · simp
      · have hbefore := h.known hold
        simp only [List.mem_append] at hbefore ⊢
        tauto

theorem Budgeted.removeAttribute (h : s.Budgeted own) (key : String) :
    (s.removeAttribute key).2.Budgeted own := by
  unfold Span.removeAttribute
  split
  · exact h
  refine ⟨Dictionary.nodup_keys_erase h.nodup key, h.distinct.filter _, fun k hm => ?_, ?_,
    fun k hm => ?_⟩
  · rw [List.mem_filter, decide_eq_true_iff] at hm
    exact (Dictionary.mem_keys_erase h.nodup).mpr ⟨hm.2, h.present hm.1⟩
  · exact (List.length_filter_le _ _).trans h.room
  · obtain ⟨hne, hold⟩ := (Dictionary.mem_keys_erase h.nodup).mp hm
    rcases List.mem_append.mp (h.known hold) with hcustom | hown
    · exact List.mem_append_left _ (List.mem_filter.mpr ⟨hcustom, decide_eq_true hne⟩)
    · exact List.mem_append_right _ hown

theorem Budgeted.call (h : s.Budgeted own) (c : AttributeCall) :
    (s.call c).Budgeted (own ++ c.ownKey?.toList) := by
  cases c with
  | set key value => exact (List.append_nil own).symm ▸ h.setAttribute key value
  | remove key => exact (List.append_nil own).symm ▸ h.removeAttribute key
  | setInternal key value => exact h.setInternal key value
  | setProbability p =>
    have hset : ({ s with probability := p } : Span).Budgeted own :=
      ⟨h.nodup, h.distinct, h.present, h.room, h.known⟩
    exact hset.setInternal probabilityKey (.double p)
  | freeze =>
    have hsealed : s.freeze.Budgeted own := ⟨h.nodup, h.distinct, h.present, h.room, h.known⟩
    exact (List.append_nil own).symm ▸ hsealed

theorem Budgeted.afterCalls (h : s.Budgeted own) (calls : List AttributeCall) :
    (s.afterCalls calls).Budgeted (own ++ calls.filterMap AttributeCall.ownKey?) := by
  induction calls generalizing s own with
  | nil => simpa [Span.afterCalls] using h
  | cons c calls ih =>
    have hrest := ih (h.call c)
    rw [List.append_assoc] at hrest
    cases hkey : c.ownKey? with
    | none =>
      rw [hkey] at hrest
      rwa [List.filterMap_cons_none hkey]
    | some key =>
      rw [hkey] at hrest
      rwa [List.filterMap_cons_some hkey]

theorem budgeted_create (context : SpanContext) (parent : SpanId) (kind : SpanKind)
    (category : SpanCategory) (start : Ticks) (makesContext : Bool)
    (metrics : Option SpanMetrics) (limits : AttributeLimits) (name : String) :
    (create context parent kind category start makesContext metrics limits name).Budgeted
      (category.label?.map fun _ => categoryKey).toList := by
  unfold create
  dsimp only
  split
  next label hlabel =>
    rw [hlabel]
    refine Budgeted.setInternal (?_ : Budgeted _ []) categoryKey (.text label)
    constructor <;> simp [Dictionary.keys, Dictionary.empty]
  next hlabel =>
    rw [hlabel]
    constructor <;> simp [Dictionary.keys, Dictionary.empty]

/-- The attributes are no more than the limit and the keys of the library. -/
theorem Budgeted.size_le (h : s.Budgeted own) :
    s.attributes.size ≤ s.limits.count + own.toFinset.card := by
  have hsub : s.attributes.keys ⊆ s.customKeys ++ own.dedup := by
    intro k hk
    have hknown := h.known hk
    rwa [List.mem_append, ← List.mem_dedup (l := own), ← List.mem_append] at hknown
  have hlength := (List.subperm_of_subset h.nodup hsub).length_le
  have hkeys : s.attributes.keys.length = s.attributes.size := List.length_map ..
  rw [List.length_append, hkeys, ← List.card_toFinset] at hlength
  have hroom := h.room
  omega

/-! ## Runs -/

/-- A producer changes neither the limits nor the seal. -/
theorem setAttribute_frame (s : Span) (key : String) (value : AttributeValue) :
    (s.setAttribute key value).limits = s.limits ∧
      (s.setAttribute key value).isSealed = s.isSealed := by
  unfold setAttribute countDropped
  split <;> exact ⟨rfl, rfl⟩

theorem removeAttribute_frame (s : Span) (key : String) :
    (s.removeAttribute key).2.limits = s.limits ∧
      (s.removeAttribute key).2.isSealed = s.isSealed := by
  unfold removeAttribute
  split <;> exact ⟨rfl, rfl⟩

theorem limits_call (s : Span) (c : AttributeCall) : (s.call c).limits = s.limits := by
  cases c with
  | set key value => exact (setAttribute_frame s key value).1
  | remove key => exact (removeAttribute_frame s key).1
  | setInternal key value => rfl
  | setProbability p => rfl
  | freeze => rfl

theorem isSealed_call_iff (s : Span) (c : AttributeCall) :
    (s.call c).isSealed = true ↔ s.isSealed = true ∨ c = .freeze := by
  cases c with
  | set key value => simp [call, setAttribute_frame]
  | remove key => simp [call, removeAttribute_frame]
  | setInternal key value => simp [call, Span.setInternal]
  | setProbability p => simp [call, Span.setProbability, Span.setInternal]
  | freeze => simp [call, Span.freeze]

theorem limits_afterCalls (s : Span) (calls : List AttributeCall) :
    (s.afterCalls calls).limits = s.limits := by
  induction calls generalizing s with
  | nil => rfl
  | cons c calls ih => exact (ih (s.call c)).trans (limits_call s c)

/-- Once sealed a span stays so. -/
theorem isSealed_afterCalls_iff (s : Span) (calls : List AttributeCall) :
    (s.afterCalls calls).isSealed = true ↔ s.isSealed = true ∨ .freeze ∈ calls := by
  induction calls generalizing s with
  | nil => simp [afterCalls]
  | cons c calls ih =>
    refine (ih (s.call c)).trans ?_
    rw [isSealed_call_iff, List.mem_cons, or_assoc, eq_comm (a := c)]

/-- After any calls, the keys that count are distinct, belong to attributes and keep to the limit,
and any other attribute is the library's. A producer's attribute is then refused exactly if the span
is sealed, the key is empty or too long, or the key is new and there is no room for it. If it is
refused, only the count of the dropped ones changes; otherwise it has the clamped value, and all
others are as before. -/
theorem attributes_afterCalls (context : SpanContext) (parent : SpanId) (kind : SpanKind)
    (category : SpanCategory) (start : Ticks) (makesContext : Bool)
    (metrics : Option SpanMetrics) (text array count : Nat) (name : String)
    (calls : List AttributeCall) :
    let limits := AttributeLimits.ofRequested text array count
    let fresh := create context parent kind category start makesContext metrics limits name
    let s := fresh.afterCalls calls
    let own := ownKeys category calls
    s.attributes.keys.Nodup ∧ s.customKeys.Nodup ∧ s.customKeys ⊆ s.attributes.keys ∧
      s.customKeys.length ≤ limits.count ∧
      (∀ key ∈ s.attributes.keys, key ∈ s.customKeys ∨ key ∈ own) ∧
      s.attributes.size ≤ limits.count + own.toFinset.card ∧
      ∀ key value,
        let t := s.setAttribute key value
        let refused := .freeze ∈ calls ∨ key = "" ∨ 128 < key.length ∨
          key ∉ s.attributes.keys ∧ s.customKeys.length = limits.count
        (refused → t = { s with dropped := s.dropped + 1 }) ∧
          (¬ refused → t.attributes.get? key = some (limits.clamp value) ∧
            (∀ other, other ≠ key → t.attributes.get? other = s.attributes.get? other) ∧
            t.attributes.keys =
              (if key ∈ s.attributes.keys then s.attributes.keys
              else s.attributes.keys ++ [key]) ∧
            t.dropped = s.dropped) := by
  intro limits fresh s own
  have hbudget : s.Budgeted own := (budgeted_create ..).afterCalls calls
  have hfresh : fresh.limits = limits ∧ fresh.isSealed = false := by
    simp only [fresh, create]
    split <;> exact ⟨rfl, rfl⟩
  have hlimits : s.limits = limits := (limits_afterCalls fresh calls).trans hfresh.1
  have hsealed : s.isSealed = true ↔ .freeze ∈ calls := by
    simp [s, isSealed_afterCalls_iff, hfresh.2]
  have hsize := hbudget.size_le
  have hroom := hbudget.room
  rw [hlimits] at hsize hroom
  refine ⟨hbudget.nodup, hbudget.distinct, hbudget.present, hroom,
    fun key hkey => List.mem_append.mp (hbudget.known hkey), hsize, fun key value => ?_⟩
  intro t refused
  have hrefuses : s.refuses key = true ↔ refused := by
    rw [refuses_iff, hsealed, hlimits]
    have hfull : limits.count ≤ s.customKeys.length ↔ s.customKeys.length = limits.count := by omega
    rw [hfull]
  constructor
  · exact fun h => setAttribute_of_refuses (hrefuses.mpr h) value
  · intro h
    have ht : t = _ := setAttribute_of_accepted (Bool.eq_false_iff.mpr (mt hrefuses.mp h)) value
    rw [ht, hlimits]
    refine ⟨?_, fun other ho => ?_, ?_, rfl⟩
    · rw [Dictionary.get?_insert, if_pos rfl]
    · rw [Dictionary.get?_insert, if_neg (Ne.symm ho)]
    · simp only [Dictionary.keys_insert, Dictionary.contains_iff]

end Span
end SpanRelay
