import SpanRelay.Dictionary

/-! Dictionaries in which no key stands twice. Inserting and erasing keep that, and then the entries
are what is found under the keys. -/
universe u v

namespace SpanRelay.Dictionary

variable {κ : Type u} {ν : Type v} [DecidableEq κ]

theorem mem_keys_putEntry (key other : κ) (value : ν) (entries : List (κ × ν)) :
    other ∈ (putEntry key value entries).2.map Prod.fst ↔
      other = key ∨ other ∈ entries.map Prod.fst := by
  induction entries with
  | nil => simp [putEntry]
  | cons e rest ih =>
    obtain ⟨k, old⟩ := e
    by_cases h : k = key
    · subst h
      simp [putEntry]
    · simp only [putEntry, h, if_false, List.map_cons, List.mem_cons, ih]
      exact or_left_comm

theorem nodup_keys_insert {d : Dictionary κ ν} (h : d.keys.Nodup) (key : κ) (value : ν) :
    (d.insert key value).keys.Nodup := by
  obtain ⟨entries⟩ := d
  change ((putEntry key value entries).2.map Prod.fst).Nodup
  change (entries.map Prod.fst).Nodup at h
  induction entries with
  | nil => simp [putEntry]
  | cons e rest ih =>
    obtain ⟨k, old⟩ := e
    obtain ⟨hk, hrest⟩ := List.nodup_cons.mp h
    by_cases hkey : k = key
    · simpa [putEntry, hkey] using h
    · simp only [putEntry, hkey, if_false, List.map_cons]
      refine List.nodup_cons.mpr ⟨?_, ih hrest⟩
      rw [mem_keys_putEntry, not_or]
      exact ⟨hkey, hk⟩

theorem mem_keys_insert {d : Dictionary κ ν} {key other : κ} {value : ν} :
    other ∈ (d.insert key value).keys ↔ other = key ∨ other ∈ d.keys :=
  mem_keys_putEntry key other value d.entries

/-- A key that is there keeps its place, a new one comes last. -/
theorem keys_insert (d : Dictionary κ ν) (key : κ) (value : ν) :
    (d.insert key value).keys = if d.contains key then d.keys else d.keys ++ [key] := by
  obtain ⟨entries⟩ := d
  change (putEntry key value entries).2.map Prod.fst = _
  induction entries with
  | nil => rfl
  | cons e rest ih =>
    obtain ⟨k, old⟩ := e
    by_cases h : k = key
    · simp [putEntry, contains, keys, h]
    · have hrest : contains ⟨(k, old) :: rest⟩ key = contains ⟨rest⟩ key := by simp [contains, h]
      simp only [putEntry, h, if_false, List.map_cons]
      rw [ih, hrest, apply_ite (k :: ·)]
      rfl

/-- Setting a key leaves the entries of the others as they are. -/
theorem filter_insert (d : Dictionary κ ν) (key : κ) (value : ν) :
    ((d.insert key value).entries.filter fun e => e.1 ≠ key) =
      d.entries.filter fun e => e.1 ≠ key := by
  obtain ⟨entries⟩ := d
  show ((putEntry key value entries).2.filter fun e => e.1 ≠ key) = _
  induction entries with
  | nil => simp [putEntry]
  | cons e rest ih =>
    obtain ⟨k, old⟩ := e
    by_cases h : k = key
    · simp [putEntry, h]
    · simp only [putEntry, h, if_false, List.filter_cons, ih]

theorem entries_dropEntry_sublist (key : κ) (entries : List (κ × ν)) :
    (dropEntry key entries).2.Sublist entries := by
  induction entries with
  | nil => exact .slnil
  | cons e rest ih =>
    obtain ⟨k, old⟩ := e
    by_cases h : k = key
    · simp [dropEntry, h]
    · simpa [dropEntry, h] using ih

theorem nodup_keys_erase {d : Dictionary κ ν} (h : d.keys.Nodup) (key : κ) :
    (d.erase key).keys.Nodup :=
  h.sublist ((entries_dropEntry_sublist key d.entries).map Prod.fst)

theorem get?_eq_none_iff {d : Dictionary κ ν} {key : κ} : d.get? key = none ↔ key ∉ d.keys := by
  rw [get?, Option.map_eq_none_iff, List.find?_eq_none, keys, List.mem_map]
  constructor
  · rintro h ⟨e, he, hkey⟩
    exact h e he (by simpa using hkey)
  · intro h e he hkey
    exact h ⟨e, he, by simpa using hkey⟩

theorem contains_iff {d : Dictionary κ ν} {key : κ} : d.contains key = true ↔ key ∈ d.keys := by
  simp [contains, keys]

theorem fst_take (d : Dictionary κ ν) (key : κ) : (d.take key).1 = d.get? key := by
  obtain ⟨entries⟩ := d
  show (dropEntry key entries).1 = _
  induction entries with
  | nil => rfl
  | cons e rest ih =>
    obtain ⟨k, old⟩ := e
    rw [get?_cons]
    by_cases h : k = key <;> simp [dropEntry, h, ih]

theorem get?_erase {d : Dictionary κ ν} (h : d.keys.Nodup) (key other : κ) :
    (d.erase key).get? other = if key = other then none else d.get? other := by
  obtain ⟨entries⟩ := d
  change get? ⟨(dropEntry key entries).2⟩ other = _
  unfold keys at h
  induction entries with
  | nil => simp [dropEntry, get?]
  | cons e rest ih =>
    obtain ⟨k, old⟩ := e
    obtain ⟨hk, hrest⟩ := List.nodup_cons.mp h
    by_cases hkey : k = key
    · subst hkey
      simp only [dropEntry, if_true, get?_cons]
      by_cases ho : k = other
      · subst ho
        simpa [get?_eq_none_iff, keys] using hk
      · simp [ho]
    · simp only [dropEntry, hkey, if_false, get?_cons, ih hrest]
      by_cases ho : k = other
      · subst ho
        simp [Ne.symm hkey]
      · simp [ho]

theorem mem_keys_erase {d : Dictionary κ ν} (h : d.keys.Nodup) {key other : κ} :
    other ∈ (d.erase key).keys ↔ other ≠ key ∧ other ∈ d.keys := by
  rw [← contains_iff, ← contains_iff, contains_eq_isSome, contains_eq_isSome, get?_erase h]
  by_cases ho : key = other
  · simp [ho]
  · simp [ho, Ne.symm ho]

/-- Erasing a key leaves the entries of the others as they are. -/
theorem filter_erase (d : Dictionary κ ν) (key : κ) :
    ((d.erase key).entries.filter fun e => e.1 ≠ key) = d.entries.filter fun e => e.1 ≠ key := by
  obtain ⟨entries⟩ := d
  show ((dropEntry key entries).2.filter fun e => e.1 ≠ key) = _
  induction entries with
  | nil => rfl
  | cons e rest ih =>
    obtain ⟨k, old⟩ := e
    by_cases h : k = key
    · simp [dropEntry, h]
    · simp only [dropEntry, h, if_false, List.filter_cons, ih]

theorem mem_entries_iff {d : Dictionary κ ν} (h : d.keys.Nodup) {key : κ} {value : ν} :
    (key, value) ∈ d.entries ↔ d.get? key = some value := by
  obtain ⟨entries⟩ := d
  unfold keys at h
  induction entries with
  | nil => simp [get?]
  | cons e rest ih =>
    obtain ⟨k, old⟩ := e
    obtain ⟨hk, hrest⟩ := List.nodup_cons.mp h
    rw [List.mem_cons, get?_cons, ih hrest]
    by_cases hkey : k = key
    · subst hkey
      have hnone : get? (⟨rest⟩ : Dictionary κ ν) k = none := get?_eq_none_iff.mpr hk
      simp [hnone, eq_comm]
    · simp [hkey, Ne.symm hkey]

end SpanRelay.Dictionary
