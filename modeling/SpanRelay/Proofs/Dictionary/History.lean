import Mathlib.Data.List.Induction
import SpanRelay.Proofs.Calls
import SpanRelay.Proofs.Dictionary

/-!
Dictionaries, such as the attributes of a span, told by what was done to them. Under a key stands
what the last call about it set, and the keys stand in the order of the calls that brought them in:
for each key the first insertion since it was last removed.
-/
universe u v

namespace SpanRelay.Dictionary

variable {κ : Type u} {ν : Type v}

variable {calls : List (Call κ ν)} {c : Call κ ν} {key other : κ} {value : ν} {turn : Nat}

/-! ## What the calls tell -/

/-- The last call about the key sets the value. -/
def SetLast (calls : List (Call κ ν)) (key : κ) (value : ν) : Prop :=
  ∃ turn : Nat, calls[turn]? = some (.insert key value) ∧
    ∀ (later : Nat) c, turn < later → calls[later]? = some c → c.key ≠ key

/-- Every insertion of the key was undone. -/
def Undone (calls : List (Call κ ν)) (key : κ) : Prop :=
  ∀ (turn : Nat) value, calls[turn]? = some (.insert key value) →
    ∃ later : Nat, turn < later ∧ calls[later]? = some (.remove key)

/-- The call of that turn brought the key in: it inserts the key, which was not removed since, and
every earlier insertion had been undone by then. -/
structure Enters (calls : List (Call κ ν)) (key : κ) (turn : Nat) : Prop where
  inserts : ∃ value, calls[turn]? = some (.insert key value)
  stays : ∀ later : Nat, turn < later → calls[later]? ≠ some (.remove key)
  first : ∀ (earlier : Nat) value, earlier < turn → calls[earlier]? = some (.insert key value) →
    ∃ between : Nat, earlier < between ∧ between < turn ∧ calls[between]? = some (.remove key)

/-- Both keys are in, the second since a later call. -/
def EntersBefore (calls : List (Call κ ν)) (key other : κ) : Prop :=
  ∃ m n, Enters calls key m ∧ Enters calls other n ∧ m < n

theorem Enters.lt_length (h : Enters calls key turn) : turn < calls.length := by
  obtain ⟨value, hvalue⟩ := h.inserts
  exact (List.getElem?_eq_some_iff.mp hvalue).1

theorem Enters.unique {m n : Nat} (hm : Enters calls key m) (hn : Enters calls key n) : m = n := by
  have hnot : ∀ {m n : Nat}, Enters calls key m → Enters calls key n → ¬ m < n := by
    intro m n hm hn hlt
    obtain ⟨value, hvalue⟩ := hm.inserts
    obtain ⟨between, hafter, -, hremove⟩ := hn.first m value hlt hvalue
    exact hm.stays between hafter hremove
  exact Nat.le_antisymm (Nat.le_of_not_lt (hnot hn hm)) (Nat.le_of_not_lt (hnot hm hn))

/-! ## One more call -/

theorem setLast_concat_iff : SetLast (calls ++ [c]) key value ↔
    c = .insert key value ∨ c.key ≠ key ∧ SetLast calls key value := by
  constructor
  · rintro ⟨turn, hturn, hlater⟩
    rcases getElem?_concat_eq_some_iff.mp hturn with hturn | ⟨-, rfl⟩
    · have hlt : turn < calls.length := (List.getElem?_eq_some_iff.mp hturn).1
      have hlast : c.key ≠ key := hlater calls.length c hlt List.getElem?_concat_length
      refine .inr ⟨hlast, turn, hturn, fun later d hl hd => ?_⟩
      exact hlater later d hl (getElem?_concat_eq_some_iff.mpr (.inl hd))
    · exact .inl rfl
  · rintro (rfl | ⟨hlast, turn, hturn, hlater⟩)
    · refine ⟨calls.length, List.getElem?_concat_length, fun later d hl hd => ?_⟩
      have hlt := (List.getElem?_eq_some_iff.mp hd).1
      rw [List.length_append, List.length_singleton] at hlt
      omega
    · refine ⟨turn, getElem?_concat_eq_some_iff.mpr (.inl hturn), fun later d hl hd => ?_⟩
      rcases getElem?_concat_eq_some_iff.mp hd with hd | ⟨-, rfl⟩
      · exact hlater later d hl hd
      · exact hlast

/-- A call about one key is not among the calls about another. -/
theorem getElem?_concat_of_ne (hc : c.key ≠ key) {d : Call κ ν} (hd : d.key = key) (i : Nat) :
    (calls ++ [c])[i]? = some d ↔ calls[i]? = some d := by
  rw [getElem?_concat_eq_some_iff, or_iff_left]
  rintro ⟨-, rfl⟩
  exact hc hd

theorem getElem?_concat_insert (i : Nat) :
    (calls ++ [.insert other value])[i]? = some (.remove key) ↔
      calls[i]? = some (.remove key) := by
  rw [getElem?_concat_eq_some_iff, or_iff_left]
  rintro ⟨-, h⟩
  contradiction

theorem Enters.concat_of_ne (h : Enters calls key turn) (hc : c.key ≠ key) :
    Enters (calls ++ [c]) key turn := by
  have hinsert : ∀ (i : Nat) value, (calls ++ [c])[i]? = some (.insert key value) ↔
      calls[i]? = some (.insert key value) := fun i _ => getElem?_concat_of_ne hc rfl i
  have hremove : ∀ i : Nat, (calls ++ [c])[i]? = some (.remove key) ↔
      calls[i]? = some (.remove key) := fun i => getElem?_concat_of_ne hc rfl i
  obtain ⟨hin, hstays, hfirst⟩ := h
  simp only [ne_eq, ← hinsert, ← hremove] at hin hstays hfirst
  exact ⟨hin, hstays, hfirst⟩

theorem Undone.concat_of_ne (h : Undone calls key) (hc : c.key ≠ key) :
    Undone (calls ++ [c]) key := by
  intro turn value hvalue
  rw [getElem?_concat_of_ne hc rfl] at hvalue
  obtain ⟨later, hl, hremove⟩ := h turn value hvalue
  exact ⟨later, hl, (getElem?_concat_of_ne hc rfl later).mpr hremove⟩

/-- No insertion moves a key that is in. -/
theorem Enters.concat_insert (h : Enters calls key turn) (other : κ) (value : ν) :
    Enters (calls ++ [.insert other value]) key turn where
  inserts := by
    obtain ⟨old, hold⟩ := h.inserts
    exact ⟨old, getElem?_concat_eq_some_iff.mpr (.inl hold)⟩
  stays later hl hremove := h.stays later hl ((getElem?_concat_insert later).mp hremove)
  first earlier old he hold := by
    have hlt := h.lt_length
    rw [List.getElem?_append_left (by omega)] at hold
    obtain ⟨between, hafter, hbefore, hremove⟩ := h.first earlier old he hold
    exact ⟨between, hafter, hbefore, (getElem?_concat_insert between).mpr hremove⟩

/-- A key that is not in comes in with its insertion. -/
theorem Undone.enters (h : Undone calls key) (value : ν) :
    Enters (calls ++ [.insert key value]) key calls.length where
  inserts := ⟨value, List.getElem?_concat_length⟩
  stays later hl hremove := by
    have hlt := (List.getElem?_eq_some_iff.mp ((getElem?_concat_insert later).mp hremove)).1
    omega
  first earlier old he hold := by
    rw [List.getElem?_append_left he] at hold
    obtain ⟨between, hafter, hremove⟩ := h earlier old hold
    have hlt := (List.getElem?_eq_some_iff.mp hremove).1
    exact ⟨between, hafter, hlt, (getElem?_concat_insert between).mpr hremove⟩

theorem undone_concat_remove (calls : List (Call κ ν)) (key : κ) :
    Undone (calls ++ [.remove key]) key := by
  intro turn value hvalue
  refine ⟨calls.length, ?_, List.getElem?_concat_length⟩
  rcases getElem?_concat_eq_some_iff.mp hvalue with hvalue | ⟨-, h⟩
  · exact (List.getElem?_eq_some_iff.mp hvalue).1
  · contradiction

/-! ## What a dictionary recalls -/

variable [DecidableEq κ] {d : Dictionary κ ν}

/-- The dictionary shows what the calls tell. -/
structure Recalls (d : Dictionary κ ν) (calls : List (Call κ ν)) : Prop where
  nodup : d.keys.Nodup
  values : ∀ key value, d.get? key = some value ↔ SetLast calls key value
  entered : ∀ key ∈ d.keys, ∃ turn, Enters calls key turn
  undone : ∀ key, key ∉ d.keys → Undone calls key
  order : d.keys.Pairwise (EntersBefore calls)

theorem recalls_empty : (empty : Dictionary κ ν).Recalls [] where
  nodup := .nil
  values key value := by simp [SetLast]
  entered key hkey := by simp [empty, keys] at hkey
  undone key _ turn value h := by simp at h
  order := .nil

theorem Recalls.insert (h : d.Recalls calls) (key : κ) (value : ν) :
    (d.insert key value).Recalls (calls ++ [.insert key value]) where
  nodup := nodup_keys_insert h.nodup key value
  values other found := by
    rw [get?_insert, setLast_concat_iff, ← h.values]
    by_cases ho : key = other
    · subst ho
      simp [Call.key]
    · simp [Call.key, ho]
  entered other hother := by
    rcases mem_keys_insert.mp hother with rfl | hold
    · by_cases hkey : other ∈ d.keys
      · obtain ⟨turn, hturn⟩ := h.entered other hkey
        exact ⟨turn, hturn.concat_insert other value⟩
      · exact ⟨_, (h.undone other hkey).enters value⟩
    · obtain ⟨turn, hturn⟩ := h.entered other hold
      exact ⟨turn, hturn.concat_insert key value⟩
  undone other hother := by
    rw [mem_keys_insert, not_or] at hother
    exact (h.undone other hother.2).concat_of_ne (Ne.symm hother.1)
  order := by
    have hold : d.keys.Pairwise (EntersBefore (calls ++ [.insert key value])) := by
      refine h.order.imp fun {a b} hab => ?_
      obtain ⟨m, n, hm, hn, hlt⟩ := hab
      exact ⟨m, n, hm.concat_insert key value, hn.concat_insert key value, hlt⟩
    rw [keys_insert]
    split
    next => exact hold
    next hkey =>
      rw [contains_iff] at hkey
      refine List.pairwise_append.mpr ⟨hold, List.pairwise_singleton _ _, fun a ha b hb => ?_⟩
      obtain rfl := List.mem_singleton.mp hb
      obtain ⟨m, hm⟩ := h.entered a ha
      exact ⟨m, _, hm.concat_insert b value, (h.undone b hkey).enters value, hm.lt_length⟩

theorem Recalls.erase (h : d.Recalls calls) (key : κ) :
    (d.erase key).Recalls (calls ++ [.remove key]) where
  nodup := nodup_keys_erase h.nodup key
  values other found := by
    rw [get?_erase h.nodup, setLast_concat_iff, ← h.values]
    by_cases ho : key = other <;> simp [Call.key, ho]
  entered other hother := by
    obtain ⟨hne, hold⟩ := (mem_keys_erase h.nodup).mp hother
    obtain ⟨turn, hturn⟩ := h.entered other hold
    exact ⟨turn, hturn.concat_of_ne (Ne.symm hne)⟩
  undone other hother := by
    by_cases ho : other = key
    · exact ho ▸ undone_concat_remove calls other
    · have hold : other ∉ d.keys := fun hm => hother ((mem_keys_erase h.nodup).mpr ⟨ho, hm⟩)
      exact (h.undone other hold).concat_of_ne (Ne.symm ho)
  order := by
    have hold : (d.erase key).keys.Pairwise (EntersBefore calls) :=
      h.order.sublist ((entries_dropEntry_sublist key d.entries).map Prod.fst)
    refine hold.imp_of_mem fun {a b} ha hb hab => ?_
    obtain ⟨m, n, hm, hn, hlt⟩ := hab
    have hne := fun {k} (hk : k ∈ (d.erase key).keys) =>
      Ne.symm ((mem_keys_erase h.nodup).mp hk).1
    exact ⟨m, n, hm.concat_of_ne (hne ha), hn.concat_of_ne (hne hb), hlt⟩

/-! ## A dictionary in use -/

theorem recalls_after (calls : List (Call κ ν)) : (after calls).Recalls calls := by
  induction calls using List.reverseRecOn with
  | nil => exact recalls_empty
  | append_singleton calls c ih =>
    unfold after at ih ⊢
    rw [List.foldl_concat]
    cases c with
    | insert key value => exact ih.insert key value
    | remove key => exact ih.erase key

/-- A call is answered with what its key had, and passes over all other keys. -/
theorem call_frame (h : d.keys.Nodup) (c : Call κ ν) :
    (d.call c).1 = d.get? c.key ∧
      (∀ other, other ≠ c.key → (d.call c).2.get? other = d.get? other) ∧
      ((d.call c).2.entries.filter fun e => e.1 ≠ c.key) =
        d.entries.filter fun e => e.1 ≠ c.key := by
  cases c with
  | insert key value =>
    refine ⟨fst_putEntry key value d.entries, fun other ho => ?_, filter_insert d key value⟩
    exact (get?_insert d key other value).trans (if_neg (Ne.symm ho))
  | remove key =>
    refine ⟨fst_take d key, fun other ho => ?_, filter_erase d key⟩
    exact (get?_erase h key other).trans (if_neg (Ne.symm ho))

theorem ofList_eq_after (pairs : List (κ × ν)) :
    ofList pairs = after (pairs.map fun e => .insert e.1 e.2) := by
  unfold ofList after
  rw [List.foldl_map]
  rfl

/-- After any calls no key stands twice, and a key has the value that the last call about it set; it
is there, and is counted, if there is one. The entries are the keys with their values. The keys
stand in the order of the calls that brought them in: each the first insertion since the last
removal. The next call is answered with the value that its key had, leaves all other entries and
their order as they are, and keeps the slot of a key that it sets again. A dictionary made of a list
is what its insertions leave. -/
theorem ordered_after (calls : List (Call κ ν)) :
    let d := after calls
    d.keys.Nodup ∧
      (∀ key value, d.get? key = some value ↔ SetLast calls key value) ∧
      (∀ key, d.contains key = (d.get? key).isSome) ∧
      (∀ key, key ∈ d.keys ↔ (d.get? key).isSome = true) ∧ d.size = d.keys.length ∧
      (∀ key value, (key, value) ∈ d.entries ↔ d.get? key = some value) ∧
      (∀ key ∈ d.keys, ∃! turn, Enters calls key turn) ∧
      d.keys.Pairwise (EntersBefore calls) ∧
      (∀ c, (d.call c).1 = d.get? c.key ∧
        (∀ other, other ≠ c.key → (d.call c).2.get? other = d.get? other) ∧
        ((d.call c).2.entries.filter fun e => e.1 ≠ c.key) =
          d.entries.filter fun e => e.1 ≠ c.key) ∧
      (∀ key ∈ d.keys, ∀ value, (d.call (.insert key value)).2.keys = d.keys) ∧
      ∀ pairs : List (κ × ν), ofList pairs = after (pairs.map fun e => .insert e.1 e.2) := by
  intro d
  have h : d.Recalls calls := recalls_after calls
  refine ⟨h.nodup, h.values, contains_eq_isSome d, fun key => ?_, ?_,
    fun key value => mem_entries_iff h.nodup, fun key hkey => ?_, h.order, call_frame h.nodup,
    fun key hkey value => ?_, ofList_eq_after⟩
  · rw [← contains_iff, contains_eq_isSome]
  · exact (List.length_map ..).symm
  · obtain ⟨turn, hturn⟩ := h.entered key hkey
    exact ⟨turn, hturn, fun n hn => hn.unique hturn⟩
  · have hkeys := keys_insert d key value
    rwa [if_pos (contains_iff.mpr hkey)] at hkeys

example :
    (after [.insert "a" 1, .insert "b" 2, .remove "a", .insert "a" 3, .insert "b" 4]).entries =
      [("b", 4), ("a", 3)] := by
  decide

end SpanRelay.Dictionary
