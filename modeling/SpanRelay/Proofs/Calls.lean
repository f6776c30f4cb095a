import Mathlib.Data.List.Nodup

/-!
Lists of calls in progress, named by their place. A step of one call replaces its entry and leaves
all others where they are.
-/
namespace SpanRelay

variable {α β : Type*} {l : List α} {i j : Nat} {x y : α}

theorem getElem?_set_of_some (hi : l[i]? = some x) (y : α) (j : Nat) :
    (l.set i y)[j]? = if i = j then some y else l[j]? := by
  rw [List.getElem?_set]
  have hlt : i < l.length := (List.getElem?_eq_some_iff.mp hi).1
  simp [hlt]

theorem getElem?_concat_eq_some_iff :
    (l ++ [x])[i]? = some y ↔ l[i]? = some y ∨ i = l.length ∧ x = y := by
  rcases Nat.lt_trichotomy i l.length with hlt | rfl | hgt
  · simp [List.getElem?_append_left hlt, Nat.ne_of_lt hlt]
  · simp
  · have hout : (l ++ [x])[i]? = none := by
      rw [List.getElem?_eq_none_iff, List.length_append]
      exact hgt
    simp [List.getElem?_eq_none_iff.mpr (Nat.le_of_lt hgt), Nat.ne_of_gt hgt, hout]

/-- The entry of a call between those of the others. -/
theorem exists_split_of_some (hi : l[i]? = some x) :
    ∃ pre post, l = pre ++ x :: post ∧ (∀ y, l.set i y = pre ++ y :: post) ∧
      ∀ z ∈ pre ++ post, ∃ j : Nat, j ≠ i ∧ l[j]? = some z := by
  induction l generalizing i with
  | nil => simp at hi
  | cons w l ih =>
    cases i with
    | zero =>
      obtain rfl : w = x := by simpa using hi
      refine ⟨[], l, rfl, fun _ => rfl, fun z hz => ?_⟩
      obtain ⟨j, hj⟩ := List.mem_iff_getElem?.mp hz
      exact ⟨j + 1, Nat.succ_ne_zero j, by simpa using hj⟩
    | succ i =>
      obtain ⟨pre, post, rfl, hset, hothers⟩ := ih (by simpa using hi)
      refine ⟨w :: pre, post, rfl, fun y => congrArg (w :: ·) (hset y), fun z hz => ?_⟩
      rcases List.mem_cons.mp hz with rfl | hz
      · exact ⟨0, (Nat.succ_ne_zero i).symm, rfl⟩
      · obtain ⟨j, hne, hj⟩ := hothers z hz
        exact ⟨j + 1, fun h => hne (Nat.succ.inj h), by simpa using hj⟩

/-- The other entries count on their own. -/
theorem exists_countP_eq (hi : l[i]? = some x) (p : α → Bool) :
    ∃ n, l.countP p = n + (p x).toNat ∧ ∀ y, (l.set i y).countP p = n + (p y).toNat := by
  obtain ⟨pre, post, rfl, hset, -⟩ := exists_split_of_some hi
  refine ⟨pre.countP p + post.countP p, ?_, fun y => ?_⟩
  · cases hx : p x with
    | false => simp [hx]
    | true => simp [hx, Nat.add_assoc]
  · rw [hset]
    cases hy : p y with
    | false => simp [hy]
    | true => simp [hy, Nat.add_assoc]

theorem countP_set_of_some (hi : l[i]? = some x) (p : α → Bool) (y : α) :
    (l.set i y).countP p + (p x).toNat = l.countP p + (p y).toNat := by
  obtain ⟨n, hl, hset⟩ := exists_countP_eq hi p
  rw [hl, hset]
  omega

/-- What all entries have together, where one is replaced and the others have what they had. -/
theorem length_flatMap_set_of_some {f g : α → List β} (hi : l[i]? = some x)
    (hsame : ∀ {j : Nat} {z}, j ≠ i → l[j]? = some z → f z = g z) (y : α) :
    ((l.set i y).flatMap f).length + (g x).length = (l.flatMap g).length + (f y).length := by
  obtain ⟨pre, post, hsplit, hset, hothers⟩ := exists_split_of_some hi
  have hrest : ∀ z ∈ pre ++ post, f z = g z := by
    intro z hz
    obtain ⟨j, hne, hj⟩ := hothers z hz
    exact hsame hne hj
  have hpre : pre.flatMap f = pre.flatMap g :=
    List.flatMap_congr fun z hz => hrest z (List.mem_append_left _ hz)
  have hpost : post.flatMap f = post.flatMap g :=
    List.flatMap_congr fun z hz => hrest z (List.mem_append_right _ hz)
  rw [hset, hsplit]
  simp only [List.flatMap_append, List.flatMap_cons, List.length_append, hpre, hpost]
  omega

/-- Where one entry at most counts, entries that count are the same entry. -/
theorem index_eq_of_countP_le_one {p : α → Bool} (hcount : l.countP p ≤ 1) (hi : l[i]? = some x)
    (hj : l[j]? = some y) (hx : p x = true) (hy : p y = true) : i = j := by
  induction l generalizing i j with
  | nil => simp at hi
  | cons z l ih =>
    have hother : p z = true → ∀ (k : Nat) w, l[k]? = some w → p w ≠ true := by
      intro hz k w hk hw
      have hzero : l.countP p = 0 := by
        rw [List.countP_cons_of_pos hz] at hcount
        omega
      exact List.countP_eq_zero.mp hzero w (List.mem_of_getElem? hk) hw
    cases i with
    | zero =>
      cases j with
      | zero => rfl
      | succ j =>
        obtain rfl : z = x := by simpa using hi
        exact absurd hy (hother hx j y (by simpa using hj))
    | succ i =>
      cases j with
      | zero =>
        obtain rfl : z = y := by simpa using hj
        exact absurd hx (hother hy i x (by simpa using hi))
      | succ j =>
        have hrest := Nat.le_trans (List.sublist_cons_self z l).countP_le hcount
        have hij : i = j := ih hrest (by simpa using hi) (by simpa using hj)
        rw [hij]

/-- Entries that share a mark that is given once are the same entry. -/
theorem index_unique [DecidableEq β] {f : α → Option β} {b : β} (hn : (l.filterMap f).Nodup)
    (hi : l[i]? = some x) (hj : l[j]? = some y) (hx : f x = some b) (hy : f y = some b) :
    i = j := by
  have hcount := List.nodup_iff_count_le_one.mp hn b
  rw [List.count, List.countP_filterMap] at hcount
  exact index_eq_of_countP_le_one hcount hi hj (by simp [hx]) (by simp [hy])

end SpanRelay
