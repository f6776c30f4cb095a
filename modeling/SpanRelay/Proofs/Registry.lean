import Mathlib.Data.Finset.Card
import Mathlib.Data.List.Nodup
import SpanRelay.Registry

/-!
What a registry holds, told by what was added to it: the first addition of each callback, stably
sorted by priority. An item is placed by a search that is right only in a sorted list, so that the
order is carried along from one addition to the next.
-/
namespace SpanRelay.Registry

variable {passes : Registration → Bool} {entries items more : List Registration}
  {item : Registration} {r : Registry}

/-! ## Looking for a place -/

/-- The search by halves finds where the entries that pass end, if all others come behind them. -/
theorem boundary_splits {base count : Nat}
    (hsplit : entries.Pairwise fun a b => passes b = true → passes a = true)
    (hfirst : ∀ (i : Nat) e, i < base → entries[i]? = some e → passes e = true)
    (hrest : ∀ (i : Nat) e, base + count ≤ i → entries[i]? = some e → passes e = false) :
    (∀ (i : Nat) e, i < boundary passes entries base count → entries[i]? = some e →
      passes e = true) ∧
    ∀ (i : Nat) e, boundary passes entries base count ≤ i → entries[i]? = some e →
      passes e = false := by
  have hbefore : ∀ (i j : Nat) a b, i < j → entries[i]? = some a → entries[j]? = some b →
      passes b = true → passes a = true := by
    intro i j a b hij ha hb
    obtain ⟨hi, rfl⟩ := List.getElem?_eq_some_iff.mp ha
    obtain ⟨hj, rfl⟩ := List.getElem?_eq_some_iff.mp hb
    exact List.pairwise_iff_getElem.mp hsplit i j hi hj hij
  fun_induction boundary passes entries base count with
  | case1 base => exact ⟨hfirst, hrest⟩
  | case2 base count hcount middle hpass ih =>
    obtain ⟨e, he, hpass⟩ : ∃ e, entries[middle]? = some e ∧ passes e = true := by
      simpa [Option.any_eq_true] using hpass
    refine ih (fun i a hi ha => ?_) fun i a hi ha => hrest i a (by omega) ha
    rcases Nat.lt_or_eq_of_le (Nat.le_of_lt_succ hi) with hlt | rfl
    · exact hbefore i middle a e hlt ha he hpass
    · exact Option.some.inj (ha.symm.trans he) ▸ hpass
  | case3 base count hcount middle hfail ih =>
    refine ih hfirst fun i a hi ha => ?_
    cases he : entries[middle]? with
    | none =>
      have hend := List.getElem?_eq_none_iff.mp he
      have hlt := (List.getElem?_eq_some_iff.mp ha).1
      omega
    | some e =>
      have hfail : passes e = false := by simpa [he] using hfail
      rw [← Bool.not_eq_true] at hfail ⊢
      rcases Nat.lt_or_eq_of_le hi with hlt | rfl
      · exact fun hpass => hfail (hbefore middle i e a hlt he ha hpass)
      · exact Option.some.inj (ha.symm.trans he) ▸ hfail

/-! ## The stable order -/

/-- By ascending priority, and among equals as they come. -/
def inOrder (items : List Registration) : List Registration :=
  items.mergeSort fun a b => decide (a.priority ≤ b.priority)

/-- By ascending priority. -/
def Ascends (entries : List Registration) : Prop :=
  entries.Pairwise fun a b => a.priority ≤ b.priority

theorem ascends_inOrder (items : List Registration) : Ascends (inOrder items) := by
  have h : (inOrder items).Pairwise fun a b => decide (a.priority ≤ b.priority) = true :=
    List.pairwise_mergeSort (fun a b c => by simpa using Int.le_trans)
      (fun a b => by simpa using Int.le_total a.priority b.priority) items
  exact h.imp of_decide_eq_true

/-- Sorting moves no entry past another one of the same priority. -/
theorem filter_inOrder (items : List Registration) (p : Int) :
    (inOrder items).filter (·.priority = p) = items.filter (·.priority = p) := by
  have hequal : (items.filter (·.priority = p)).Pairwise fun a b =>
      decide (a.priority ≤ b.priority) = true := by
    refine List.pairwise_of_forall_mem_list fun a ha b hb => decide_eq_true ?_
    have ha : a.priority = p := by simpa using (List.mem_filter.mp ha).2
    have hb : b.priority = p := by simpa using (List.mem_filter.mp hb).2
    omega
  have hsub : (items.filter (·.priority = p)).Sublist (inOrder items) :=
    List.sublist_mergeSort (fun a b c => by simpa using Int.le_trans)
      (fun a b => by simpa using Int.le_total a.priority b.priority) hequal List.filter_sublist
  have hboth := hsub.filter (·.priority = p)
  simp only [List.filter_filter, Bool.and_self] at hboth
  have hperm : (inOrder items).Perm items := List.mergeSort_perm items _
  exact (hboth.eq_of_length (hperm.filter _).length_eq.symm).symm

theorem mem_iff_of_filter_eq {l m : List Registration}
    (h : ∀ p, l.filter (·.priority = p) = m.filter (·.priority = p)) (e : Registration) :
    e ∈ l ↔ e ∈ m := by
  have he : e ∈ l.filter (·.priority = e.priority) ↔ e ∈ m.filter (·.priority = e.priority) := by
    rw [h]
  simpa using he

/-- Where priorities ascend, the entries of each priority tell the whole list. -/
theorem eq_of_filter_eq {l m : List Registration} (hl : Ascends l) (hm : Ascends m)
    (h : ∀ p, l.filter (·.priority = p) = m.filter (·.priority = p)) : l = m := by
  have hmem := mem_iff_of_filter_eq h
  induction l generalizing m with
  | nil => exact (List.eq_nil_iff_forall_not_mem.mpr fun e he => by simpa using (hmem e).mpr he).symm
  | cons a l ih =>
    cases m with
    | nil => simpa using hmem a
    | cons b m =>
      obtain ⟨hfirst, hl'⟩ := List.pairwise_cons.mp hl
      obtain ⟨hfirst', hm'⟩ := List.pairwise_cons.mp hm
      have hle : a.priority ≤ b.priority := by
        rcases List.mem_cons.mp ((hmem b).mpr List.mem_cons_self) with rfl | hb
        · exact Int.le_refl _
        · exact hfirst b hb
      have hge : b.priority ≤ a.priority := by
        rcases List.mem_cons.mp ((hmem a).mp List.mem_cons_self) with rfl | ha
        · exact Int.le_refl _
        · exact hfirst' a ha
      have hpriority := Int.le_antisymm hge hle
      obtain rfl : a = b := by
        have hboth := h a.priority
        simp only [List.filter_cons, hpriority, decide_true, if_true] at hboth
        exact (List.cons.inj hboth).1
      have hrest : ∀ p, l.filter (·.priority = p) = m.filter (·.priority = p) := by
        intro p
        have hboth := h p
        simp only [List.filter_cons] at hboth
        split at hboth
        · exact (List.cons.inj hboth).2
        · exact hboth
      exact congrArg (a :: ·) (ih hl' hm' hrest (mem_iff_of_filter_eq hrest))

/-- A place is found behind all entries of the same or a lower priority. -/
theorem exists_place_eq (h : Ascends entries) (item : Registration) :
    ∃ front back, entries = front ++ back ∧ place item entries = front ++ item :: back ∧
      (∀ e ∈ front, e.priority ≤ item.priority) ∧ ∀ e ∈ back, item.priority < e.priority := by
  have hsplit : entries.Pairwise fun a b =>
      decide (b.priority ≤ item.priority) = true → decide (a.priority ≤ item.priority) = true := by
    refine h.imp fun {a b} hab hb => decide_eq_true ?_
    exact Int.le_trans hab (of_decide_eq_true hb)
  have hall : ∀ (i : Nat) e, 0 + entries.length ≤ i → entries[i]? = some e →
      decide (e.priority ≤ item.priority) = false := by
    intro i e hi he
    have hlt := (List.getElem?_eq_some_iff.mp he).1
    omega
  obtain ⟨hfront, hback⟩ := boundary_splits hsplit (fun i e hi => by omega) hall
  refine ⟨_, _, (List.take_append_drop _ entries).symm, rfl, fun e he => ?_, fun e he => ?_⟩
  · obtain ⟨i, hi⟩ := List.mem_iff_getElem?.mp he
    rw [List.getElem?_take] at hi
    split at hi
    next hlt => exact of_decide_eq_true (hfront i e hlt hi)
    next => contradiction
  · obtain ⟨i, hi⟩ := List.mem_iff_getElem?.mp he
    rw [List.getElem?_drop] at hi
    have hlater := of_decide_eq_false (hback _ e (Nat.le_add_right ..) hi)
    omega

theorem ascends_place (h : Ascends entries) (item : Registration) :
    Ascends (place item entries) := by
  obtain ⟨front, back, rfl, heq, hfront, hback⟩ := exists_place_eq h item
  obtain ⟨hf, hb, hfb⟩ := List.pairwise_append.mp h
  rw [heq]
  refine List.pairwise_append.mpr ⟨hf, List.pairwise_cons.mpr ⟨fun e he => ?_, hb⟩, ?_⟩
  · exact Int.le_of_lt (hback e he)
  · intro a ha e he
    rcases List.mem_cons.mp he with rfl | he
    · exact hfront a ha
    · exact hfb a ha e he

/-- The new entry comes last among those of its priority. -/
theorem filter_place (h : Ascends entries) (item : Registration) (p : Int) :
    (place item entries).filter (·.priority = p) = (entries ++ [item]).filter (·.priority = p) := by
  obtain ⟨front, back, rfl, heq, -, hback⟩ := exists_place_eq h item
  rw [heq]
  simp only [List.filter_append, List.filter_cons, List.filter_nil, List.append_assoc]
  congr 1
  split
  next hp =>
    have hnone : back.filter (·.priority = p) = [] := by
      refine List.filter_eq_nil_iff.mpr fun e he => ?_
      have hlt := hback e he
      have hp : item.priority = p := by simpa using hp
      simp
      omega
    rw [hnone]
    rfl
  next => rw [List.append_nil]

theorem place_inOrder (items : List Registration) (item : Registration) :
    place item (inOrder items) = inOrder (items ++ [item]) := by
  have hascends := ascends_inOrder items
  refine eq_of_filter_eq (ascends_place hascends item) (ascends_inOrder _) fun p => ?_
  rw [filter_place hascends, filter_inOrder, List.filter_append, filter_inOrder,
    List.filter_append]

/-! ## First additions -/

/-- The first registration of each callback, as they come. -/
def firsts : List Registration → List Registration
  | [] => []
  | item :: rest => item :: (firsts rest).filter fun e => e.callback ≠ item.callback

/-- The callbacks that are named in registrations. -/
def named (items : List Registration) : Finset CallbackRef :=
  (items.map Registration.callback).toFinset

theorem mem_named {c : CallbackRef} : c ∈ named items ↔ ∃ e ∈ items, e.callback = c := by
  simp [named]

theorem firsts_concat (items : List Registration) (item : Registration) :
    firsts (items ++ [item]) =
      if item.callback ∈ named items then firsts items else firsts items ++ [item] := by
  induction items with
  | nil => simp [firsts, named]
  | cons first items ih =>
    rw [List.cons_append, firsts, ih]
    by_cases hfirst : item.callback = first.callback
    · have hmem : item.callback ∈ named (first :: items) :=
        mem_named.mpr ⟨first, List.mem_cons_self .., hfirst.symm⟩
      rw [if_pos hmem, firsts]
      split
      · rfl
      · simp [List.filter_append, hfirst]
    · have hmem : item.callback ∈ named (first :: items) ↔ item.callback ∈ named items := by
        simp [named, hfirst]
      simp only [hmem, firsts]
      split
      · rfl
      · simp [List.filter_append, hfirst]

theorem named_firsts (items : List Registration) : named (firsts items) = named items := by
  induction items with
  | nil => rfl
  | cons first items ih =>
    ext c
    have hrest : c ∈ named (firsts items) ↔ c ∈ named items := by rw [ih]
    rw [mem_named, mem_named] at hrest
    rw [mem_named, mem_named, firsts]
    simp only [List.mem_cons, List.mem_filter, decide_eq_true_eq, exists_eq_or_imp]
    by_cases hc : first.callback = c
    · simp [hc]
    · simp only [hc, false_or, ← hrest]
      constructor
      · rintro ⟨e, ⟨he, -⟩, rfl⟩
        exact ⟨e, he, rfl⟩
      · rintro ⟨e, he, rfl⟩
        exact ⟨e, ⟨he, Ne.symm hc⟩, rfl⟩

theorem nodup_firsts (items : List Registration) :
    ((firsts items).map Registration.callback).Nodup := by
  induction items with
  | nil => exact .nil
  | cons first items ih =>
    rw [firsts, List.map_cons, List.nodup_cons]
    refine ⟨fun hm => ?_, ih.sublist (List.filter_sublist.map _)⟩
    obtain ⟨e, he, heq⟩ := List.mem_map.mp hm
    simpa [heq] using (List.mem_filter.mp he).2

/-! ## Additions -/

/-- The registry is what these additions make of an empty one. -/
def Lists (r : Registry) (items : List Registration) : Prop := r.entries = inOrder (firsts items)

theorem lists_empty : empty.Lists [] := by
  unfold Lists inOrder firsts empty
  rw [List.mergeSort_nil]

theorem Lists.contains_iff (h : r.Lists items) {c : CallbackRef} :
    r.contains c = true ↔ c ∈ named items := by
  unfold contains
  rw [h, ← named_firsts, mem_named, List.any_eq_true]
  simp [inOrder]

theorem Lists.nodup (h : r.Lists items) : (r.entries.map Registration.callback).Nodup := by
  have hperm : (inOrder (firsts items)).Perm (firsts items) := List.mergeSort_perm _ _
  rw [h]
  exact (hperm.map _).nodup_iff.mpr (nodup_firsts items)

theorem Lists.enter (h : r.Lists items) (count : Nat) (item : Registration) :
    (Registry.enter (count, r) item).2.Lists (items ++ [item]) ∧
      (Registry.enter (count, r) item).1 =
        if item.callback ∈ named items then count else count + 1 := by
  unfold Registry.enter Lists
  rw [firsts_concat]
  by_cases hc : item.callback ∈ named items
  · rw [if_pos (h.contains_iff.mpr hc), if_pos hc, if_pos hc]
    exact ⟨h, rfl⟩
  · rw [if_neg (mt h.contains_iff.mp hc), if_neg hc, if_neg hc, ← place_inOrder]
    exact ⟨congrArg (place item) h, rfl⟩

/-- Every addition in a row is counted if its callback is new, to the row as well. -/
theorem Lists.foldl_enter (h : r.Lists items) (more : List Registration) :
    (more.foldl Registry.enter (0, r)).2.Lists (items ++ more) ∧
      (more.foldl Registry.enter (0, r)).1 = (named more \ named items).card := by
  induction more using List.reverseRecOn with
  | nil => simpa [named] using h
  | append_singleton more item ih =>
    obtain ⟨hlists, hcount⟩ := ih
    rw [List.foldl_concat]
    obtain ⟨hnext, hone⟩ := hlists.enter (more.foldl Registry.enter (0, r)).1 item
    refine ⟨by rwa [← List.append_assoc], hone.trans ?_⟩
    have hunion : named (items ++ more) = named items ∪ named more := by
      ext c
      simp [named]
    have hinsert : named (more ++ [item]) = insert item.callback (named more) := by
      ext c
      simp [named]
    rw [hunion, hinsert, hcount]
    by_cases hold : item.callback ∈ named items
    · rw [if_pos (Finset.mem_union_left _ hold), Finset.insert_sdiff_of_mem _ hold]
    · rw [Finset.insert_sdiff_of_notMem _ hold]
      by_cases hrow : item.callback ∈ named more
      · rw [if_pos (Finset.mem_union_right _ hrow),
          Finset.insert_eq_of_mem (Finset.mem_sdiff.mpr ⟨hrow, hold⟩)]
      · rw [if_neg (by simp [hold, hrow]), Finset.card_insert_of_notMem (by simp [hrow])]

/-- A row that adds nothing leaves the registry as it is. -/
theorem foldl_enter_cases (r : Registry) (items : List Registration) :
    0 < (items.foldl enter (0, r)).1 ∨ items.foldl enter (0, r) = (0, r) := by
  induction items using List.reverseRecOn with
  | nil => exact .inr rfl
  | append_singleton items item ih =>
    rw [List.foldl_concat]
    rcases ih with hsome | hnone
    · refine .inl (Nat.lt_of_lt_of_le hsome ?_)
      unfold enter
      split
      · exact Nat.le_refl _
      · exact Nat.le_succ _
    · rw [hnone]
      unfold enter
      split
      · exact .inr rfl
      · exact .inl Nat.one_pos

theorem addAll_eq (r : Registry) (items : List Registration) :
    r.addAll items = items.foldl enter (0, r) := by
  unfold addAll
  dsimp only
  rcases foldl_enter_cases r items with hsome | hnone
  · rw [if_pos hsome]
  · rw [hnone]
    rfl

theorem snd_enter (acc : Nat × Registry) (item : Registration) :
    (enter acc item).2 = (acc.2.add item).2 := by
  rw [add_eq]
  unfold enter
  split <;> rfl

/-- Adding a list of items is adding them one by one. -/
theorem snd_addAll (r : Registry) (items : List Registration) :
    (r.addAll items).2 = items.foldl (fun r item => (r.add item).2) r := by
  rw [addAll_eq]
  induction items using List.reverseRecOn with
  | nil => rfl
  | append_singleton items item ih =>
    rw [List.foldl_concat, List.foldl_concat, snd_enter, ih]

theorem Lists.addAll (h : r.Lists items) (more : List Registration) :
    (r.addAll more).2.Lists (items ++ more) ∧
      (r.addAll more).1 = (named more \ named items).card := by
  rw [addAll_eq]
  exact h.foldl_enter more

theorem Lists.add (h : r.Lists items) (item : Registration) :
    (r.add item).2.Lists (items ++ [item]) := by
  rw [← snd_enter (0, r) item]
  exact (h.enter 0 item).1

theorem Lists.fst_add_iff (h : r.Lists items) (item : Registration) :
    (r.add item).1 = true ↔ item.callback ∉ named items := by
  rw [add_eq, ← h.contains_iff]
  split <;> simp_all

/-! ## A registry in use -/

namespace Watched

variable {w : Watched}

theorem lists_call (h : w.registry.Lists items) (c : Call) :
    (w.call c).registry.Lists (items ++ c.added) := by
  cases c with
  | add item => exact h.add item
  | addAll more => exact (h.addAll more).1
  | snapshot => exact (List.append_nil items).symm ▸ h

theorem lists_after (h : w.registry.Lists items) (calls : List Call) :
    (w.after calls).registry.Lists (items ++ calls.flatMap Call.added) := by
  induction calls generalizing w items with
  | nil => simpa [after] using h
  | cons c calls ih =>
    rw [List.flatMap_cons, ← List.append_assoc]
    exact ih (lists_call h c)

theorem shots_after (w : Watched) (calls : List Call) : w.shots <+: (w.after calls).shots := by
  induction calls generalizing w with
  | nil => exact List.prefix_rfl
  | cons c calls ih =>
    refine List.IsPrefix.trans ?_ (ih (w.call c))
    cases c with
    | snapshot => exact List.prefix_append ..
    | add | addAll => exact List.prefix_rfl

/-- After any calls the registry is the stable order, by priority, of the first additions of all
callbacks. A snapshot shows it as it is, and no call changes the snapshots taken before. An addition
is answered with yes if its callback is new, and a list of them with the number of new callbacks; a
list is added as its items are one by one. -/
theorem snapshots_after (calls : List Call) :
    let w := start.after calls
    let items := calls.flatMap Call.added
    w.registry.entries = inOrder (firsts items) ∧
      (w.call .snapshot).shots = w.shots ++ [inOrder (firsts items)] ∧
      (∀ later, w.shots <+: (w.after later).shots) ∧
      (∀ item, (w.registry.add item).1 = true ↔ item.callback ∉ named items) ∧
      ∀ more, (w.registry.addAll more).1 = (named more \ named items).card ∧
        (w.registry.addAll more).2 = more.foldl (fun r item => (r.add item).2) w.registry := by
  intro w items
  have hlists : w.registry.Lists items := by
    have hafter : (start.after calls).registry.Lists ([] ++ calls.flatMap Call.added) :=
      lists_after lists_empty calls
    exact hafter
  refine ⟨hlists, congrArg (fun e => w.shots ++ [e]) hlists, fun later => shots_after w later,
    hlists.fst_add_iff, fun more => ⟨(hlists.addAll more).2, snd_addAll w.registry more⟩⟩

example : empty.addAll [⟨5, 0⟩, ⟨1, 1⟩, ⟨5, 2⟩, ⟨1, 0⟩] = (3, ⟨[⟨1, 1⟩, ⟨5, 0⟩, ⟨5, 2⟩]⟩) := by
  decide +kernel

end Watched
end SpanRelay.Registry
