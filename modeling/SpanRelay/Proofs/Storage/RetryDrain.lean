import Mathlib.Data.List.Dedup
import SpanRelay.Proofs.Storage.RetryHistory
import SpanRelay.Proofs.Storage.RetryTurn

/-!
Filling a retry queue and emptying it again. A payload takes the place of the one with the same
timestamp, if there is one, and leaves all others alone. When the payloads are taken out one after
another, each that is still stored comes out once, unless it has expired by then.
-/
namespace SpanRelay

namespace PayloadMap

/-- The map once some payloads were stored one after another: the last of each timestamp, or what
was there before. -/
def storing (m : PayloadMap) (payloads : List Payload) : PayloadMap := fun timestamp =>
  (payloads.reverse.find? fun p => p.timestamp = timestamp).or (m timestamp)

variable {m : PayloadMap} {payloads : List Payload}

theorem storing_concat (m : PayloadMap) (payloads : List Payload) (p : Payload) :
    m.storing (payloads ++ [p]) = Function.update (m.storing payloads) p.timestamp (some p) := by
  funext timestamp
  by_cases h : p.timestamp = timestamp
  · subst h
    simp [storing]
  · simp [storing, h, Function.update_of_ne (Ne.symm h)]

theorem storing_of_ne {timestamp : UInt64} (h : ∀ p ∈ payloads, p.timestamp ≠ timestamp) :
    m.storing payloads timestamp = m timestamp := by
  have hnone : payloads.reverse.find? (fun p => p.timestamp = timestamp) = none := by
    rw [List.find?_eq_none]
    intro p hp
    simpa using h p (List.mem_reverse.mp hp)
  rw [storing, hnone, Option.none_or]

theorem storing_of_nodup (hn : (payloads.map Payload.timestamp).Nodup) {p : Payload}
    (hp : p ∈ payloads) : m.storing payloads p.timestamp = some p := by
  have hsome : (payloads.reverse.find? fun r => r.timestamp = p.timestamp).isSome = true :=
    List.find?_isSome.mpr ⟨p, List.mem_reverse.mpr hp, by simp⟩
  obtain ⟨r, hr⟩ := Option.isSome_iff_exists.mp hsome
  have hmem : r ∈ payloads := List.mem_reverse.mp (List.mem_of_find?_eq_some hr)
  have hsame : r.timestamp = p.timestamp := by simpa using List.find?_some hr
  rw [storing, hr, Option.some_or, List.inj_on_of_nodup_map hn hmem hp hsame]

end PayloadMap

namespace RetryQueue

variable {q : RetryQueue} {t u : FileTree} {m : PayloadMap} {payloads : List Payload}

/-! ## Filling -/

theorem addAll_append (q : RetryQueue) (t : FileTree) (payloads others : List Payload) :
    q.addAll t (payloads ++ others) = (q.addAll t payloads).bind fun u => q.addAll u others := by
  rw [addAll, List.foldlM_append]
  rfl

theorem addAll_singleton (q : RetryQueue) (t : FileTree) (p : Payload) :
    q.addAll t [p] = q.add t p := bind_pure (q.add t p)

/-- Storing payloads writes their files and no others. -/
theorem Usable.exists_addAll (hq : q.Usable t) (payloads : List Payload) :
    ∃ u, q.addAll t payloads = .ok u ∧ q.Usable u ∧ ∀ path, u.read? path =
      ((payloads.reverse.find? fun p => q.pathOf p.timestamp = path).map RetryFile.render).or
        (t.read? path) := by
  induction payloads using List.reverseRecOn with
  | nil => exact ⟨t, rfl, hq, by simp⟩
  | append_singleton payloads p ih =>
    obtain ⟨u, hu, huse, hread⟩ := ih
    obtain ⟨v, hv, hvuse, hvread⟩ := huse.exists_add p
    refine ⟨v, ?_, hvuse, fun path => ?_⟩
    · rw [addAll_append, hu]
      exact (addAll_singleton q u p).trans hv
    · rw [hvread, hread]
      by_cases h : q.pathOf p.timestamp = path <;> simp [h]

theorem Usable.of_addAll (hq : q.Usable t) (h : q.addAll t payloads = .ok u) :
    q.Usable u ∧ ∀ path, u.read? path =
      ((payloads.reverse.find? fun p => q.pathOf p.timestamp = path).map RetryFile.render).or
        (t.read? path) := by
  obtain ⟨v, hv, huse, hread⟩ := hq.exists_addAll payloads
  obtain rfl := Except.ok.inj (hv.symm.trans h)
  exact ⟨huse, hread⟩

theorem Holds.exists_addAll (h : q.Holds t m) (hp : ∀ p ∈ payloads, RetryFile.Storable p) :
    ∃ u, q.addAll t payloads = .ok u ∧ q.Holds u (m.storing payloads) := by
  induction payloads using List.reverseRecOn with
  | nil => exact ⟨t, rfl, h⟩
  | append_singleton payloads p ih =>
    rw [List.forall_mem_append, List.forall_mem_singleton] at hp
    obtain ⟨u, hu, hholds⟩ := ih hp.1
    obtain ⟨v, hv, hvholds⟩ := hholds.exists_add hp.2
    refine ⟨v, ?_, ?_⟩
    · rw [addAll_append, hu]
      exact (addAll_singleton q u p).trans hv
    · rwa [PayloadMap.storing_concat]

theorem Holds.of_addAll (h : q.Holds t m) (hp : ∀ p ∈ payloads, RetryFile.Storable p)
    (hu : q.addAll t payloads = .ok u) : q.Holds u (m.storing payloads) := by
  obtain ⟨v, hv, hholds⟩ := h.exists_addAll hp
  obtain rfl := Except.ok.inj (hv.symm.trans hu)
  exact hholds

/-! ## Counting -/

theorem size_eq_length (q : RetryQueue) (t : FileTree) :
    q.size t = (t.fileNames q.folder).length := by
  rw [size, list, List.length_map]

theorem mem_fileNames_addAll (hq : q.Usable t) (h : q.addAll t payloads = .ok u) {name : String} :
    name ∈ u.fileNames q.folder ↔
      name ∈ t.fileNames q.folder ∨ ∃ p ∈ payloads, RetryFile.name p.timestamp = name := by
  obtain ⟨huse, hread⟩ := hq.of_addAll h
  have hfile : ∀ p : Payload, q.pathOf p.timestamp = q.folder ++ [name] ↔
      RetryFile.name p.timestamp = name := by
    simp [pathOf]
  rw [FileTree.mem_fileNames huse.sound, FileTree.mem_fileNames hq.sound, hread, Option.isSome_or,
    Option.isSome_map, Bool.or_eq_true, List.find?_isSome, or_comm]
  simp only [List.mem_reverse, decide_eq_true_iff, hfile]

/-- Timestamps under which no file is stored. -/
def free (q : RetryQueue) (t : FileTree) (timestamp : UInt64) : Bool :=
  (t.read? (q.pathOf timestamp)).isNone

theorem free_iff (hs : t.Sound) {timestamp : UInt64} :
    q.free t timestamp = true ↔ RetryFile.name timestamp ∉ t.fileNames q.folder := by
  rw [FileTree.mem_fileNames hs, free, pathOf, Option.not_isSome_iff_eq_none,
    Option.isNone_iff_eq_none]

/-- The files become more by the timestamps that are new, each counted once. -/
theorem size_addAll (hq : q.Usable t) (h : q.addAll t payloads = .ok u) :
    q.size u = q.size t + ((payloads.map Payload.timestamp).filter (q.free t)).dedup.length := by
  let added := ((payloads.map Payload.timestamp).filter (q.free t)).dedup
  have hadded : ∀ timestamp, timestamp ∈ added ↔ (∃ p ∈ payloads, p.timestamp = timestamp) ∧
      RetryFile.name timestamp ∉ t.fileNames q.folder := by
    simp [added, free_iff hq.sound]
  have hnodup : (t.fileNames q.folder ++ added.map RetryFile.name).Nodup := by
    refine List.nodup_append.mpr ⟨FileTree.nodup_fileNames hq.sound _,
      (List.nodup_dedup _).map RetryFile.name_injective, ?_⟩
    rintro name hold _ hnew rfl
    obtain ⟨timestamp, hmem, rfl⟩ := List.mem_map.mp hnew
    exact ((hadded timestamp).mp hmem).2 hold
  have hnames : ∀ name, name ∈ u.fileNames q.folder ↔
      name ∈ t.fileNames q.folder ++ added.map RetryFile.name := by
    intro name
    rw [mem_fileNames_addAll hq h, List.mem_append, List.mem_map]
    by_cases hold : name ∈ t.fileNames q.folder
    · simp [hold]
    · simp only [hold, false_or, hadded]
      constructor
      · rintro ⟨p, hp, rfl⟩
        exact ⟨_, ⟨⟨p, hp, rfl⟩, hold⟩, rfl⟩
      · rintro ⟨_, ⟨⟨p, hp, rfl⟩, -⟩, hname⟩
        exact ⟨p, hp, hname⟩
  have hsound := (hq.of_addAll h).1.sound
  have hperm := (List.perm_ext_iff_of_nodup (FileTree.nodup_fileNames hsound _) hnodup).mpr hnames
  rw [size_eq_length, size_eq_length, hperm.length_eq, List.length_append, List.length_map]

/-- The files become as many more as payloads are stored exactly if no two have the same timestamp,
and no file was stored under any of these before. -/
theorem size_addAll_eq_iff (hq : q.Usable t) (h : q.addAll t payloads = .ok u) :
    q.size u = q.size t + payloads.length ↔ (payloads.map Payload.timestamp).Nodup ∧
      ∀ p ∈ payloads, q.free t p.timestamp = true := by
  rw [size_addAll hq h, Nat.add_left_cancel_iff]
  have hdedup := (List.dedup_sublist ((payloads.map Payload.timestamp).filter (q.free t))).length_le
  have hfilter := List.length_filter_le (q.free t) (payloads.map Payload.timestamp)
  have hmap : (payloads.map Payload.timestamp).length = payloads.length := List.length_map _
  constructor
  · intro heq
    have hall : (payloads.map Payload.timestamp).filter (q.free t) =
        payloads.map Payload.timestamp := List.filter_sublist.eq_of_length (by omega)
    rw [hall] at heq
    refine ⟨List.dedup_eq_self.mp ((List.dedup_sublist _).eq_of_length (by omega)), ?_⟩
    simpa using List.filter_eq_self.mp hall
  · rintro ⟨hnodup, hfree⟩
    have hall : (payloads.map Payload.timestamp).filter (q.free t) =
        payloads.map Payload.timestamp := List.filter_eq_self.mpr (by simpa using hfree)
    rw [hall, hnodup.dedup, hmap]

/-- Where files are only deleted, and one is, there are fewer. -/
theorem size_lt (ht : t.Sound) (hu : u.Sound) (timestamp : UInt64)
    (hsub : ∀ path content, u.read? path = some content → t.read? path = some content)
    (hgone : u.read? (q.pathOf timestamp) = none)
    (hwas : t.read? (q.pathOf timestamp) ≠ none) : q.size u < q.size t := by
  have hnew : RetryFile.name timestamp ∉ u.fileNames q.folder := by
    rw [FileTree.mem_fileNames hu, ← pathOf, hgone]
    simp
  have hnames : RetryFile.name timestamp :: u.fileNames q.folder ⊆ t.fileNames q.folder := by
    intro name hname
    rw [FileTree.mem_fileNames ht]
    rcases List.mem_cons.mp hname with rfl | hold
    · exact Option.isSome_iff_ne_none.mpr hwas
    · rw [FileTree.mem_fileNames hu] at hold
      obtain ⟨content, hread⟩ := Option.isSome_iff_exists.mp hold
      rw [hsub _ content hread]
      rfl
  have hlength := (List.subperm_of_subset
    (List.nodup_cons.mpr ⟨hnew, FileTree.nodup_fileNames hu q.folder⟩) hnames).length_le
  rw [size_eq_length, size_eq_length]
  exact hlength

/-! ## Emptying -/

/-- Taking out what comes next leaves the others that have not expired. -/
theorem Holds.take (h : q.Holds t m) {now : UInt64} {p : Payload} (hn : q.next t now = (some p, u)) :
    q.Holds (q.remove u p.timestamp) (Function.update (q.kept now m) p.timestamp none) ∧
      q.size (q.remove u p.timestamp) < q.size t ∧ q.kept now m p.timestamp = some p ∧
      ∀ timestamp, p.timestamp < timestamp → q.kept now m timestamp = none := by
  have hkept := h.next now
  rw [hn] at hkept
  obtain ⟨hu, hstored, hnewest⟩ := hkept
  change q.Holds u _ at hu
  have hs := hu.usable.sound
  refine ⟨hu.remove p.timestamp, ?_, hstored, hnewest⟩
  have hback : ∀ path content, u.read? path = some content → t.read? path = some content := by
    intro path content hr
    have hnext : (q.next t now).2.read? path = some content := by rwa [hn]
    exact read?_of_next h.usable.sound hnext
  have hread := hu.read p.timestamp
  rw [hstored, Option.map_some] at hread
  refine size_lt h.usable.sound (FileTree.sound_removeFile hs _) p.timestamp
    (fun path content hr => ?_) ?_ ?_
  · rw [RetryQueue.remove, FileTree.read?_removeFile hs] at hr
    split at hr
    · contradiction
    · exact hback path content hr
  · rw [RetryQueue.remove, FileTree.read?_removeFile hs, if_pos rfl]
  · rw [hback _ _ hread]
    simp

/-- The readings suffice if there are more of them than files. -/
theorem Holds.exists_drain {nows : List UInt64} (h : q.Holds t m) (hlt : q.size t < nows.length) :
    ∃ out, q.drain t nows = some out := by
  induction nows generalizing t m with
  | nil => contradiction
  | cons now nows ih =>
    unfold drain
    rcases hn : q.next t now with ⟨_ | p, u⟩
    · exact ⟨[], rfl⟩
    · obtain ⟨hu, hfewer, -⟩ := h.take hn
      rw [List.length_cons] at hlt
      obtain ⟨out, hout⟩ := ih hu (by omega)
      exact ⟨p :: out, by simp only [hout, Option.map_some]⟩

/-- What comes out of a queue that holds the payloads of a map, at some readings of the clock: each
payload at most once, the newest first, and each that has not expired. -/
structure Drained (q : RetryQueue) (m : PayloadMap) (nows : List UInt64) (out : List Payload) :
    Prop where
  stored : ∀ p ∈ out, m p.timestamp = some p
  newestFirst : out.Pairwise fun p r => r.timestamp < p.timestamp
  others : ∀ p, m p.timestamp = some p →
    p ∈ out ∨ ∃ now ∈ nows, p.timestamp < q.oldestAllowed now

theorem kept_eq_some_iff {now timestamp : UInt64} {p : Payload} :
    q.kept now m timestamp = some p ↔ ¬ timestamp < q.oldestAllowed now ∧ m timestamp = some p := by
  unfold kept
  split
  next hold => simp [of_decide_eq_true hold]
  next hold => simp [of_decide_eq_false (Bool.eq_false_iff.mpr hold)]

theorem Holds.drained {nows : List UInt64} {out : List Payload} (h : q.Holds t m)
    (hd : q.drain t nows = some out) : q.Drained m nows out := by
  induction nows generalizing t m out with
  | nil => contradiction
  | cons now nows ih =>
    unfold drain at hd
    rcases hn : q.next t now with ⟨_ | p, u⟩
    · -- nothing comes next, so all that was stored has expired
      rw [hn] at hd
      obtain rfl := Option.some.inj hd
      refine ⟨by simp, .nil, fun p hp => .inr ⟨now, List.mem_cons_self, ?_⟩⟩
      have hnone := (h.next now).2
      rw [hn] at hnone
      by_contra hnot
      have hkept := kept_eq_some_iff.mpr ⟨hnot, hp⟩
      rw [hnone p.timestamp] at hkept
      contradiction
    · rw [hn] at hd
      obtain ⟨rest, hrest, rfl⟩ := Option.map_eq_some_iff.mp hd
      obtain ⟨hu, -, hstored, hnewest⟩ := h.take hn
      have hbelow := ih hu hrest
      have hkept : ∀ r ∈ rest, r.timestamp ≠ p.timestamp ∧ q.kept now m r.timestamp = some r := by
        intro r hr
        have hold := hbelow.stored r hr
        by_cases hsame : r.timestamp = p.timestamp
        · rw [hsame, Function.update_self] at hold
          contradiction
        · rw [Function.update_of_ne hsame] at hold
          exact ⟨hsame, hold⟩
      refine ⟨?_, ?_, fun r hr => ?_⟩
      · rw [List.forall_mem_cons]
        exact ⟨(kept_eq_some_iff.mp hstored).2, fun r hr => (kept_eq_some_iff.mp (hkept r hr).2).2⟩
      · refine List.pairwise_cons.mpr ⟨fun r hr => ?_, hbelow.newestFirst⟩
        obtain ⟨hne, hr⟩ := hkept r hr
        rcases UInt64.lt_or_lt_of_ne hne with hlt | hgt
        · exact hlt
        · rw [hnewest _ hgt] at hr
          contradiction
      · by_cases hold : r.timestamp < q.oldestAllowed now
        · exact .inr ⟨now, List.mem_cons_self, hold⟩
        have hr := kept_eq_some_iff.mpr ⟨hold, hr⟩
        by_cases hsame : r.timestamp = p.timestamp
        · rw [hsame, hstored, Option.some_inj] at hr
          exact .inl (hr ▸ List.mem_cons_self)
        · rcases hbelow.others r (by rwa [Function.update_of_ne hsame]) with hout | ⟨later, hl, hexp⟩
          · exact .inl (List.mem_cons_of_mem _ hout)
          · exact .inr ⟨later, List.mem_cons_of_mem _ hl, hexp⟩

end RetryQueue
end SpanRelay
