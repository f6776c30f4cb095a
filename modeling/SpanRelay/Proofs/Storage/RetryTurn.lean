import SpanRelay.Proofs.Storage.RetryStore

/-!
Which file of a retry queue is read next, whatever its folder holds: any names and any bytes. A
payload that is answered was read from that file, and the file of which none could be read is gone.
-/
namespace SpanRelay.RetryQueue

variable {q : RetryQueue} {t u : FileTree} {now : UInt64}

/-- The file whose turn it is once the expired ones are swept away, behind the timestamp in its
name. -/
def turn? (q : RetryQueue) (t : FileTree) (now : UInt64) : Option (UInt64 × Path) :=
  q.newest? (q.list (q.sweep t now))

/-! ## Sweeping -/

theorem sound_sweep (hs : t.Sound) (now : UInt64) : (q.sweep t now).Sound :=
  sound_removeAll hs _

/-- Sweeping leaves files as they are or deletes them. -/
theorem read?_of_sweep (hs : t.Sound) {path : Path} {content : Bytes}
    (h : (q.sweep t now).read? path = some content) : t.read? path = some content := by
  rw [sweep, read?_removeAll hs] at h
  split at h
  · contradiction
  · exact h

/-- Nothing is older than an age limit that exceeds every clock. -/
theorem sweep_of_unbounded (hage : UInt64.size ≤ q.maxAge + 1) (t : FileTree) (now : UInt64) :
    q.sweep t now = t := by
  have hnone : ∀ e ∈ q.list t, ¬ decide (e.1.getD 0 < q.oldestAllowed now) = true := by
    intro e _ hold
    have hlt := of_decide_eq_true hold
    have hnow : now.toNat < UInt64.size := now.toNat_lt
    rw [lt_oldestAllowed_iff] at hlt
    omega
  rw [sweep, List.filter_eq_nil_iff.mpr hnone]
  rfl

/-! ## The turn of a file -/

/-- The file is in the folder, and its name holds the timestamp. -/
theorem exists_of_turn (hs : t.Sound) {timestamp : UInt64} {path : Path}
    (h : q.turn? t now = some (timestamp, path)) :
    ∃ name content, path = q.folder ++ [name] ∧ RetryFile.timestamp? name = some timestamp ∧
      (q.sweep t now).read? path = some content := by
  obtain ⟨hm, -⟩ := newest?_eq_some h
  obtain ⟨name, hname, he⟩ := List.mem_map.mp hm
  obtain ⟨hstamp, rfl⟩ := Prod.mk.inj he
  rw [FileTree.mem_fileNames (sound_sweep hs now), Option.isSome_iff_exists] at hname
  obtain ⟨content, hread⟩ := hname
  exact ⟨name, content, rfl, hstamp, hread⟩

theorem next_of_turn {timestamp : UInt64} {path : Path} {content : Bytes}
    (h : q.turn? t now = some (timestamp, path))
    (hread : (q.sweep t now).read? path = some content) :
    q.next t now =
      match RetryFile.parse timestamp content with
      | .ok p => (some p, q.sweep t now)
      | .error _ => (none, (q.sweep t now).removeFile path) := by
  unfold turn? at h
  unfold next
  cases hparse : RetryFile.parse timestamp content with
  | ok p => simp only [h, hread, hparse]
  | error c => simp only [h, hread, hparse]

theorem next_of_no_turn (h : q.turn? t now = none) : q.next t now = (none, q.sweep t now) := by
  unfold turn? at h
  unfold next
  simp only [h]

/-- A payload that is answered was read from the file whose turn it was, and that file stays. -/
theorem exists_turn_of_next (hs : t.Sound) {p : Payload} (h : q.next t now = (some p, u)) :
    u = q.sweep t now ∧ ∃ path content, q.turn? t now = some (p.timestamp, path) ∧
      u.read? path = some content ∧ RetryFile.parse p.timestamp content = .ok p := by
  cases hturn : q.turn? t now with
  | none =>
    rw [next_of_no_turn hturn] at h
    exact absurd (congrArg Prod.fst h) (by simp)
  | some e =>
    obtain ⟨timestamp, path⟩ := e
    obtain ⟨name, content, -, -, hread⟩ := exists_of_turn hs hturn
    rw [next_of_turn hturn hread] at h
    cases hparse : RetryFile.parse timestamp content with
    | error c =>
      rw [hparse] at h
      exact absurd (congrArg Prod.fst h) (by simp)
    | ok r =>
      rw [hparse] at h
      obtain ⟨hp, rfl⟩ := Prod.mk.inj h
      obtain rfl := Option.some.inj hp
      obtain rfl := RetryFile.timestamp_of_parse hparse
      exact ⟨rfl, path, content, rfl, hread, hparse⟩

/-- Whatever comes next, files are left as they are or deleted. -/
theorem sound_next (hs : t.Sound) (now : UInt64) : (q.next t now).2.Sound := by
  cases hturn : q.turn? t now with
  | none =>
    rw [next_of_no_turn hturn]
    exact sound_sweep hs now
  | some e =>
    obtain ⟨name, content, -, -, hread⟩ := exists_of_turn hs hturn
    rw [next_of_turn hturn hread]
    split
    · exact sound_sweep hs now
    · exact FileTree.sound_removeFile (sound_sweep hs now) _

theorem read?_of_next (hs : t.Sound) {path : Path} {content : Bytes}
    (h : (q.next t now).2.read? path = some content) : t.read? path = some content := by
  apply read?_of_sweep hs
  cases hturn : q.turn? t now with
  | none =>
    rw [next_of_no_turn hturn] at h
    exact h
  | some e =>
    obtain ⟨name, found, -, -, hread⟩ := exists_of_turn hs hturn
    rw [next_of_turn hturn hread] at h
    split at h
    · exact h
    · rw [FileTree.read?_removeFile (sound_sweep hs now)] at h
      split at h
      · contradiction
      · exact h

/-! ## A single file -/

/-- The file of a payload that was stored in an empty queue is the only one. -/
theorem turn?_add (hq : q.Usable t) (he : q.list t = []) (hage : UInt64.size ≤ q.maxAge + 1)
    {p : Payload} (hadd : q.add t p = .ok u) (now : UInt64) :
    q.turn? u now = some (p.timestamp, q.pathOf p.timestamp) := by
  obtain ⟨v, hv, huse, hread⟩ := hq.exists_add p
  obtain rfl : v = u := Except.ok.inj (hv.symm.trans hadd)
  have honly : ∀ e ∈ q.list v, e = (some p.timestamp, q.pathOf p.timestamp) := by
    intro e hm
    obtain ⟨name, hname, rfl⟩ := List.mem_map.mp hm
    rw [FileTree.mem_fileNames huse.sound, hread] at hname
    split at hname
    next hplace =>
      obtain rfl : RetryFile.name p.timestamp = name := by simpa [pathOf] using hplace
      rw [RetryFile.timestamp?_name]
      rfl
    · rw [read?_of_list_eq_nil hq.sound he] at hname
      contradiction
  have hmem : (some p.timestamp, q.pathOf p.timestamp) ∈ q.list v := by
    have hname : RetryFile.name p.timestamp ∈ v.fileNames q.folder := by
      rw [FileTree.mem_fileNames huse.sound, ← pathOf, read?_add hadd]
      rfl
    exact List.mem_map.mpr ⟨_, hname, by rw [RetryFile.timestamp?_name, pathOf]⟩
  rw [turn?, sweep_of_unbounded hage]
  cases hn : q.newest? (q.list v) with
  | none => exact absurd (newest?_eq_none hn _ hmem) (by simp)
  | some best =>
    obtain ⟨hbest, -⟩ := newest?_eq_some hn
    have heq := honly _ hbest
    rw [Prod.mk.injEq, Option.some_inj] at heq
    exact congrArg some (Prod.ext heq.1 heq.2)

/-- A payload comes back from a queue that was empty exactly if its headers fit on lines. -/
theorem next_add_iff (hq : q.Usable t) (he : q.list t = []) (hage : UInt64.size ≤ q.maxAge + 1)
    (p : Payload) (now : UInt64) :
    (∃ u, q.add t p = .ok u ∧ (q.next u now).1 = some p) ↔ RetryFile.Storable p := by
  obtain ⟨u, hadd, -⟩ := hq.exists_add p
  have hturn := turn?_add hq he hage hadd now
  have hread : (q.sweep u now).read? (q.pathOf p.timestamp) = some (RetryFile.render p) := by
    rw [sweep_of_unbounded hage, read?_add hadd]
  have hnext := next_of_turn hturn hread
  rw [← RetryFile.parse_render_iff]
  constructor
  · rintro ⟨v, hv, hback⟩
    obtain rfl : u = v := Except.ok.inj (hadd.symm.trans hv)
    rw [hnext] at hback
    split at hback
    next r hparse =>
      rw [hparse, Option.some.inj hback]
    · contradiction
  · intro hparse
    rw [hparse] at hnext
    exact ⟨u, hadd, congrArg Prod.fst hnext⟩

end SpanRelay.RetryQueue
