import Mathlib.Data.List.Induction
import Mathlib.Logic.Function.Basic
import SpanRelay.Proofs.Storage.Files
import SpanRelay.Proofs.Storage.RetryFormat
import SpanRelay.Proofs.Storage.RetryNames
import SpanRelay.Storage.RetryQueue

/-!
The retry queue as a finite map from timestamps to payloads. `Holds` ties the files of the queue to
the map, and each operation on the files is the operation on the map of the same name.
-/
namespace SpanRelay

namespace RetryQueue

variable {q : RetryQueue} {t u : FileTree}

/-! ## Places -/

theorem pathOf_inj {s timestamp : UInt64} : q.pathOf s = q.pathOf timestamp ↔ s = timestamp := by
  refine ⟨fun h => RetryFile.name_injective ?_, fun h => h ▸ rfl⟩
  simpa [pathOf] using h

theorem isUpward_pathOf (q : RetryQueue) (timestamp : UInt64) :
    (q.pathOf timestamp).isUpward = false := by
  have hname : RetryFile.name timestamp ≠ ".." := by
    intro h
    have ht := RetryFile.timestamp?_name timestamp
    rw [h] at ht
    exact absurd ht (by simp [show RetryFile.timestamp? ".." = none by decide])
  rw [pathOf, Path.isUpward_append]
  simp [Path.isUpward, hname]

theorem length_le_of_mem_stages {path stage : Path} (h : stage ∈ path.stages) :
    stage.length ≤ path.length := by
  induction path generalizing stage with
  | nil => simp [Path.stages] at h
  | cons name path ih =>
    rw [Path.stages, List.mem_cons, List.mem_map] at h
    rcases h with rfl | ⟨rest, hrest, rfl⟩
    · simp
    · simpa using ih hrest

theorem pathOf_ne_stage {stage : Path} (h : stage ∈ q.folder.stages) (timestamp : UInt64) :
    q.pathOf timestamp ≠ stage := by
  rintro rfl
  have hle := length_le_of_mem_stages h
  simp only [pathOf, List.length_append, List.length_singleton] at hle
  omega

/-! ## Writing and deleting -/

/-- Nothing is in the way of the files of the queue. -/
structure Usable (q : RetryQueue) (t : FileTree) : Prop where
  sound : t.Sound
  folder : ∀ stage ∈ q.folder.stages, t.read? stage = none
  names : ∀ timestamp, t.node? (q.pathOf timestamp) ≠ some .folder

theorem usable_empty (q : RetryQueue) : q.Usable .empty := by
  refine ⟨FileTree.sound_empty, fun stage _ => ?_, fun timestamp => ?_⟩
  · unfold FileTree.read? FileTree.node?
    split
    next h => split at h <;> simp_all [FileTree.empty]
    next => rfl
  · simp [FileTree.node?, isUpward_pathOf, FileTree.empty]

/-- Nothing is in the way of a queue whose folder is empty or absent, so long as no file stands
where the folder is to be. -/
theorem usable_of_entries (hs : t.Sound) (hf : ∀ stage ∈ q.folder.stages, t.read? stage = none)
    (he : t.entries q.folder = []) : q.Usable t where
  sound := hs
  folder := hf
  names timestamp := FileTree.node?_ne_folder_of_entries hs he (isUpward_pathOf q timestamp)

theorem list_of_entries (he : t.entries q.folder = []) : q.list t = [] := by
  rw [list, FileTree.fileNames, he, List.filterMap_nil, List.map_nil]

theorem read?_add {p : Payload} (h : q.add t p = .ok u) :
    u.read? (q.pathOf p.timestamp) = some (RetryFile.render p) := by
  unfold add at h
  split at h
  · contradiction
  · split at h
    · contradiction
    next v hw =>
      obtain rfl := Except.ok.inj h
      exact (FileTree.read?_write hw _).trans (if_pos rfl)

/-- Storing a payload writes its file and no other. -/
theorem Usable.exists_add (hq : q.Usable t) (p : Payload) :
    ∃ u, q.add t p = .ok u ∧ q.Usable u ∧
      ∀ path, u.read? path =
        if q.pathOf p.timestamp = path then some (RetryFile.render p) else t.read? path := by
  obtain ⟨v, hv, hvs, hvn⟩ := FileTree.exists_makeFolders hq.sound hq.folder
  have hnode : ∀ timestamp, v.node? (q.pathOf timestamp) = t.node? (q.pathOf timestamp) :=
    fun timestamp => by rw [hvn, if_neg fun h => pathOf_ne_stage h timestamp rfl]
  have hparent : v.node? (q.pathOf p.timestamp).parent = some .folder := by
    rw [Path.parent, pathOf, List.dropLast_concat]
    by_cases hroot : q.folder = []
    · simp [hroot, FileTree.node?, Path.isUpward]
    · rw [hvn, if_pos (FileTree.mem_stages_self hroot)]
  have hfree : v.node? (q.pathOf p.timestamp) ≠ some .folder := hnode _ ▸ hq.names _
  obtain ⟨u, hu, hus, hun⟩ := FileTree.exists_write hvs hparent hfree (RetryFile.render p)
  have hread : ∀ path, u.read? path =
      if q.pathOf p.timestamp = path then some (RetryFile.render p) else t.read? path := by
    intro path
    by_cases hp : q.pathOf p.timestamp = path
    · rw [if_pos hp, FileTree.read?_eq_some_iff, hun, if_pos hp]
    · rw [if_neg hp]
      by_cases hstage : path ∈ q.folder.stages
      · rw [hq.folder path hstage, FileTree.read?, hun, if_neg hp, hvn, if_pos hstage]
      · rw [FileTree.read?, hun, if_neg hp, hvn, if_neg hstage]
        rfl
  refine ⟨u, ?_, ⟨hus, fun stage hs => ?_, fun timestamp => ?_⟩, hread⟩
  · simp only [add, hv, hu]
  · rw [hread, if_neg (pathOf_ne_stage hs _), hq.folder stage hs]
  · rw [hun, hnode]
    split
    · simp
    · exact hq.names timestamp

/-- What was stored is read back under its own timestamp, and it is the same payload exactly when
its headers fit on lines. -/
theorem parse_added_iff {p : Payload} (h : q.add t p = .ok u) :
    RetryFile.timestamp? (RetryFile.name p.timestamp) = some p.timestamp ∧
      ((u.read? (q.pathOf p.timestamp)).map (RetryFile.parse p.timestamp) = some (.ok p) ↔
        ∀ h ∈ p.headers, RetryFile.FitsLine h) := by
  refine ⟨RetryFile.timestamp?_name _, ?_⟩
  rw [read?_add h, Option.map_some, Option.some_inj]
  exact RetryFile.parse_render_iff p

/-- A carriage return at the end of a value and a line end in the body are read back as such. -/
theorem parse_added_carriage_return :
    let q : RetryQueue := ⟨["queue"], 0, fun _ => 0⟩
    let p : Payload := { timestamp := 7, headers := [("", "a\r"), ("b", "")], body := [0x0d, 0x0a] }
    ∃ u, q.add .empty p = .ok u ∧
      (u.read? (q.pathOf 7)).map (RetryFile.parse 7) = some (.ok p) := by
  intro q p
  have hblank : Blank.isBlank 'a' = false := by decide
  have hfits : ∀ h ∈ p.headers, RetryFile.FitsLine h := by
    simp [p, RetryFile.fitsLine_iff, List.infix_cons_iff, hblank]
  obtain ⟨u, hu, -⟩ := (usable_empty q).exists_add p
  exact ⟨u, hu, (parse_added_iff hu).2.mpr hfits⟩

theorem Usable.removeFile (hq : q.Usable t) (path : Path) : q.Usable (t.removeFile path) := by
  refine ⟨FileTree.sound_removeFile hq.sound path, fun stage hs => ?_, fun timestamp => ?_⟩
  · rw [FileTree.read?_removeFile hq.sound, hq.folder stage hs, ite_self]
  · rw [FileTree.node?_removeFile hq.sound]
    split
    · simp
    · exact hq.names timestamp

theorem sound_removeAll (hs : t.Sound) (paths : List Path) : (removeAll t paths).Sound := by
  induction paths generalizing t with
  | nil => exact hs
  | cons first paths ih => exact ih (FileTree.sound_removeFile hs first)

theorem read?_removeAll (hs : t.Sound) (paths : List Path) (path : Path) :
    (removeAll t paths).read? path = if path ∈ paths then none else t.read? path := by
  induction paths generalizing t with
  | nil => simp [removeAll]
  | cons first paths ih =>
    refine (ih (FileTree.sound_removeFile hs first)).trans ?_
    rw [FileTree.read?_removeFile hs]
    by_cases hm : path ∈ paths
    · simp [hm]
    · simp [hm, eq_comm]

theorem Usable.removeAll (hq : q.Usable t) (paths : List Path) :
    q.Usable (removeAll t paths) := by
  induction paths generalizing t with
  | nil => exact hq
  | cons first paths ih => exact ih (hq.removeFile first)

/-! ## The map of stored payloads -/

/-- The files of the queue are those of the stored payloads, each under its own timestamp. -/
structure Holds (q : RetryQueue) (t : FileTree) (stored : UInt64 → Option Payload) : Prop where
  usable : q.Usable t
  read : ∀ timestamp, t.read? (q.pathOf timestamp) = (stored timestamp).map RetryFile.render
  named : ∀ name, (t.read? (q.folder ++ [name])).isSome →
    ∃ timestamp, name = RetryFile.name timestamp
  storable : ∀ timestamp p, stored timestamp = some p →
    p.timestamp = timestamp ∧ RetryFile.Storable p

variable {stored : UInt64 → Option Payload}

theorem read?_of_list_eq_nil (hs : t.Sound) (he : q.list t = []) (name : String) :
    t.read? (q.folder ++ [name]) = none := by
  rw [← Option.not_isSome_iff_eq_none, ← FileTree.mem_fileNames hs]
  rw [list, List.map_eq_nil_iff] at he
  simp [he]

theorem holds_nothing (hq : q.Usable t) (he : q.list t = []) : q.Holds t fun _ => none := by
  have hnone := read?_of_list_eq_nil hq.sound he
  refine ⟨hq, fun timestamp => hnone _, fun name hname => ?_, by simp⟩
  rw [hnone] at hname
  contradiction

theorem mem_list (h : q.Holds t stored) {entry : Option UInt64 × Path} :
    entry ∈ q.list t ↔
      ∃ timestamp, (stored timestamp).isSome ∧ entry = (some timestamp, q.pathOf timestamp) := by
  simp only [list, List.mem_map, FileTree.mem_fileNames h.usable.sound]
  constructor
  · rintro ⟨name, hname, rfl⟩
    obtain ⟨timestamp, rfl⟩ := h.named name hname
    refine ⟨timestamp, ?_, by rw [RetryFile.timestamp?_name]; rfl⟩
    have hread := h.read timestamp
    rw [pathOf] at hread
    simpa [hread] using hname
  · rintro ⟨timestamp, hsome, rfl⟩
    refine ⟨RetryFile.name timestamp, ?_, by rw [RetryFile.timestamp?_name]; rfl⟩
    have hread := h.read timestamp
    rw [pathOf] at hread
    simpa [hread] using hsome

theorem Holds.exists_add (h : q.Holds t stored) {p : Payload} (hp : RetryFile.Storable p) :
    ∃ u, q.add t p = .ok u ∧ q.Holds u (Function.update stored p.timestamp (some p)) := by
  obtain ⟨u, hu, huse, hread⟩ := h.usable.exists_add p
  refine ⟨u, hu, huse, fun timestamp => ?_, fun name hname => ?_, fun timestamp r hr => ?_⟩
  · rw [hread]
    by_cases ht : p.timestamp = timestamp
    · subst ht
      simp
    · rw [if_neg (mt pathOf_inj.mp ht), Function.update_of_ne (Ne.symm ht), h.read]
  · rw [hread] at hname
    split at hname
    next he => exact ⟨p.timestamp, by simpa [pathOf, eq_comm] using he⟩
    next => exact h.named name hname
  · by_cases ht : timestamp = p.timestamp
    · subst ht
      rw [Function.update_self] at hr
      obtain rfl := Option.some.inj hr
      exact ⟨rfl, hp⟩
    · rw [Function.update_of_ne ht] at hr
      exact h.storable timestamp r hr

/-- Deleting the files of some timestamps leaves the payloads of the others. -/
theorem Holds.removeAll (h : q.Holds t stored) (paths : List Path) (gone : UInt64 → Bool)
    (hg : ∀ timestamp, (stored timestamp).isSome →
      (q.pathOf timestamp ∈ paths ↔ gone timestamp = true)) :
    q.Holds (removeAll t paths) fun timestamp =>
      if gone timestamp then none else stored timestamp := by
  have huse := h.usable.removeAll paths
  have hread := read?_removeAll h.usable.sound paths
  refine ⟨huse, fun timestamp => ?_, fun name hname => ?_, fun timestamp p hp => ?_⟩
  · rw [hread, h.read]
    cases hs : stored timestamp with
    | none => simp
    | some p => simp [hg timestamp (by simp [hs]), apply_ite]
  · rw [hread] at hname
    split at hname
    · contradiction
    · exact h.named name hname
  · split at hp
    · contradiction
    · exact h.storable timestamp p hp

theorem Holds.remove (h : q.Holds t stored) (timestamp : UInt64) :
    q.Holds (q.remove t timestamp) (Function.update stored timestamp none) := by
  have hone : q.Holds (q.remove t timestamp)
      fun other => if decide (other = timestamp) then none else stored other :=
    h.removeAll [q.pathOf timestamp] (fun other => decide (other = timestamp)) fun other _ => by
      rw [List.mem_singleton, pathOf_inj, decide_eq_true_iff]
  have hmap : (fun other => if decide (other = timestamp) then none else stored other) =
      Function.update stored timestamp none := by
    funext other
    by_cases ho : other = timestamp <;> simp [ho]
  exact hmap ▸ hone

/-- Ages are differences that stop at zero, and an age limit may exceed every timestamp. -/
theorem lt_oldestAllowed_iff (q : RetryQueue) (now timestamp : UInt64) :
    timestamp < q.oldestAllowed now ↔ timestamp.toNat < now.toNat - q.maxAge := by
  have hnow : now.toNat < UInt64.size := now.toNat_lt
  have hage : (Nanos.saturated q.maxAge).toNat = min q.maxAge (UInt64.size - 1) := by
    rw [Nanos.saturated, UInt64.toNat_ofNat']
    apply Nat.mod_eq_of_lt
    change _ < UInt64.size
    omega
  have holdest : (q.oldestAllowed now).toNat = now.toNat - min q.maxAge (UInt64.size - 1) := by
    rw [oldestAllowed, saturatingDifference, hage, UInt64.toNat_ofNat']
    apply Nat.mod_eq_of_lt
    change _ < UInt64.size
    omega
  rw [UInt64.lt_iff_toNat_lt, holdest]
  omega

/-- Expired payloads are those older than the age limit allows. -/
def kept (q : RetryQueue) (now : UInt64) (stored : UInt64 → Option Payload) :
    UInt64 → Option Payload :=
  fun timestamp => if decide (timestamp < q.oldestAllowed now) then none else stored timestamp

theorem Holds.sweep (h : q.Holds t stored) (now : UInt64) :
    q.Holds (q.sweep t now) (q.kept now stored) := by
  refine h.removeAll _ _ fun timestamp hsome => ?_
  simp only [List.mem_map, List.mem_filter, mem_list h, decide_eq_true_iff]
  constructor
  · rintro ⟨entry, ⟨⟨other, -, rfl⟩, hold⟩, hpath⟩
    obtain rfl := pathOf_inj.mp hpath
    simpa using hold
  · intro hold
    exact ⟨_, ⟨⟨timestamp, hsome, rfl⟩, by simpa using hold⟩, rfl⟩

/-! ## The newest payload -/

theorem newest?_concat (q : RetryQueue) (files : List (Option UInt64 × Path))
    (e : Option UInt64 × Path) :
    q.newest? (files ++ [e]) =
      match e.1, q.newest? files with
      | none, best => best
      | some s, none => some (s, e.2)
      | some s, some (timestamp, path) =>
        if timestamp < s ∨ (timestamp = s ∧ q.rankOf path ≤ q.rankOf e.2) then some (s, e.2)
        else some (timestamp, path) := by
  unfold newest?
  rw [List.foldl_append]
  generalize List.foldl _ none files = best
  obtain ⟨stamp, path⟩ := e
  cases stamp with
  | none => rfl
  | some s => cases best <;> rfl

theorem newest?_eq_none {files : List (Option UInt64 × Path)} (h : q.newest? files = none) :
    ∀ e ∈ files, e.1 = none := by
  induction files using List.reverseRecOn with
  | nil => simp
  | append_singleton files e ih =>
    rw [newest?_concat] at h
    rw [List.forall_mem_append, List.forall_mem_singleton]
    split at h
    next he => exact ⟨ih h, he⟩
    · contradiction
    · split at h <;> contradiction

/-- The file that is found is one of the files, and none has a greater timestamp. -/
theorem newest?_eq_some {files : List (Option UInt64 × Path)} {timestamp : UInt64} {path : Path}
    (h : q.newest? files = some (timestamp, path)) :
    (some timestamp, path) ∈ files ∧ ∀ e ∈ files, ∀ s, e.1 = some s → s ≤ timestamp := by
  have hself : ∀ s r : UInt64, some s = some r → r ≤ s := fun s r hr =>
    Option.some.inj hr ▸ UInt64.le_refl s
  induction files using List.reverseRecOn generalizing timestamp path with
  | nil => simp [newest?] at h
  | append_singleton files e ih =>
    obtain ⟨stamp, place⟩ := e
    rw [newest?_concat] at h
    rw [List.forall_mem_append, List.forall_mem_singleton]
    split at h
    next he =>
      obtain ⟨hm, hle⟩ := ih h
      obtain rfl : stamp = none := he
      exact ⟨List.mem_append_left _ hm, hle, fun s hs => absurd hs (by simp)⟩
    next s he hnone =>
      obtain ⟨rfl, rfl⟩ := Prod.mk.inj (Option.some.inj h)
      obtain rfl : stamp = some s := he
      refine ⟨by simp, fun f hf r hr => ?_, hself s⟩
      exact absurd ((newest?_eq_none hnone f hf).symm.trans hr) (by simp)
    next s best place' he hbest =>
      obtain rfl : stamp = some s := he
      obtain ⟨hm, hle⟩ := ih hbest
      split at h
      next hless =>
        obtain ⟨rfl, rfl⟩ := Prod.mk.inj (Option.some.inj h)
        have hbs : best ≤ s := by
          rcases hless with hlt | ⟨heq, -⟩
          · exact UInt64.le_of_lt hlt
          · exact heq ▸ UInt64.le_refl _
        exact ⟨by simp, fun f hf r hr => UInt64.le_trans (hle f hf r hr) hbs, hself s⟩
      next hless =>
        obtain ⟨rfl, rfl⟩ := Prod.mk.inj (Option.some.inj h)
        rw [not_or] at hless
        refine ⟨List.mem_append_left _ hm, hle, fun r hr => ?_⟩
        exact (Option.some.inj hr) ▸ UInt64.not_lt.mp hless.1

/-- The newest payload that is not expired comes next, and the expired ones are gone. -/
theorem Holds.next (h : q.Holds t stored) (now : UInt64) :
    q.Holds (q.next t now).2 (q.kept now stored) ∧
      match (q.next t now).1 with
      | none => ∀ timestamp, q.kept now stored timestamp = none
      | some p => q.kept now stored p.timestamp = some p ∧
          ∀ timestamp, p.timestamp < timestamp → q.kept now stored timestamp = none := by
  have hsweep := h.sweep now
  unfold RetryQueue.next
  cases hn : q.newest? (q.list (q.sweep t now)) with
  | none =>
    refine ⟨by simpa [hn] using hsweep, ?_⟩
    simp only [hn]
    intro timestamp
    by_contra hsome
    have hm := (mem_list hsweep).mpr ⟨timestamp, Option.isSome_iff_ne_none.mpr hsome, rfl⟩
    exact absurd (newest?_eq_none hn _ hm) (by simp)
  | some best =>
    obtain ⟨timestamp, path⟩ := best
    obtain ⟨hm, hle⟩ := newest?_eq_some hn
    obtain ⟨found, hfound, heq⟩ := (mem_list hsweep).mp hm
    obtain ⟨hts, rfl⟩ := Prod.mk.inj heq
    obtain rfl := Option.some.inj hts
    obtain ⟨p, hp⟩ := Option.isSome_iff_exists.mp hfound
    obtain ⟨rfl, hstorable⟩ := hsweep.storable _ p hp
    have hread := hsweep.read p.timestamp
    rw [hp, Option.map_some] at hread
    simp only [hn, hread, RetryFile.parse_render hstorable]
    refine ⟨hsweep, hp, fun timestamp hlt => ?_⟩
    by_contra hsome
    have hm := (mem_list hsweep).mpr ⟨timestamp, Option.isSome_iff_ne_none.mpr hsome, rfl⟩
    exact absurd hlt (UInt64.not_lt.mpr (hle _ hm timestamp rfl))

end RetryQueue
end SpanRelay
