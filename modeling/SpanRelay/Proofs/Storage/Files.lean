import SpanRelay.Proofs.Dictionary
import SpanRelay.Storage.FileTree

/-! What stands where in a tree of files after an operation that succeeds. -/
namespace SpanRelay

theorem Path.isUpward_append {p q : Path} : (p ++ q).isUpward = (p.isUpward && q.isUpward) :=
  List.all_append

namespace FileTree

/-- No place has two nodes, and none is kept for the root and the folders above it. -/
structure Sound (t : FileTree) : Prop where
  nodup : t.nodes.keys.Nodup
  below : ∀ key ∈ t.nodes.keys, key.2.isUpward = false

theorem sound_empty : empty.Sound := ⟨.nil, by simp [empty, Dictionary.keys, Dictionary.empty]⟩

variable {t : FileTree}

theorem Sound.insert (hs : t.Sound) {path : Path} (hp : path.isUpward = false) (node : FileNode) :
    Sound ⟨t.nodes.insert path.key node⟩ := by
  refine ⟨Dictionary.nodup_keys_insert hs.nodup _ _, fun key hkey => ?_⟩
  rcases (Dictionary.mem_keys_putEntry ..).mp hkey with rfl | hold
  · exact hp
  · exact hs.below key hold

theorem Sound.erase (hs : t.Sound) (key : Nat × Path) : Sound ⟨t.nodes.erase key⟩ := by
  refine ⟨Dictionary.nodup_keys_erase hs.nodup key, fun other hother => hs.below other ?_⟩
  exact ((Dictionary.entries_dropEntry_sublist key t.nodes.entries).map Prod.fst).subset hother

theorem isUpward_of_node?_ne (t : FileTree) {path : Path} (h : t.node? path ≠ some .folder) :
    path.isUpward = false := by
  rw [← Bool.not_eq_true]
  intro hp
  exact h (by simp [node?, hp])

theorem node?_insert {path : Path} (hp : path.isUpward = false) (node : FileNode) (other : Path) :
    node? ⟨t.nodes.insert path.key node⟩ other =
      if path = other then some node else t.node? other := by
  unfold node?
  rw [Dictionary.get?_insert]
  by_cases h : path = other
  · subst h
    simp [hp]
  · simp [h, Path.key_inj]

theorem node?_erase (hs : t.Sound) {path : Path} (hp : path.isUpward = false) (other : Path) :
    node? ⟨t.nodes.erase path.key⟩ other = if path = other then none else t.node? other := by
  unfold node?
  rw [Dictionary.get?_erase hs.nodup]
  by_cases h : path = other
  · subst h
    simp [hp]
  · simp [h, Path.key_inj]

theorem read?_eq_some_iff {path : Path} {content : Bytes} :
    t.read? path = some content ↔ t.node? path = some (.file content) := by
  unfold read?
  split <;> simp_all

/-! ## Folders -/

theorem read?_makeFolder {u : FileTree} {path : Path} (hu : t.makeFolder path = .ok u)
    (other : Path) : u.read? other = t.read? other := by
  unfold makeFolder at hu
  split at hu
  next hn =>
    obtain rfl := Except.ok.inj hu
    have hp : path.isUpward = false := isUpward_of_node?_ne t (by simp [hn])
    unfold read?
    rw [node?_insert hp]
    by_cases h : path = other
    · simp [← h, hn]
    · simp [h]
  next => rw [Except.ok.inj hu]
  next => contradiction

/-- Folders are made beside all files. -/
theorem read?_makeFolders {u : FileTree} {path : Path} (hu : t.makeFolders path = .ok u)
    (other : Path) : u.read? other = t.read? other := by
  unfold makeFolders at hu
  generalize path.stages = stages at hu
  induction stages generalizing t with
  | nil => rw [Except.ok.inj hu]
  | cons stage stages ih =>
    rw [List.foldlM_cons] at hu
    cases hv : t.makeFolder stage with
    | error fault =>
      rw [hv] at hu
      contradiction
    | ok v =>
      rw [hv] at hu
      exact (ih hu).trans (read?_makeFolder hv other)

theorem exists_makeFolder (hs : t.Sound) {path : Path} (hf : t.read? path = none) :
    ∃ u, t.makeFolder path = .ok u ∧ u.Sound ∧
      ∀ other, u.node? other = if path = other then some .folder else t.node? other := by
  unfold makeFolder
  split
  next hn =>
    have hp : path.isUpward = false := isUpward_of_node?_ne t (by simp [hn])
    exact ⟨_, rfl, hs.insert hp _, node?_insert hp _⟩
  next hn =>
    refine ⟨t, rfl, hs, fun other => ?_⟩
    split
    next h => rw [← h, hn]
    next => rfl
  next content hn =>
    rw [read?_eq_some_iff.mpr hn] at hf
    contradiction

theorem exists_foldlM_makeFolder {paths : List Path} (hs : t.Sound)
    (hf : ∀ path ∈ paths, t.read? path = none) :
    ∃ u, paths.foldlM makeFolder t = .ok u ∧ u.Sound ∧
      ∀ other, u.node? other = if other ∈ paths then some .folder else t.node? other := by
  induction paths generalizing t with
  | nil => exact ⟨t, rfl, hs, by simp⟩
  | cons path paths ih =>
    obtain ⟨u, hu, hus, hun⟩ := exists_makeFolder hs (hf path (by simp))
    have hfree : ∀ other ∈ paths, u.read? other = none := by
      intro other ho
      have hother := hf other (by simp [ho])
      unfold read? at hother ⊢
      rw [hun]
      split
      · next h => split at h <;> simp_all
      · rfl
    obtain ⟨v, hv, hvs, hvn⟩ := ih hus hfree
    refine ⟨v, ?_, hvs, fun other => ?_⟩
    · rw [List.foldlM_cons, hu]
      exact hv
    · rw [hvn, hun]
      by_cases ho : other ∈ paths
      · simp [ho]
      · simp [ho, eq_comm]

/-- Folders are made where no file stands in the way. -/
theorem exists_makeFolders (hs : t.Sound) {path : Path}
    (hf : ∀ stage ∈ path.stages, t.read? stage = none) :
    ∃ u, t.makeFolders path = .ok u ∧ u.Sound ∧
      ∀ other, u.node? other = if other ∈ path.stages then some .folder else t.node? other :=
  exists_foldlM_makeFolder hs hf

theorem mem_stages_self {path : Path} (h : path ≠ []) : path ∈ path.stages := by
  induction path with
  | nil => contradiction
  | cons name path ih =>
    cases path with
    | nil => simp [Path.stages]
    | cons next path => simpa [Path.stages] using ih (by simp)

/-! ## Files -/

theorem exists_write (hs : t.Sound) {path : Path} (hp : t.node? path.parent = some .folder)
    (hf : t.node? path ≠ some .folder) (content : Bytes) :
    ∃ u, t.write path content = .ok u ∧ u.Sound ∧
      ∀ other, u.node? other = if path = other then some (.file content) else t.node? other := by
  have hup := isUpward_of_node?_ne t hf
  refine ⟨_, ?_, hs.insert hup _, node?_insert hup _⟩
  unfold write
  simp only [hp]

theorem read?_write {u : FileTree} {path : Path} {content : Bytes}
    (hu : t.write path content = .ok u) (other : Path) :
    u.read? other = if path = other then some content else t.read? other := by
  unfold write at hu
  split at hu
  next => contradiction
  next => contradiction
  next =>
    split at hu
    next => contradiction
    next hf =>
      obtain rfl := Except.ok.inj hu
      unfold read?
      rw [node?_insert (isUpward_of_node?_ne t hf)]
      by_cases h : path = other <;> simp [h]

theorem removeFile_of_read?_eq_none {path : Path} (h : t.read? path = none) :
    t.removeFile path = t := by
  unfold removeFile
  split
  next content hn =>
    rw [read?_eq_some_iff.mpr hn] at h
    contradiction
  · rfl

theorem sound_removeFile (hs : t.Sound) (path : Path) : (t.removeFile path).Sound := by
  unfold removeFile
  split
  · exact hs.erase _
  · exact hs

theorem node?_removeFile (hs : t.Sound) (path other : Path) :
    (t.removeFile path).node? other =
      if path = other ∧ (t.read? path).isSome then none else t.node? other := by
  unfold removeFile read?
  cases hn : t.node? path with
  | none => simp
  | some node =>
    cases node with
    | folder => simp
    | file content =>
      simpa using node?_erase hs (isUpward_of_node?_ne t (by simp [hn])) other

theorem read?_removeFile (hs : t.Sound) (path other : Path) :
    (t.removeFile path).read? other = if path = other then none else t.read? other := by
  by_cases h : path = other
  · subst h
    rw [read?, node?_removeFile hs]
    cases hr : t.read? path with
    | none => simpa [read?] using hr
    | some content => simp
  · simp [read?, node?_removeFile hs, h]

/-! ## Listings -/

theorem mem_fileNames (hs : t.Sound) {folder : Path} {name : String} :
    name ∈ t.fileNames folder ↔ (t.read? (folder ++ [name])).isSome := by
  have hentry : name ∈ t.fileNames folder ↔
      ∃ content, ((folder ++ [name]).key, FileNode.file content) ∈ t.nodes.entries := by
    simp only [fileNames, entries, List.mem_filterMap]
    constructor
    · rintro ⟨⟨other, node⟩, ⟨⟨key, node'⟩, he, hkey⟩, hname⟩
      split at hkey
      · split at hkey
        next h =>
          obtain ⟨rfl, rfl⟩ := Prod.mk.inj (Option.some.inj hkey)
          cases node' with
          | folder => contradiction
          | file content =>
            obtain rfl := Option.some.inj hname
            exact ⟨content, by simpa [← h] using he⟩
        next => contradiction
      · contradiction
    · rintro ⟨content, he⟩
      exact ⟨(name, .file content), ⟨_, he, by simp [Path.key]⟩, rfl⟩
  simp only [hentry, Dictionary.mem_entries_iff hs.nodup, Option.isSome_iff_exists,
    read?_eq_some_iff, node?]
  refine exists_congr fun content => ?_
  by_cases hup : (folder ++ [name]).isUpward = true
  · have hnone : t.nodes.get? (folder ++ [name]).key = none := by
      rw [Dictionary.get?_eq_none_iff]
      intro hm
      have hbelow := hs.below _ hm
      rw [Path.key, hup] at hbelow
      contradiction
    simp [hup, hnone]
  · simp [hup]

/-- Each name that is listed has its own place. -/
theorem keys_entries_sublist (t : FileTree) (folder : Path) :
    ((t.entries folder).map fun e => (folder ++ [e.1]).key).Sublist t.nodes.keys := by
  unfold entries Dictionary.keys
  induction t.nodes.entries with
  | nil => exact .slnil
  | cons e rest ih =>
    rw [List.filterMap_cons, List.map_cons]
    split
    · exact ih.cons e.1
    next a ha =>
      rw [List.map_cons]
      split at ha
      · split at ha
        next hplace =>
          obtain rfl := Option.some.inj ha
          rw [hplace]
          exact ih.cons_cons _
        · contradiction
      · contradiction

/-- No name is listed twice. -/
theorem nodup_fileNames (hs : t.Sound) (folder : Path) :
    (t.fileNames folder).Nodup := by
  have hentries : (t.entries folder).Pairwise fun e f => e.1 ≠ f.1 := by
    refine (List.pairwise_map.mp (hs.nodup.sublist (keys_entries_sublist t folder))).imp ?_
    intro e f hne he
    exact hne (congrArg (fun name => (folder ++ [name]).key) he)
  refine List.pairwise_filterMap.mpr (hentries.imp ?_)
  intro e f hne a ha b hb hab
  apply hne
  split at ha
  · split at hb
    · rw [Option.some.inj ha, Option.some.inj hb, hab]
    · contradiction
  · contradiction

/-- A folder that is empty or absent has no folder in it. -/
theorem node?_ne_folder_of_entries (hs : t.Sound) {folder : Path}
    (he : t.entries folder = []) {name : String} (hup : (folder ++ [name]).isUpward = false) :
    t.node? (folder ++ [name]) ≠ some .folder := by
  intro hn
  rw [node?, hup, if_neg Bool.false_ne_true, ← Dictionary.mem_entries_iff hs.nodup] at hn
  have hentry : (name, FileNode.folder) ∈ t.entries folder :=
    List.mem_filterMap.mpr ⟨_, hn, by simp [Path.key]⟩
  rw [he] at hentry
  contradiction

end FileTree
end SpanRelay
