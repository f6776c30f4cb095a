import SpanRelay.Proofs.Json.Integers
import SpanRelay.Proofs.Storage.Files
import SpanRelay.Relay.Basic

/-!
Values that are saved are found again: they are read back from what is written for them, and it is
written to where they are looked for.
-/
namespace SpanRelay

/-! ## Values -/

/-- The probability is read back from the number that is written for it. -/
def Binary64.IsReadBack (p : Binary64) : Prop := (Json.ofDouble p).asDouble? = some p

instance (p : Binary64) : Decidable p.IsReadBack := inferInstanceAs (Decidable (_ = _))

theorem StateValues.ofBytes?_render {v : StateValues} (h : v.probability.IsReadBack) :
    ofBytes? v.toJson.render = some v := by
  have hsound : Json.Sound v.toJson := Json.sound_record (by
    simp [Json.sound_ofDouble, Json.sound_ofInt])
  have hfields : Json.record? ["pValue", "pValueExpiry"] v.toJson =
      some [.ofDouble v.probability, .ofInt v.expiry.toInt] := by
    simp [Json.record?, Json.record, toJson]
  have hexpiry := Json.asInteger?_ofInt v.expiry.le_toInt v.expiry.toInt_lt
  have hp : (Json.ofDouble v.probability).asDouble? = some v.probability := h
  unfold ofBytes?
  simp only [hsound.parse?_render, Option.bind_some, hfields, hp, hexpiry, Int64.ofInt_toInt]

/-! ## Files -/

namespace StateFile

/-- After a save the new content is found at the address. -/
def Saves (t : FileTree) (address : Address) (v : StateValues) : Prop :=
  (save t address v).readAt? address = some v.toJson.render

instance (t : FileTree) (address : Address) (v : StateValues) : Decidable (Saves t address v) :=
  inferInstanceAs (Decidable (_ = _))

theorem load_of_saves {t : FileTree} {address : Address} {v : StateValues}
    (h : Saves t address v) (hp : v.probability.IsReadBack) :
    load (save t address v) address = ⟨address, v⟩ := by
  rw [load, h, Option.bind_some, StateValues.ofBytes?_render hp, Option.getD_some]

end StateFile

theorem Address.isUsable_eq (a : Address) :
    a.isUsable = (a.parts.all (fun part => !decide ('\x00' ∈ part.toList)) &&
      decide (a.size ≤ longestText)) := by
  simp only [isUsable, String.contains_char_eq]

namespace Relay

def statePath : Path := versionFolder ++ ["persistent-state.json"]

/-- The place of the file that takes new content first. -/
def besidePath : Path := versionFolder ++ ["persistent-state.json.tmp"]

theorem beside_stateAddress : StateFile.beside stateAddress = .ofPath besidePath := by decide

theorem parent_stateAddress : stateAddress.parent = .ofPath versionFolder := by decide

variable {t : FileTree}

theorem locate_versionFolder (t : FileTree) :
    t.locate (.ofPath versionFolder) = .ok versionFolder := by
  have hroot : t.node? [] = some .folder := rfl
  have hnames : (Address.ofPath versionFolder).names = ["v1"] := by decide
  have husable : (Address.ofPath versionFolder).isUsable = true := by
    rw [Address.isUsable_eq]
    decide
  have hstep : FileTree.step [] "v1" = .ok versionFolder := rfl
  rw [FileTree.locate, if_pos husable, hnames, FileTree.follow, hroot]
  simp only [hstep]
  rfl

theorem makeFoldersAt_versionFolder (h : t.read? versionFolder = none) (hs : t.Sound) :
    ∃ u, t.makeFoldersAt (.ofPath versionFolder) = (true, u) ∧ u.Sound ∧
      ∀ other, u.node? other = if versionFolder = other then some .folder else t.node? other := by
  obtain ⟨u, hu, hus, hnodes⟩ := FileTree.exists_makeFolder hs h
  have husable : (Address.ofPath versionFolder).isUsable = true := by
    rw [Address.isUsable_eq]
    decide
  have hnames : (Address.ofPath versionFolder).names = ["v1"] := by decide
  have hending : (Address.ofPath versionFolder).ending = .nothing := by decide
  have hstep : FileTree.step [] "v1" = .ok versionFolder := rfl
  have hway : (FileTree.makeWay [] ["v1"] t).2 = u := by
    simp only [FileTree.makeWay, hstep, Except.bind, hu, Except.map]
  have hfolder : u.isFolderAt (.ofPath versionFolder) = true := by
    simp [FileTree.isFolderAt, locate_versionFolder, hnodes]
  refine ⟨u, ?_, hus, hnodes⟩
  rw [FileTree.makeFoldersAt, if_pos husable, hending, hnames]
  simp only [reduceCtorEq, if_false, hway, hfolder]

/-- The address of a file in the folder leads to it once the folder is there. -/
theorem locate_in_versionFolder (h : t.node? versionFolder = some .folder) {name : String}
    (hnames : (Address.ofPath (versionFolder ++ [name])).names = ["v1", name])
    (husable : (Address.ofPath (versionFolder ++ [name])).isUsable = true)
    (hstep : FileTree.step versionFolder name = .ok (versionFolder ++ [name])) :
    t.locate (.ofPath (versionFolder ++ [name])) = .ok (versionFolder ++ [name]) := by
  have hroot : t.node? [] = some .folder := rfl
  have hfirst : FileTree.step [] "v1" = .ok versionFolder := rfl
  rw [FileTree.locate, if_pos husable, hnames, FileTree.follow, hroot]
  simp only [hfirst, Except.bind]
  rw [FileTree.follow, h]
  simp only [hstep, Except.bind]
  rfl

theorem locate_stateAddress (h : t.node? versionFolder = some .folder) :
    t.locate stateAddress = .ok statePath :=
  locate_in_versionFolder h (by decide) (by rw [Address.isUsable_eq]; decide) (by decide)

theorem locate_beside (h : t.node? versionFolder = some .folder) :
    t.locate (StateFile.beside stateAddress) = .ok besidePath := by
  rw [beside_stateAddress]
  exact locate_in_versionFolder h (by decide) (by rw [Address.isUsable_eq]; decide) (by decide)

theorem writeAt_beside (h : t.node? versionFolder = some .folder) (content : Bytes) :
    t.writeAt (StateFile.beside stateAddress) content = t.write besidePath content := by
  have hending : (StateFile.beside stateAddress).ending = .nothing := by decide
  rw [FileTree.writeAt, if_pos hending, locate_beside h]
  rfl

theorem renameAt_beside (h : t.node? versionFolder = some .folder) :
    t.renameAt (StateFile.beside stateAddress) stateAddress = t.rename besidePath statePath := by
  have hending : stateAddress.ending = .nothing := by decide
  rw [FileTree.renameAt, if_pos hending, locate_beside h, locate_stateAddress h]
  rfl

theorem readAt?_stateAddress (h : t.node? versionFolder = some .folder) :
    t.readAt? stateAddress = t.read? statePath := by
  have hending : stateAddress.ending = .nothing := by decide
  rw [FileTree.readAt?, locate_stateAddress h]
  simp only [hending, if_true]

/-- A save succeeds where no file stands in the place of the folder, and no folder in the place of
one of the two files. -/
theorem saves_stateAddress (hs : t.Sound) (hfolder : t.read? versionFolder = none)
    (hplace : t.node? statePath ≠ some .folder)
    (hbeside : t.node? besidePath ≠ some .folder)
    (v : StateValues) : StateFile.Saves t stateAddress v := by
  obtain ⟨made, hmade, hms, hmnodes⟩ := makeFoldersAt_versionFolder hfolder hs
  have hmf : made.node? besidePath.parent = some .folder :=
    (hmnodes versionFolder).trans (if_pos rfl)
  have hmfree : made.node? besidePath ≠ some .folder := by
    rw [hmnodes]
    exact hbeside
  obtain ⟨written, hwrite, hws, hwnodes⟩ := FileTree.exists_write hms hmf hmfree v.toJson.render
  have hwf : written.node? statePath.parent = some .folder := (hwnodes versionFolder).trans hmf
  have hwfree : written.node? statePath ≠ some .folder := by
    rw [hwnodes, hmnodes]
    exact hplace
  obtain ⟨moved, hmove, hvs, hvnodes⟩ := FileTree.exists_write hws hwf hwfree v.toJson.render
  let after : FileTree := ⟨moved.nodes.erase besidePath.key⟩
  have hanodes := FileTree.node?_erase hvs (by decide : besidePath.isUpward = false)
  have hread : written.read? besidePath = some v.toJson.render := by
    rw [FileTree.read?_write hwrite, if_pos rfl]
  have hrename : written.renameAt (StateFile.beside stateAddress) stateAddress = .ok after := by
    rw [renameAt_beside hwf, FileTree.rename, hread]
    simp only [hmove]
    rfl
  have hsave : StateFile.save t stateAddress v = after := by
    rw [StateFile.save, parent_stateAddress, hmade]
    simp only [if_true, writeAt_beside hmf, hwrite, hrename]
    rfl
  have haf : after.node? versionFolder = some .folder := by
    rw [hanodes, hvnodes]
    exact hwf
  rw [StateFile.Saves, hsave, readAt?_stateAddress haf, FileTree.read?_eq_some_iff, hanodes,
    hvnodes]
  rfl

end Relay
end SpanRelay
