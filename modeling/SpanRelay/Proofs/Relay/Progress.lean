import Mathlib.Data.List.Perm.Subperm
import SpanRelay.Platform.Standard
import SpanRelay.Proofs.Relay.Works
import SpanRelay.Proofs.Storage.RetryTurn

/-!
Replays until nothing is left. The file to read is found by the timestamp in its name, and the file
to delete by the name that the queue makes of the timestamp. A file that bears this name is
delivered with success once at most, whatever else there is in the folder; one that does not is
delivered again and again.
-/
namespace SpanRelay

namespace RetryQueue

variable {q : RetryQueue} {t u : FileTree}

/-- The file bears the name that the queue gives to the timestamp in it. -/
def owns (q : RetryQueue) (path : Path) : Bool :=
  match path.getLast?.bind RetryFile.timestamp? with
  | some timestamp => path == q.pathOf timestamp
  | none => false

/-- All files with a timestamp in their names bear the names that the queue gives. -/
def Owned (q : RetryQueue) (t : FileTree) : Prop :=
  ∀ e ∈ q.list t, e.1.isSome → q.owns e.2 = true

theorem owns_of_mem_list {timestamp : UInt64} {path : Path}
    (h : (some timestamp, path) ∈ q.list t) :
    q.owns path = true ↔ q.pathOf timestamp = path := by
  obtain ⟨name, -, heq⟩ := List.mem_map.mp h
  obtain ⟨hstamp, rfl⟩ := Prod.mk.inj heq
  unfold owns
  rw [List.getLast?_concat, Option.bind_some, hstamp]
  exact beq_iff_eq.trans eq_comm

/-- A listing of fewer files is a shorter one. -/
theorem list_subset (hs : t.Sound) (hu : u.Sound)
    (h : ∀ path content, u.read? path = some content → t.read? path = some content) :
    q.list u ⊆ q.list t := by
  intro e he
  obtain ⟨name, hname, rfl⟩ := List.mem_map.mp he
  rw [FileTree.mem_fileNames hu, Option.isSome_iff_exists] at hname
  obtain ⟨content, hread⟩ := hname
  have hold : name ∈ t.fileNames q.folder := by
    rw [FileTree.mem_fileNames hs, h _ _ hread]
    rfl
  exact List.mem_map.mpr ⟨name, hold, rfl⟩

end RetryQueue

namespace Relay

variable {y : Relay}

/-! ## One replay -/

/-- The file that a replay reads its payload from; none if it has nothing to deliver. -/
def source? (y : Relay) : Option Path :=
  if y.connected && y.nextPayload.1.isSome then
    (y.queue.turn? y.files y.recorder.clock.wall).map Prod.snd
  else none

/-- What a replay has to deliver was read from a file in the folder, which is still there. -/
theorem exists_source (hs : y.files.Sound) (hc : y.connected = true) {p : Payload}
    (hp : y.nextPayload.1 = some p) :
    ∃ path content, y.source? = some path ∧
      (some p.timestamp, path) ∈ y.queue.list y.files ∧
      y.nextPayload.2.files.read? path = some content ∧
      RetryFile.parse p.timestamp content = .ok p := by
  have hnext : y.queue.next y.files y.recorder.clock.wall = (some p, y.nextPayload.2.files) :=
    Prod.ext hp rfl
  obtain ⟨-, path, content, hturn, hread, hparse⟩ := RetryQueue.exists_turn_of_next hs hnext
  have hsource : y.source? = some path := by
    unfold source?
    rw [hc, hp, hturn]
    rfl
  have hlisted : (some p.timestamp, path) ∈ y.queue.list y.files := by
    obtain ⟨hm, -⟩ := RetryQueue.newest?_eq_some hturn
    apply RetryQueue.list_subset hs (RetryQueue.sound_sweep hs _) _ hm
    intro path content h
    exact RetryQueue.read?_of_sweep hs h
  exact ⟨path, content, hsource, hlisted, hread, hparse⟩

theorem connected_of_source {path : Path} (h : y.source? = some path) : y.connected = true := by
  by_contra hoff
  simp [source?, hoff] at h

theorem files_deliverPayload (y : Relay) (p : Payload) :
    (y.deliverPayload .direct p).2.files = y.files ∧
      (y.deliverPayload .direct p).2.queue = y.queue := by
  obtain ⟨reply, replies, htake, -, -⟩ := exists_takeReply y
  unfold deliverPayload attemptPayload
  simp only [htake]
  exact ⟨rfl, rfl⟩

/-- A replay answers whether the payload was accepted, and deletes its file unless it can be tried
again. -/
theorem replay_of_some {p : Payload} (hc : y.connected = true) (hp : y.nextPayload.1 = some p) :
    let attempt := y.nextPayload.2.deliverPayload .direct p
    y.replay = (attempt.1.isSuccess,
      if attempt.1.canRetry then attempt.2 else attempt.2.removePayload p.timestamp) := by
  rcases hn : y.nextPayload with ⟨newest, z⟩
  rw [hn] at hp
  obtain rfl : newest = some p := hp
  unfold replay
  simp only [hc, Bool.not_true, Bool.false_eq_true, if_false, hn]
  rcases z.deliverPayload .direct p with ⟨result, v⟩
  cases result with
  | success => rfl
  | failed payload canRetry => cases canRetry <;> rfl

theorem exists_of_replay (h : y.replay.1 = true) : y.connected = true ∧ ∃ p,
    y.nextPayload.1 = some p ∧
      (y.nextPayload.2.deliverPayload .direct p).1.canRetry = false := by
  cases hc : y.connected with
  | false => simp [replay, hc] at h
  | true =>
    cases hp : y.nextPayload.1 with
    | none =>
      have hn : y.nextPayload = (none, y.nextPayload.2) := Prod.ext hp rfl
      unfold replay at h
      rw [hn] at h
      simp [hc] at h
    | some p =>
      rw [replay_of_some hc hp] at h
      refine ⟨rfl, p, rfl, ?_⟩
      cases hresult : (y.nextPayload.2.deliverPayload .direct p).1 with
      | success => rfl
      | failed payload canRetry =>
        rw [hresult] at h
        contradiction

/-- A final answer is the end of the file that bears the name of the timestamp. -/
theorem files_work_replay {p : Payload} (hc : y.connected = true) (hp : y.nextPayload.1 = some p)
    (hfinal : (y.nextPayload.2.deliverPayload .direct p).1.canRetry = false) :
    (y.work .replay).files =
      y.nextPayload.2.files.removeFile (y.queue.pathOf p.timestamp) := by
  obtain ⟨hfiles, hqueue⟩ := files_deliverPayload y.nextPayload.2 p
  have hwork : y.work .replay =
      (y.nextPayload.2.deliverPayload .direct p).2.removePayload p.timestamp := by
    change y.replay.2 = _
    rw [replay_of_some hc hp, hfinal]
    rfl
  rw [hwork, removePayload, RetryQueue.remove, hfiles, hqueue]
  rfl

/-- A replay that is told so deletes the file it has read exactly if that bears the name that the
queue gives. -/
theorem read?_source_iff (hs : y.files.Sound) {p : Payload} {path : Path}
    (hp : y.nextPayload.1 = some p) (hsource : y.source? = some path)
    (hfinal : (y.nextPayload.2.deliverPayload .direct p).1.canRetry = false) :
    (y.work .replay).files.read? path = none ↔ y.queue.owns path = true := by
  have hc := connected_of_source hsource
  obtain ⟨found, content, hfound, hm, hread, -⟩ := exists_source hs hc hp
  obtain rfl : found = path := Option.some.inj (hfound.symm.trans hsource)
  have hsound : y.nextPayload.2.files.Sound := RetryQueue.sound_next hs _
  rw [files_work_replay hc hp hfinal, FileTree.read?_removeFile hsound,
    RetryQueue.owns_of_mem_list hm, hread]
  simp

/-! ## Runs of replays -/

/-- All but a send leaves the files as they are or deletes some. -/
theorem files_work (hs : y.files.Sound) {w : Work} (hw : w ≠ .send) :
    (y.work w).queue = y.queue ∧ (y.work w).files.Sound ∧ ∀ path content,
      (y.work w).files.read? path = some content → y.files.read? path = some content := by
  cases w with
  | send => exact absurd rfl hw
  | replay =>
    cases hc : y.connected with
    | false =>
      rw [work_replay_of_not_connected hc]
      exact ⟨rfl, hs, fun _ _ h => h⟩
    | true =>
      have hsound : y.nextPayload.2.files.Sound := RetryQueue.sound_next hs _
      have hread : ∀ path content, y.nextPayload.2.files.read? path = some content →
          y.files.read? path = some content := fun _ _ => RetryQueue.read?_of_next hs
      unfold nextPayload at hsound hread
      rcases hn : y.queue.next y.files y.recorder.clock.wall with ⟨newest, files⟩
      rw [hn] at hsound hread
      cases newest with
      | none =>
        rw [work_replay_of_none hc hn]
        exact ⟨rfl, hsound, hread⟩
      | some p =>
        obtain ⟨reply, replies, -, -, heq⟩ := work_replay_of_some hc hn
        rw [heq]
        dsimp only
        split
        · exact ⟨rfl, hsound, hread⟩
        · refine ⟨rfl, FileTree.sound_removeFile hsound _, fun path content h => ?_⟩
          change (files.removeFile _).read? path = some content at h
          rw [FileTree.read?_removeFile hsound] at h
          split at h
          · contradiction
          · exact hread path content h
  | connect connected => exact ⟨rfl, hs, fun _ _ h => h⟩
  | record m => exact ⟨rfl, hs, fun _ _ h => h⟩

/-- The file that was delivered, of a work that is a replay and answers that it did work. -/
def delivered (y : Relay) : Work → List (Option Path)
  | .replay => if y.replay.1 then [y.source?] else []
  | .send | .connect _ | .record _ => []

/-- The files that were delivered with success in a run of replays, one for each. -/
def deliveries (y : Relay) : List Work → List (Option Path)
  | [] => []
  | w :: works => y.delivered w ++ (y.work w).deliveries works

theorem delivered_cases (hs : y.files.Sound) (w : Work) : y.delivered w = [] ∨
    ∃ timestamp path, y.delivered w = [some path] ∧
      (some timestamp, path) ∈ y.queue.list y.files ∧
      (y.queue.owns path = true → (y.work w).files.read? path = none) := by
  cases w with
  | send => exact .inl rfl
  | replay =>
    unfold delivered
    cases hr : y.replay.1 with
    | false => exact .inl rfl
    | true =>
      obtain ⟨hc, p, hp, hfinal⟩ := exists_of_replay hr
      obtain ⟨path, -, hsource, hm, -, -⟩ := exists_source hs hc hp
      refine .inr ⟨p.timestamp, path, ?_, hm, (read?_source_iff hs hp hsource hfinal).mpr⟩
      rw [hsource]
      rfl
  | connect connected => exact .inl rfl
  | record m => exact .inl rfl

/-- What is delivered in a run was in the folder when the run began, and none of the files that
the queue has named is delivered twice. -/
theorem exists_deliveries {works : List Work} (hs : y.files.Sound) (hw : .send ∉ works) :
    ∃ sources : List Path, y.deliveries works = sources.map some ∧
      (∀ path ∈ sources, ∃ timestamp, (some timestamp, path) ∈ y.queue.list y.files) ∧
      (sources.filter y.queue.owns).Nodup := by
  induction works generalizing y with
  | nil => exact ⟨[], rfl, by simp, .nil⟩
  | cons w works ih =>
    rw [List.mem_cons, not_or] at hw
    obtain ⟨hqueue, hsound, hread⟩ := files_work hs (Ne.symm hw.1)
    have hlist := RetryQueue.list_subset (q := y.queue) hs hsound hread
    obtain ⟨sources, heq, hm, hnodup⟩ := ih hsound hw.2
    rw [hqueue] at hm hnodup
    have hold : ∀ path ∈ sources, ∃ timestamp, (some timestamp, path) ∈ y.queue.list y.files :=
      fun path hpath => (hm path hpath).imp fun _ h => hlist h
    rw [deliveries, heq]
    rcases delivered_cases hs w with hnone | ⟨timestamp, path, hone, hpath, hgone⟩
    · exact ⟨sources, by rw [hnone, List.nil_append], hold, hnodup⟩
    · refine ⟨path :: sources, by rw [hone]; rfl, ?_, ?_⟩
      · exact List.forall_mem_cons.mpr ⟨⟨timestamp, hpath⟩, hold⟩
      · by_cases howns : y.queue.owns path = true
        · rw [List.filter_cons_of_pos howns, List.nodup_cons]
          refine ⟨fun hagain => ?_, hnodup⟩
          -- delivered once more, it would still be listed, but it was deleted
          obtain ⟨later, hlater⟩ := hm path (List.mem_of_mem_filter hagain)
          obtain ⟨name, hname, hplace⟩ := List.mem_map.mp hlater
          obtain ⟨-, rfl⟩ := Prod.mk.inj hplace
          rw [FileTree.mem_fileNames hsound, hgone howns] at hname
          contradiction
        · rw [List.filter_cons_of_neg howns]
          exact hnodup

/-- A replay whose payload is accepted, or refused for good, deletes the file it was read from
exactly if the file bears the name that the queue gives. However many replays follow, the files that
do are delivered with success once at most, and no more often than there are files. -/
theorem deliveries_of_owned (hs : y.files.Sound) :
    (∀ p path, y.nextPayload.1 = some p → y.source? = some path →
        (y.nextPayload.2.deliverPayload .direct p).1.canRetry = false →
          ∃ content, y.files.read? path = some content ∧
            RetryFile.parse p.timestamp content = .ok p ∧
            ((y.work .replay).files.read? path = none ↔ y.queue.owns path = true)) ∧
      ∀ works, .send ∉ works → ∃ sources : List Path, y.deliveries works = sources.map some ∧
        (sources.filter y.queue.owns).Nodup ∧
        (sources.filter y.queue.owns).length ≤ y.queue.size y.files ∧
        (y.queue.Owned y.files → sources.filter y.queue.owns = sources) := by
  constructor
  · intro p path hp hsource hfinal
    obtain ⟨found, content, hfound, -, hread, hparse⟩ :=
      exists_source hs (connected_of_source hsource) hp
    obtain rfl : found = path := Option.some.inj (hfound.symm.trans hsource)
    have hgone := read?_source_iff hs hp hsource hfinal
    exact ⟨content, RetryQueue.read?_of_next hs hread, hparse, hgone⟩
  · intro works hw
    obtain ⟨sources, heq, hm, hnodup⟩ := exists_deliveries hs hw
    have hsub : sources.filter y.queue.owns ⊆ (y.queue.list y.files).map Prod.snd := by
      intro path hpath
      obtain ⟨timestamp, hlisted⟩ := hm path (List.mem_of_mem_filter hpath)
      exact List.mem_map_of_mem hlisted
    have hle := (hnodup.subperm hsub).length_le
    rw [List.length_map] at hle
    refine ⟨sources, heq, hnodup, hle, fun howned => ?_⟩
    rw [List.filter_eq_self]
    intro path hpath
    obtain ⟨timestamp, hlisted⟩ := hm path hpath
    exact howned _ hlisted rfl

/-- One file under the name that the queue gives, and two replays. -/
theorem deliveries_of_owned_single :
    let place : Path := ["v1", "retry-queue", "retry-0000000000000000012.json"]
    let files : FileTree := ⟨⟨[(place.key, .file [0x0d, 0x0a])]⟩⟩
    let y := start (.start default .standard true .batch (.probability (.fixed .one)) 100 0) files
      (fun _ => 0) 9 ⟨⟨"key", false, .standard⟩, [], none, false⟩ true .empty []
    (y.work .replay).files.read? place = none ∧ ∃ sources : List Path,
      y.deliveries [.replay, .replay] = sources.map some ∧ sources.Nodup ∧ sources.length ≤ 1 := by
  intro place files y
  have hsound : y.files.Sound := ⟨by decide, by decide⟩
  have howned : y.queue.Owned y.files := by
    unfold RetryQueue.Owned
    decide
  obtain ⟨hdelete, hrun⟩ := deliveries_of_owned hsound
  have hgone : (y.work .replay).files.read? place = none := by
    have howns : y.queue.owns place = true := by decide
    obtain ⟨content, -, -, hiff⟩ := hdelete ⟨12, [], []⟩ place (by decide) (by decide) (by decide)
    exact hiff.mpr howns
  obtain ⟨sources, heq, hnodup, hle, hself⟩ := hrun [.replay, .replay] (by simp)
  rw [hself howned] at hnodup hle
  exact ⟨hgone, sources, heq, hnodup, hle⟩

/-! ## Files with other names -/

/-- A payload that is accepted leaves the files as they were if none stands where the queue would
have it. -/
theorem replay_of_other_name {timestamp : UInt64} {path : Path} {content : Bytes} {p : Payload}
    (hc : y.connected = true) (hr : y.remote.replies = [])
    (hturn : y.queue.turn? y.files y.recorder.clock.wall = some (timestamp, path))
    (hkeep : y.queue.sweep y.files y.recorder.clock.wall = y.files)
    (hread : y.files.read? path = some content)
    (hparse : RetryFile.parse timestamp content = .ok p)
    (hfree : y.files.read? (y.queue.pathOf timestamp) = none) :
    y.source? = some path ∧ y.replay = (true, y.emit (.payloadSent p (.status 200))) := by
  obtain rfl := RetryFile.timestamp_of_parse hparse
  have hnext := RetryQueue.next_of_turn hturn (hkeep.symm ▸ hread)
  rw [hparse, hkeep] at hnext
  have hpayload : y.nextPayload = (some p, y) := by
    unfold nextPayload
    rw [hnext]
  have hattempt : y.deliverPayload .direct p =
      (.success, y.emit (.payloadSent p (.status 200))) := by
    unfold deliverPayload attemptPayload takeReply
    simp only [hr]
    rfl
  constructor
  · unfold source?
    rw [hc, hpayload, hturn]
    rfl
  · have hanswer := replay_of_some hc (congrArg Prod.fst hpayload)
    rw [hpayload, hattempt] at hanswer
    change y.replay = (true, (y.emit _).removePayload p.timestamp) at hanswer
    have hsame : y.queue.remove y.files p.timestamp = y.files :=
      FileTree.removeFile_of_read?_eq_none hfree
    rw [hanswer, removePayload]
    change (true, { y.emit _ with files := y.queue.remove y.files p.timestamp }) = _
    rw [hsame]
    rfl

/-- A file that bears another name is delivered by each replay anew. -/
theorem deliveries_of_other_name {timestamp : UInt64} {path : Path} {content : Bytes} {p : Payload}
    (hc : y.connected = true) (hr : y.remote.replies = [])
    (hturn : y.queue.turn? y.files y.recorder.clock.wall = some (timestamp, path))
    (hkeep : y.queue.sweep y.files y.recorder.clock.wall = y.files)
    (hread : y.files.read? path = some content)
    (hparse : RetryFile.parse timestamp content = .ok p)
    (hfree : y.files.read? (y.queue.pathOf timestamp) = none) (n : Nat) :
    y.deliveries (List.replicate n .replay) = List.replicate n (some path) := by
  induction n generalizing y with
  | zero => rfl
  | succ n ih =>
    obtain ⟨hsource, hreplay⟩ := replay_of_other_name hc hr hturn hkeep hread hparse hfree
    have hwork : y.work .replay = y.emit (.payloadSent p (.status 200)) :=
      congrArg Prod.snd hreplay
    have hrest := ih (y := y.emit (.payloadSent p (.status 200))) hc hr hturn hkeep hread hfree
    rw [List.replicate_succ, List.replicate_succ, deliveries, delivered, hreplay, if_pos rfl,
      hsource, hwork, hrest, List.singleton_append]

/-- A file whose name has fewer digits is delivered twice, and stays. -/
theorem deliveries_of_fewer_digits :
    let place : Path := ["v1", "retry-queue", "retry-12.json"]
    let files : FileTree := ⟨⟨[(place.key, .file [0x0d, 0x0a])]⟩⟩
    let y := start (.start default .standard true .batch (.probability (.fixed .one)) 100 0) files
      (fun _ => 0) 9 ⟨⟨"key", false, .standard⟩, [], none, false⟩ true .empty []
    y.queue.size y.files = 1 ∧ y.deliveries [.replay, .replay] = [some place, some place] ∧
      (y.toil [.replay, .replay]).files.read? place = some [0x0d, 0x0a] := by
  decide

end Relay
end SpanRelay
