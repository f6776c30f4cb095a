import SpanRelay.Platform.Standard
import SpanRelay.Proofs.Relay.Works
import SpanRelay.Proofs.Storage.RetryDrain

/-!
What is kept of deliveries that fail for now. Each payload that may be tried again is counted and
stored, and it replaces the one that was stored with the same timestamp. So the count tells how many
are stored exactly if the timestamps are all different, and then none is lost.
-/
namespace SpanRelay

theorem DeliveryResult.eq_of_retryablePayload? {result : DeliveryResult} {p : Payload}
    (h : result.retryablePayload? = some p) : result = .failed (some p) true := by
  match result, h with
  | .failed (some _) true, rfl => rfl

namespace Relay

/-! ## Deliveries -/

variable {y : Relay}

/-- After an attempt its payload may be kept, and that is all that is done to the files. -/
theorem exists_attempted (y : Relay) (d : Dispatch) : ∃ a : Relay,
    a.files = y.files ∧ a.queue = y.queue ∧ a.queued = y.queued ∧
      (y.dispatch d).2 = a.keepForRetry (y.dispatch d).1 := by
  obtain ⟨reply, replies, htake, -, -⟩ := exists_takeReply y
  cases d with
  | spans refs resource =>
    unfold dispatch deliverSpans
    by_cases he : refs.isEmpty = true
    · simp only [he, if_true]
      exact ⟨y, rfl, rfl, rfl, rfl⟩
    · simp only [he, Bool.false_eq_true, if_false, attemptSpans, htake]
      refine ⟨_, ?_, ?_, ?_, rfl⟩ <;> rfl
  | payload p =>
    unfold dispatch deliverPayload attemptPayload
    simp only [htake]
    refine ⟨_, ?_, ?_, ?_, rfl⟩ <;> rfl
  | record m => exact ⟨{ y with recorder := y.recorder.move m }, rfl, rfl, rfl, rfl⟩

/-- Where nothing is in the way, a payload that is to be kept is stored and counted. -/
theorem addAll_keeps? (hq : y.queue.Usable y.files) (d : Dispatch) :
    y.queue.addAll y.files (y.keeps? d).toList = .ok (y.dispatch d).2.files ∧
      (y.dispatch d).2.queue = y.queue ∧
      (y.dispatch d).2.queued = y.queued + (y.keeps? d).toList.length := by
  obtain ⟨a, hfiles, hqueue, hqueued, heq⟩ := exists_attempted y d
  rw [heq]
  cases hk : y.keeps? d with
  | none =>
    rw [keepForRetry, show (y.dispatch d).1.retryablePayload? = none from hk]
    exact ⟨congrArg Except.ok hfiles.symm, hqueue, hqueued⟩
  | some p =>
    obtain ⟨files, hadd, -⟩ := hq.exists_add p
    have hsame : a.queue.add a.files p = .ok files := by rw [hqueue, hfiles, hadd]
    rw [DeliveryResult.eq_of_retryablePayload? hk, keepForRetry_of_add hsame]
    exact ⟨(RetryQueue.addAll_singleton ..).trans hadd, hqueue, congrArg (· + 1) hqueued⟩

/-- In a run all payloads that are to be kept are stored and counted. -/
theorem addAll_keptBy (hq : y.queue.Usable y.files) (ds : List Dispatch) :
    y.queue.addAll y.files (y.keptBy ds) = .ok (y.dispatchAll ds).files ∧
      (y.dispatchAll ds).queue = y.queue ∧
      (y.dispatchAll ds).queued = y.queued + (y.keptBy ds).length := by
  induction ds generalizing y with
  | nil => exact ⟨rfl, rfl, rfl⟩
  | cons d ds ih =>
    obtain ⟨hadd, hqueue, hqueued⟩ := addAll_keeps? hq d
    obtain ⟨hrest, hsame, hcount⟩ := ih (hqueue.symm ▸ (hq.of_addAll hadd).1)
    refine ⟨?_, hsame.trans hqueue, ?_⟩
    · rw [keptBy, RetryQueue.addAll_append, hadd]
      exact hqueue ▸ hrest
    · rw [keptBy, List.length_append, ← Nat.add_assoc, ← hqueued]
      exact hcount

/-! ## What is stored in the end -/

/-- Whatever a queue held, each payload that is to be kept is counted, and its file is written while
all others stay. The files become as many more as are counted exactly if the timestamps are new and
all different. If the queue held nothing but payloads, each under its own timestamp, then what comes
out of it, at any readings of the clock, is the last payload that was stored with each timestamp,
once and unless it has expired; so every payload does if the timestamps are new and all different.
-/
theorem stored_dispatchAll (hq : y.queue.Usable y.files) (ds : List Dispatch) :
    let z := y.dispatchAll ds
    let kept := y.keptBy ds
    let areNew := (kept.map Payload.timestamp).Nodup ∧
      ∀ p ∈ kept, y.queue.free y.files p.timestamp = true
    z.queue = y.queue ∧ z.queued = y.queued + kept.length ∧
      (∀ path, z.files.read? path =
        ((kept.reverse.find? fun p => y.queue.pathOf p.timestamp = path).map RetryFile.render).or
          (y.files.read? path)) ∧
      z.queue.size z.files = y.queue.size y.files +
        ((kept.map Payload.timestamp).filter (y.queue.free y.files)).dedup.length ∧
      (z.queue.size z.files = y.queue.size y.files + kept.length ↔ areNew) ∧
      ∀ (m : PayloadMap) (nows : List UInt64), y.queue.Holds y.files m →
        (∀ p ∈ kept, RetryFile.Storable p) → z.queue.size z.files < nows.length →
        ∃ out, z.queue.drain z.files nows = some out ∧
          y.queue.Drained (m.storing kept) nows out ∧
          (areNew → ∀ p, p ∈ kept ∨ m p.timestamp = some p →
            p ∈ out ∨ ∃ now ∈ nows, p.timestamp < y.queue.oldestAllowed now) := by
  intro z kept areNew
  obtain ⟨hadd, hqueue, hqueued⟩ := addAll_keptBy hq ds
  rw [hqueue]
  refine ⟨rfl, hqueued, (hq.of_addAll hadd).2, RetryQueue.size_addAll hq hadd,
    RetryQueue.size_addAll_eq_iff hq hadd, fun m nows hm hstorable hlt => ?_⟩
  have hholds := hm.of_addAll hstorable hadd
  obtain ⟨out, hout⟩ := hholds.exists_drain hlt
  have hdrained := hholds.drained hout
  refine ⟨out, hout, hdrained, fun ⟨hnodup, hfree⟩ p hp => hdrained.others p ?_⟩
  rcases hp with hkept | hold
  · exact PayloadMap.storing_of_nodup hnodup hkept
  · -- a file is stored under this timestamp, so it is not among the new ones
    have hfile := hm.read p.timestamp
    rw [hold] at hfile
    refine (PayloadMap.storing_of_ne fun r hr heq => ?_).trans hold
    have hnone := hfree r hr
    rw [RetryQueue.free, heq, hfile] at hnone
    contradiction

/-- Two payloads of different times come out again. -/
theorem stored_dispatchAll_of_two :
    let y := start (.start default .standard true .batch (.probability (.fixed .one)) 100 0) .empty
      (fun _ => 0) 1000 ⟨⟨"key", false, .standard⟩, [.status 503, .status 503], none, false⟩ true
      .empty []
    let first : Payload := ⟨12, [("a", "b")], [1]⟩
    let second : Payload := ⟨13, [("a", "b")], [2]⟩
    let z := y.dispatchAll [.payload first, .payload second]
    z.queued = 2 ∧ z.queue.size z.files = 2 ∧
      ∃ out, z.queue.drain z.files [20, 20, 20] = some out ∧ first ∈ out ∧ second ∈ out := by
  intro y first second z
  have hq : y.queue.Usable y.files := RetryQueue.usable_empty _
  obtain ⟨-, hqueued, -, -, hsize, hdrain⟩ :=
    stored_dispatchAll hq [.payload first, .payload second]
  have hkept : y.keptBy [.payload first, .payload second] = [first, second] := by decide +kernel
  rw [hkept] at hqueued hsize hdrain
  have hnew : ([first, second].map Payload.timestamp).Nodup ∧
      ∀ p ∈ [first, second], y.queue.free y.files p.timestamp = true := by
    simp only [List.forall_mem_cons]
    decide +kernel
  have hcount := hsize.mpr hnew
  have hstorable : ∀ p ∈ [first, second], RetryFile.Storable p := by
    have hblank : Blank.isBlank 'b' = false := by decide
    simp [first, second, RetryFile.Storable, RetryFile.fitsLine_iff, List.infix_cons_iff, hblank]
  have hlist : y.queue.list y.files = [] := rfl
  have hnone : y.queue.size y.files = 0 := rfl
  have hempty := RetryQueue.holds_nothing hq hlist
  obtain ⟨out, hout, -, hall⟩ := hdrain _ [20, 20, 20] hempty hstorable (by
    rw [hcount, hnone]
    decide)
  have hfresh : ∀ p ∈ [first, second], ¬ ∃ now ∈ ([20, 20, 20] : List UInt64),
      p.timestamp < y.queue.oldestAllowed now := by
    simp only [List.forall_mem_cons]
    decide +kernel
  rw [List.forall_mem_cons, List.forall_mem_singleton] at hfresh
  refine ⟨hqueued, by rw [hcount, hnone]; rfl, out, hout, ?_, ?_⟩
  · exact (hall hnew first (.inl (by simp))).resolve_right hfresh.1
  · exact (hall hnew second (.inl (by simp))).resolve_right hfresh.2

/-- Of two payloads of the same time both are counted, and the first is overwritten. -/
theorem lost_dispatchAll_of_same_time :
    let y := start (.start default .standard true .batch (.probability (.fixed .one)) 100 0) .empty
      (fun _ => 0) 1000 ⟨⟨"key", false, .standard⟩, [.status 503, .status 503], none, false⟩ true
      .empty []
    let first : Payload := ⟨12, [("a", "b")], [1]⟩
    let second : Payload := ⟨12, [("a", "b")], [2]⟩
    let z := y.dispatchAll [.payload first, .payload second]
    y.keptBy [.payload first, .payload second] = [first, second] ∧ first ≠ second ∧
      z.queued = 2 ∧ z.queue.size z.files = 1 ∧
      z.queue.drain z.files [20, 20] = some [second] := by
  decide +kernel

end Relay
end SpanRelay
