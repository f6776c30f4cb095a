import Mathlib.Data.List.Induction
import SpanRelay.Proofs.Payload.Headers
import SpanRelay.Proofs.Recorder.Moves
import SpanRelay.Relay.Works

/-!
What each work of a relay makes of it, and what a remote end sees of it.
-/
namespace SpanRelay

namespace Event

theorem madePayload?_of_inside (e : Event) (h : e.isOutside = false) : e.madePayload? = none := by
  cases e <;> first | contradiction | rfl

theorem tried?_of_inside (e : Event) (h : e.isOutside = false) : e.tried? = none := by
  cases e <;> first | contradiction | rfl

theorem resent?_of_inside (e : Event) (h : e.isOutside = false) : e.resent? = none := by
  cases e <;> first | contradiction | rfl

end Event

namespace Relay

open Recorder (filterMap_log_congr filterMap_log_emit)

/-! ## Runs -/

theorem toil_concat (y : Relay) (works : List Work) (w : Work) :
    y.toil (works ++ [w]) = (y.toil works).work w := List.foldl_concat ..

/-! ## What each work does -/

variable {y : Relay}

theorem exists_takeReply (y : Relay) : ∃ reply replies,
    y.takeReply = (reply, { y with remote := { y.remote with replies } }) ∧
      (reply = .status 200 ∨ reply ∈ y.remote.replies) ∧ ∀ r ∈ replies, r ∈ y.remote.replies := by
  unfold takeReply
  split
  next h => exact ⟨.status 200, [], by rw [← h], .inl rfl, by simp⟩
  next reply rest h =>
    rw [h]
    exact ⟨reply, rest, rfl, .inr List.mem_cons_self, fun r hr => .tail reply hr⟩

/-- A send collects a batch; a batch with spans is encoded and attempted, and what can be tried
again is stored. -/
theorem work_send (y : Relay) : ∃ recorder, recorder.outside = y.recorder.outside ∧
    (y.work .send = { y with recorder } ∨
      ∃ spans p reply replies,
        (∃ clock batch, p = y.remote.encoder.encode clock batch y.resource) ∧
        (reply = .status 200 ∨ reply ∈ y.remote.replies) ∧
        (∀ r ∈ replies, r ∈ y.remote.replies) ∧
        y.work .send = ({ y with
          recorder := recorder.emit (.spansSent spans y.resource p reply)
          remote := { y.remote with replies } } : Relay).keepForRetry (reply.resultFor p)) := by
  have hsteps : Steps true ⟨y.recorder, []⟩ ⟨y.recorder.collectNextBatch.2, []⟩ :=
    steps_collectNextBatch y.recorder
  refine ⟨y.recorder.collectNextBatch.2, hsteps.outside, ?_⟩
  rcases hc : y.recorder.collectNextBatch with ⟨batch, recorder⟩
  unfold work sendTask sendBatch record
  simp only [hc]
  cases batch with
  | none => exact .inl rfl
  | some spans =>
    dsimp only
    split
    · exact .inl rfl
    next hne =>
      obtain ⟨reply, replies, htake, hreply, hsub⟩ := exists_takeReply { y with recorder }
      refine .inr ⟨spans, encode { y with recorder } spans y.resource, reply, replies, ?_, hreply,
        hsub, ?_⟩
      · exact ⟨recorder.clock, spans.filterMap recorder.span?, rfl⟩
      · unfold deliverSpans attemptSpans
        simp only [hne, htake]
        rfl

theorem work_replay_of_not_connected (hc : y.connected = false) : y.work .replay = y := by
  unfold work replayTask replay
  simp only [hc, Bool.not_false, if_true]

theorem work_replay_of_none {files : FileTree} (hc : y.connected = true)
    (hn : y.queue.next y.files y.recorder.clock.wall = (none, files)) :
    y.work .replay = { y with files } := by
  unfold work replayTask replay nextPayload
  simp only [hc, Bool.not_true, Bool.false_eq_true, if_false, hn]

/-- A replay attempts the payload that comes next as it is, and deletes its file unless it can be
tried again. -/
theorem work_replay_of_some {files : FileTree} {p : Payload} (hc : y.connected = true)
    (hn : y.queue.next y.files y.recorder.clock.wall = (some p, files)) :
    ∃ reply replies, (reply = .status 200 ∨ reply ∈ y.remote.replies) ∧
      (∀ r ∈ replies, r ∈ y.remote.replies) ∧
      y.work .replay =
        let z : Relay := { y with
          recorder := y.recorder.emit (.payloadSent p reply)
          files
          remote := { y.remote with replies } }
        if (reply.resultFor p).canRetry then z else z.removePayload p.timestamp := by
  obtain ⟨reply, replies, htake, hreply, hsub⟩ := exists_takeReply { y with files }
  refine ⟨reply, replies, hreply, hsub, ?_⟩
  unfold work replayTask replay nextPayload deliverPayload attemptPayload
  simp only [hc, Bool.not_true, Bool.false_eq_true, if_false, hn] at htake ⊢
  simp only [htake]
  cases hr : reply.resultFor p with
  | success => rfl
  | failed payload canRetry => cases canRetry <;> rfl

theorem work_record (y : Relay) (m : Recorder.Move) :
    ∃ recorder, recorder.outside = y.recorder.outside ∧
      y.work (.record m) = { y with recorder } := by
  have hsteps : Steps true ⟨y.recorder, []⟩ ⟨y.recorder.move m, []⟩ := steps_move m (.inl rfl)
  exact ⟨y.recorder.move m, hsteps.outside, rfl⟩

theorem exists_keepForRetry (y : Relay) (result : DeliveryResult) :
    ∃ files queued, y.keepForRetry result = { y with files, queued } := by
  unfold keepForRetry enqueuePayload
  split
  · exact ⟨y.files, y.queued, rfl⟩
  · cases hadd : y.queue.add y.files _ with
    | error e => exact ⟨y.files, y.queued, rfl⟩
    | ok files => exact ⟨files, y.queued + 1, rfl⟩

theorem keepForRetry_of_add {p : Payload} {files : FileTree}
    (h : y.queue.add y.files p = .ok files) :
    y.keepForRetry (.failed (some p) true) = { y with files, queued := y.queued + 1 } := by
  unfold keepForRetry enqueuePayload DeliveryResult.retryablePayload?
  simp only [h]
  rfl

/-! ## What is made in a run -/

/-- A replay changes no more than the log, the files and the replies that are left. -/
theorem exists_work_replay_eq (y : Relay) : ∃ recorder files replies,
    y.work .replay = { y with recorder, files, remote := { y.remote with replies } } ∧
      recorder.log.filterMap Event.madePayload? = y.made := by
  by_cases hc : y.connected = true
  · rcases hn : y.queue.next y.files y.recorder.clock.wall with ⟨newest, files⟩
    cases newest with
    | none => exact ⟨y.recorder, files, y.remote.replies, work_replay_of_none hc hn, rfl⟩
    | some p =>
      obtain ⟨reply, replies, -, -, heq⟩ := work_replay_of_some hc hn
      let recorder := y.recorder.emit (.payloadSent p reply)
      rw [heq]
      dsimp only
      split
      · exact ⟨recorder, files, replies, rfl, rfl⟩
      · exact ⟨recorder, y.queue.remove files p.timestamp, replies, rfl, rfl⟩
  · have hsame := work_replay_of_not_connected (Bool.not_eq_true _ ▸ hc)
    exact ⟨y.recorder, y.files, y.remote.replies, hsame, rfl⟩

/-- Only a send makes a payload, and it encodes it. -/
theorem made_work (y : Relay) (w : Work) : (y.work w).made = y.made ∨
    w = .send ∧ ∃ clock spans resource,
      (y.work w).made = y.remote.encoder.encode clock spans resource :: y.made := by
  cases w with
  | send =>
    obtain ⟨recorder, hsame, heq | ⟨spans, p, reply, replies, hencode, -, -, heq⟩⟩ := work_send y
    · rw [heq]
      exact .inl (filterMap_log_congr Event.madePayload?_of_inside hsame)
    · obtain ⟨clock, batch, rfl⟩ := hencode
      obtain ⟨files, queued, hkeep⟩ := exists_keepForRetry _ _
      refine .inr ⟨rfl, clock, batch, y.resource, ?_⟩
      rw [heq, hkeep]
      exact filterMap_log_emit Event.madePayload?_of_inside hsame
        (.spansSent spans y.resource _ reply)
  | replay =>
    obtain ⟨recorder, files, replies, heq, hmade⟩ := exists_work_replay_eq y
    rw [heq]
    exact .inl hmade
  | connect connected => exact .inl rfl
  | record m =>
    obtain ⟨recorder, hsame, heq⟩ := work_record y m
    rw [heq]
    exact .inl (filterMap_log_congr Event.madePayload?_of_inside hsame)

theorem encoder_work (y : Relay) (w : Work) : (y.work w).remote.encoder = y.remote.encoder := by
  cases w with
  | send =>
    obtain ⟨recorder, -, heq | ⟨spans, p, reply, replies, -, -, -, heq⟩⟩ := work_send y
    · rw [heq]
    · obtain ⟨files, queued, hkeep⟩ := exists_keepForRetry _ _
      rw [heq, hkeep]
  | replay =>
    obtain ⟨recorder, files, replies, heq, -⟩ := exists_work_replay_eq y
    rw [heq]
  | connect connected => rfl
  | record m => rfl

theorem encoder_toil (y : Relay) (works : List Work) :
    (y.toil works).remote.encoder = y.remote.encoder := by
  induction works using List.reverseRecOn with
  | nil => rfl
  | append_singleton works w ih => rw [toil_concat, encoder_work, ih]

/-- Payloads that were made stay on the list of those that were. -/
theorem made_toil (y : Relay) (before after : List Work) :
    (y.toil before).made <:+ (y.toil (before ++ after)).made := by
  induction after using List.reverseRecOn with
  | nil => rw [List.append_nil]
  | append_singleton after w ih =>
    rw [← List.append_assoc, toil_concat]
    rcases made_work (y.toil (before ++ after)) w with heq | ⟨-, clock, spans, resource, heq⟩
    · exact heq ▸ ih
    · exact heq ▸ ih.trans (List.suffix_cons _ _)

/-- If the key of the encoder can be stored, then so can all that is made in a run. -/
theorem storable_toil {y : Relay} (hy : y.made = [])
    (hk : RetryFile.FitsLine ("Bugsnag-Api-Key", y.remote.encoder.apiKey)) (works : List Work) :
    ∀ p ∈ (y.toil works).made, RetryFile.Storable p := by
  induction works using List.reverseRecOn with
  | nil => exact fun p hp => absurd (hy ▸ hp : p ∈ []) List.not_mem_nil
  | append_singleton works w ih =>
    rw [toil_concat]
    rcases made_work (y.toil works) w with heq | ⟨-, clock, spans, resource, heq⟩
    · rw [heq]
      exact ih
    · rw [heq, encoder_toil, List.forall_mem_cons]
      exact ⟨(RetryFile.storable_encode_iff _ clock spans resource).mpr hk, ih⟩

/-- Only replays deliver payloads from the queue. -/
theorem resent_work (y : Relay) {w : Work} (hw : w ≠ .replay) : (y.work w).resent = y.resent := by
  cases w with
  | send =>
    obtain ⟨recorder, hsame, heq | ⟨spans, p, reply, replies, -, -, -, heq⟩⟩ := work_send y
    · rw [heq]
      exact filterMap_log_congr Event.resent?_of_inside hsame
    · obtain ⟨files, queued, hkeep⟩ := exists_keepForRetry _ _
      rw [heq, hkeep]
      exact filterMap_log_emit Event.resent?_of_inside hsame
        (.spansSent spans y.resource p reply)
  | replay => exact absurd rfl hw
  | connect connected => rfl
  | record m =>
    obtain ⟨recorder, hsame, heq⟩ := work_record y m
    rw [heq]
    exact filterMap_log_congr Event.resent?_of_inside hsame

end Relay
end SpanRelay
