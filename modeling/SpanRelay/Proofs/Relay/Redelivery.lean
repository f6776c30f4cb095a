import SpanRelay.Platform.Standard
import SpanRelay.Proofs.Relay.Ledger
import SpanRelay.Proofs.Relay.Works
import SpanRelay.Proofs.Storage.RetryStore

/-!
Payloads between the task that sends batches and the one that replays stored payloads. The two share
a retry queue. In any run of both, with any answers and any changes of the connection, every payload
that was made of a batch has one fate at each moment.
-/
namespace SpanRelay.Relay

open Recorder (filterMap_log_congr filterMap_log_emit)

/-! ## Fates -/

/-- The file of the payload is there, and is read back as the same payload. -/
def Stores (y : Relay) (p : Payload) : Prop :=
  (y.files.read? (y.queue.pathOf p.timestamp)).map (RetryFile.parse p.timestamp) = some (.ok p)

/-- Older than the age limit allows at this moment. -/
def Expires (y : Relay) (p : Payload) : Prop :=
  p.timestamp < y.queue.oldestAllowed y.recorder.clock.wall

/-- At some replay of the run the relay was like this just before. -/
def AtReplay (y : Relay) (works : List Work) (C : Relay → Prop) : Prop :=
  ∃ before after, works = before ++ .replay :: after ∧ (y.toil before).connected = true ∧
    C (y.toil before)

/-- The payload is accepted or dropped if an attempt was answered so, swept if it was stored when a
replay found it expired, and stored if its file is there. -/
def HasFate (y : Relay) (works : List Work) (p : Payload) : Fate → Prop
  | .accepted => (p, .success) ∈ (y.toil works).tries
  | .dropped => (p, .permanent) ∈ (y.toil works).tries
  | .swept => y.AtReplay works fun z => z.Stores p ∧ z.Expires p
  | .stored => (y.toil works).Stores p

theorem atReplay_concat {y : Relay} {works : List Work} {w : Work} {C : Relay → Prop} :
    y.AtReplay (works ++ [w]) C ↔ y.AtReplay works C ∨
      w = .replay ∧ (y.toil works).connected = true ∧ C (y.toil works) := by
  constructor
  · rintro ⟨before, after, heq, hrest⟩
    rcases List.eq_nil_or_concat after with rfl | ⟨front, last, rfl⟩
    · obtain ⟨rfl, hw⟩ := List.append_inj' heq rfl
      exact .inr ⟨by simpa using hw, hrest⟩
    · have hsplit : works ++ [w] = (before ++ .replay :: front) ++ [last] := by simpa using heq
      obtain ⟨rfl, -⟩ := List.append_inj' hsplit rfl
      exact .inl ⟨before, front, rfl, hrest⟩
  · rintro (⟨before, after, rfl, hrest⟩ | ⟨rfl, hrest⟩)
    · exact ⟨before, after ++ [w], by simp, hrest⟩
    · exact ⟨works, [], rfl, hrest⟩

variable {y : Relay}

/-! ## Keeping the books -/

/-- The relay is in the state that the books tell of. -/
structure Keeps (L : Ledger) (y : Relay) : Prop where
  holds : y.queue.Holds y.files L.stored
  made : y.made = L.made
  tries : y.tries = L.tries
  replies : ∀ r ∈ y.remote.replies, ∃ code, r = .status code

variable {L : Ledger}

theorem Keeps.stores_iff (h : Keeps L y) (p : Payload) :
    y.Stores p ↔ L.stored p.timestamp = some p := by
  unfold Stores
  rw [h.holds.read, Option.map_map]
  constructor
  · intro hp
    obtain ⟨r, hr, hparse⟩ := Option.map_eq_some_iff.mp hp
    obtain ⟨ht, hstorable⟩ := h.holds.storable _ r hr
    rw [Function.comp_apply, ← ht, RetryFile.parse_render hstorable] at hparse
    exact Except.ok.inj hparse ▸ hr
  · intro hp
    obtain ⟨-, hstorable⟩ := h.holds.storable _ p hp
    rw [hp, Option.map_some, Function.comp_apply, RetryFile.parse_render hstorable]

/-- The books stay right while nothing is seen outside. -/
theorem Keeps.congr (h : Keeps L y) {recorder : Recorder} {connected : Bool}
    (hs : recorder.outside = y.recorder.outside) : Keeps L { y with recorder, connected } where
  holds := h.holds
  made := (filterMap_log_congr Event.madePayload?_of_inside hs).trans h.made
  tries := (filterMap_log_congr Event.tried?_of_inside hs).trans h.tries
  replies := h.replies

theorem Keeps.takeReply (h : Keeps L y) {reply : Reply}
    (hr : reply = .status 200 ∨ reply ∈ y.remote.replies) : ∃ code, reply = .status code := by
  rcases hr with rfl | hr
  · exact ⟨200, rfl⟩
  · exact h.replies reply hr

/-- A send leaves the books as they are, or enters a payload that was made with the class of the
answer. -/
theorem Keeps.send (h : Keeps L y) (hs : ∀ p ∈ (y.work .send).made, RetryFile.Storable p) :
    Keeps L (y.work .send) ∨
      ∃ p c, (y.work .send).made = p :: y.made ∧ Keeps (L.send p c) (y.work .send) := by
  obtain ⟨recorder, hsame, heq | ⟨spans, p, reply, replies, -, hreply, hsub, heq⟩⟩ := work_send y
  · rw [heq]
    exact .inl (h.congr hsame)
  obtain ⟨code, rfl⟩ := h.takeReply hreply
  let e : Event := .spansSent spans y.resource p (.status code)
  have hmade : (recorder.emit e).log.filterMap Event.madePayload? = p :: y.made :=
    filterMap_log_emit Event.madePayload?_of_inside hsame e
  have htries : (recorder.emit e).log.filterMap Event.tried? = (p, .ofStatus code) :: y.tries :=
    filterMap_log_emit Event.tried?_of_inside hsame e
  have hreplies : ∀ r ∈ replies, ∃ code, r = .status code := fun r hr => h.replies r (hsub r hr)
  refine .inr ⟨p, .ofStatus code, ?_⟩
  have hwork : (y.work .send).made = p :: y.made := by
    obtain ⟨files, queued, hkeep⟩ := exists_keepForRetry _ _
    rw [heq, hkeep]
    exact hmade
  refine ⟨hwork, ?_⟩
  have hstorable : RetryFile.Storable p := hs p (hwork ▸ List.mem_cons_self)
  obtain ⟨files, hadd, hholds⟩ := h.holds.exists_add hstorable
  rw [heq]
  cases hc : ResponseClass.ofStatus code with
  | success | permanent =>
    rw [hc] at htries
    simp only [Reply.resultFor, hc, ResponseClass.resultFor]
    exact ⟨h.holds, hmade.trans (congrArg _ h.made), htries.trans (congrArg _ h.tries), hreplies⟩
  | retryable =>
    rw [hc] at htries
    simp only [Reply.resultFor, hc, ResponseClass.resultFor]
    let z : Relay := { y with recorder := recorder.emit e, remote := { y.remote with replies } }
    have hkeep : z.keepForRetry _ = _ := keepForRetry_of_add hadd
    rw [hkeep]
    exact ⟨hholds, hmade.trans (congrArg _ h.made), htries.trans (congrArg _ h.tries), hreplies⟩

/-- A replay sweeps the books, and then enters an attempt of a payload that is still stored, if
there is one. -/
theorem Keeps.replay (h : Keeps L y) (hc : y.connected = true) :
    let K := L.sweep (y.queue.oldestAllowed y.recorder.clock.wall)
    Keeps K (y.work .replay) ∧ (y.work .replay).resent = y.resent ∨
      ∃ p c, K.stored p.timestamp = some p ∧ Keeps (K.resend p c) (y.work .replay) ∧
        (y.work .replay).resent = p :: y.resent := by
  intro K
  have hnext := h.holds.next y.recorder.clock.wall
  rcases hn : y.queue.next y.files y.recorder.clock.wall with ⟨newest, files⟩
  rw [hn] at hnext
  obtain ⟨hholds, hfirst⟩ := hnext
  cases newest with
  | none =>
    rw [work_replay_of_none hc hn]
    exact .inl ⟨⟨hholds, h.made, h.tries, h.replies⟩, rfl⟩
  | some p =>
    obtain ⟨reply, replies, hreply, hsub, heq⟩ := work_replay_of_some hc hn
    obtain ⟨code, rfl⟩ := h.takeReply hreply
    have hreplies : ∀ r ∈ replies, ∃ code, r = .status code := fun r hr => h.replies r (hsub r hr)
    have htries : (y.recorder.emit (.payloadSent p (.status code))).log.filterMap Event.tried? =
        (p, .ofStatus code) :: L.tries := congrArg _ h.tries
    refine .inr ⟨p, .ofStatus code, hfirst.1, ?_⟩
    rw [heq]
    cases hclass : ResponseClass.ofStatus code with
    | success | permanent =>
      rw [hclass] at htries
      simp only [Reply.resultFor, hclass, ResponseClass.resultFor, DeliveryResult.canRetry,
        Bool.false_eq_true, if_false]
      exact ⟨⟨hholds.remove p.timestamp, h.made, htries, hreplies⟩, rfl⟩
    | retryable =>
      rw [hclass] at htries
      simp only [Reply.resultFor, hclass, ResponseClass.resultFor, DeliveryResult.canRetry, if_true]
      exact ⟨⟨hholds, h.made, htries, hreplies⟩, rfl⟩

/-! ## Runs keep the books -/

/-- Nothing is in the way of the queue, which is empty; nothing was attempted yet, and every request
will be answered. -/
structure Ready (y : Relay) : Prop where
  usable : y.queue.Usable y.files
  empty : y.queue.list y.files = []
  made : y.made = []
  tries : y.tries = []
  replies : ∀ r ∈ y.remote.replies, ∃ code, r = .status code

/-- The books of a run. -/
structure Books (y : Relay) (works : List Work) (L : Ledger) : Prop where
  keeps : Keeps L (y.toil works)
  sound : L.Sound
  swept : ∀ p, L.swept p ↔ y.AtReplay works fun z => z.Stores p ∧ z.Expires p

theorem Ready.books (h : y.Ready) : Books y [] ⟨[], [], fun _ => False, fun _ => none⟩ := by
  refine ⟨⟨RetryQueue.holds_nothing h.usable h.empty, h.made, h.tries, h.replies⟩,
    Ledger.sound_empty, fun p => ⟨False.elim, ?_⟩⟩
  rintro ⟨before, after, heq, -⟩
  exact absurd heq.symm (List.append_ne_nil_of_right_ne_nil _ (List.cons_ne_nil _ _))

variable {works : List Work}

/-- The books of one more work, other than a replay, in which nothing is swept. -/
theorem Books.concat {K : Ledger} (h : Books y works L) {w : Work} (hw : w ≠ .replay)
    (hk : Keeps K ((y.toil works).work w)) (hsound : K.Sound) (hswept : K.swept = L.swept) :
    Books y (works ++ [w]) K := by
  refine ⟨(toil_concat y works w).symm ▸ hk, hsound, fun p => ?_⟩
  rw [atReplay_concat, hswept, h.swept]
  simp [hw]

theorem Books.replay (h : Books y works L) : ∃ K, Books y (works ++ [.replay]) K := by
  cases hc : (y.toil works).connected with
  | false =>
    refine ⟨L, ?_, h.sound, fun p => ?_⟩
    · rw [toil_concat, work_replay_of_not_connected hc]
      exact h.keeps
    · rw [atReplay_concat, hc, h.swept]
      simp
  | true =>
    have hsweep := h.sound.sweep ((y.toil works).queue.oldestAllowed
      (y.toil works).recorder.clock.wall)
    have hswept : ∀ p, (L.swept p ∨ L.stored p.timestamp = some p ∧ (y.toil works).Expires p) ↔
        y.AtReplay (works ++ [.replay]) fun z => z.Stores p ∧ z.Expires p := by
      intro p
      rw [atReplay_concat, h.swept, h.keeps.stores_iff]
      simp [hc]
    rcases h.keeps.replay hc with ⟨hk, -⟩ | ⟨p, c, hp, hk, -⟩
    · exact ⟨_, toil_concat .. ▸ hk, hsweep, hswept⟩
    · exact ⟨_, toil_concat .. ▸ hk, hsweep.resend hp c, hswept⟩

/-- Every run has books, so long as payloads are apart in time and can be stored. -/
theorem Ready.exists_books (h : y.Ready)
    (hd : ((y.toil works).made.map Payload.timestamp).Nodup)
    (hs : ∀ p ∈ (y.toil works).made, RetryFile.Storable p) : ∃ L, Books y works L := by
  induction works using List.reverseRecOn with
  | nil => exact ⟨_, h.books⟩
  | append_singleton works w ih =>
    -- What was made before is part of what is made now, so both hypotheses hold of it too.
    have hsuffix := made_toil y works [w]
    obtain ⟨L, hL⟩ := ih (hd.sublist (hsuffix.sublist.map _)) fun p hp => hs p (hsuffix.mem hp)
    rw [toil_concat] at hd hs
    cases w with
    | send =>
      rcases hL.keeps.send hs with hk | ⟨p, c, hmade, hk⟩
      · exact ⟨L, hL.concat (by simp) hk hL.sound rfl⟩
      · rw [hmade, List.map_cons, List.nodup_cons, hL.keeps.made] at hd
        exact ⟨_, hL.concat (by simp) hk (hL.sound.send hd.1 c) rfl⟩
    | replay => exact hL.replay
    | connect connected => exact ⟨L, hL.concat (by simp) (hL.keeps.congr rfl) hL.sound rfl⟩
    | record m =>
      obtain ⟨recorder, hsame, heq⟩ := work_record (y.toil works) m
      exact ⟨L, hL.concat (by simp) (heq ▸ hL.keeps.congr hsame) hL.sound rfl⟩

theorem Books.hasFate_iff (h : Books y works L) (p : Payload) (f : Fate) :
    y.HasFate works p f ↔ L.Has p f := by
  cases f with
  | accepted | dropped =>
    unfold HasFate Ledger.Has
    rw [h.keeps.tries]
  | swept => exact (h.swept p).symm
  | stored => exact h.keeps.stores_iff p

/-- At each moment of a run a payload that was made of a batch has one fate and no other, and no
payload was accepted twice. All that is delivered from the queue is payloads that a replay found
stored and not expired, one at a time. -/
theorem fates_toil (h : y.Ready) (hd : ((y.toil works).made.map Payload.timestamp).Nodup)
    (hs : ∀ p ∈ (y.toil works).made, RetryFile.Storable p) :
    (∀ p ∈ (y.toil works).made, ∃ f, ∀ g, y.HasFate works p g ↔ g = f) ∧
      (∀ p, (y.toil works).tries.count (p, .success) ≤ 1) ∧
      ∀ before w after, works = before ++ w :: after →
        (y.toil (before ++ [w])).resent = (y.toil before).resent ∨
          w = .replay ∧ ∃ p ∈ (y.toil before).made,
            (y.toil before).Stores p ∧ ¬ (y.toil before).Expires p ∧
              (y.toil (before ++ [w])).resent = p :: (y.toil before).resent := by
  obtain ⟨L, hL⟩ := h.exists_books hd hs
  refine ⟨fun p hp => ?_, fun p => hL.keeps.tries ▸ hL.sound.once p, fun before w after heq => ?_⟩
  · obtain ⟨f, hf⟩ := hL.sound.fate p (hL.keeps.made ▸ hp)
    exact ⟨f, fun g => (hL.hasFate_iff p g).trans (hf g)⟩
  · rw [toil_concat]
    by_cases hw : w = .replay
    · subst hw
      have hsuffix : (y.toil before).made <:+ (y.toil works).made := heq ▸ made_toil y before _
      obtain ⟨K, hK⟩ := h.exists_books (hd.sublist (hsuffix.sublist.map _)) fun p hp =>
        hs p (hsuffix.mem hp)
      cases hc : (y.toil before).connected with
      | false => exact .inl (congrArg resent (work_replay_of_not_connected hc))
      | true =>
        rcases hK.keeps.replay hc with ⟨-, hsame⟩ | ⟨p, c, hp, -, hresent⟩
        · exact .inl hsame
        · obtain ⟨hstored, hold⟩ := Ledger.stored_sweep.mp hp
          refine .inr ⟨rfl, p, ?_, (hK.keeps.stores_iff p).mpr hstored, hold, hresent⟩
          exact hK.keeps.made ▸ (hK.sound.stored_made _ p hstored).2
    · exact .inl (resent_work _ hw)

/-- A batch that is refused for now, and then replayed. -/
theorem fates_toil_replayed :
    let y := start (.start default .standard true .batch (.probability (.fixed .one)) 100 0) .empty
      (fun _ => 0) 9 ⟨⟨"key", false, .standard⟩, [.status 503, .status 200], none, false⟩ true
      .empty []
    let before := [.record (.create 0 (.ofNumbers 1 1) (.named "")), .record (.finish 0 0 7),
      .record .force, .send]
    ∃ p, (y.toil (before ++ [.replay])).made = [p] ∧
      (∃ f, ∀ g, y.HasFate (before ++ [.replay]) p g ↔ g = f) ∧
      (y.toil (before ++ [.replay])).tries.count (p, .success) ≤ 1 := by
  intro y before
  have hready : y.Ready := by
    refine ⟨RetryQueue.usable_empty _, rfl, rfl, rfl, fun r hr => ?_⟩
    rcases List.mem_cons.mp hr with rfl | hr
    · exact ⟨503, rfl⟩
    · exact ⟨200, List.mem_singleton.mp hr⟩
  have hkey : RetryFile.FitsLine ("Bugsnag-Api-Key", "key") :=
    RetryFile.fitsLine_of_absent (by decide) (by decide) (by decide)
  have hone : (y.toil before).made.map Payload.timestamp = [0] := by decide +kernel
  have hmade : (y.toil (before ++ [.replay])).made = (y.toil before).made := by
    rw [toil_concat]
    exact (made_work _ _).resolve_right (by simp)
  rw [← hmade] at hone
  have hd : ((y.toil (before ++ [.replay])).made.map Payload.timestamp).Nodup := by
    rw [hone]
    exact List.nodup_singleton 0
  obtain ⟨hfate, honce, -⟩ := fates_toil hready hd (storable_toil rfl hkey _)
  obtain ⟨p, hp, -⟩ := List.map_eq_singleton_iff.mp hone
  exact ⟨p, hp, hfate p (hp ▸ List.mem_cons_self), honce p⟩

end SpanRelay.Relay
