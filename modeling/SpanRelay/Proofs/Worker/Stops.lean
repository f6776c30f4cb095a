import SpanRelay.Proofs.Worker.Lifecycle

/-!
What a caller of `stop` can rely on. From its return on no pass begins. That the tasks are detached
it knows if it took the thread and so waited for it; but the thread is there to take only once, and
a caller that finds it taken, by another caller or by a task, returns while tasks are still called.
-/
namespace SpanRelay

theorem Signals.joinable_of_after {s : Signals} {calls : List HandleCall}
    (h : (s.after calls).joinable = true) : s.joinable = true := by
  induction calls generalizing s with
  | nil => exact h
  | cons c calls ih =>
    have hrest := ih h
    cases c with
    | wake => exact hrest
    | stop => contradiction

variable {σ : Type} [Signalled σ]

namespace Signalled

/-- The thread is there to be waited for. -/
def isJoinable (world : σ) : Bool := (signals world).joinable

theorem Courteous.isJoinable {a b : σ} (h : Courteous a b) (hb : isJoinable b = true) :
    isJoinable a = true := by
  obtain ⟨calls, hsignals⟩ := h
  unfold Signalled.isJoinable at hb ⊢
  rw [hsignals] at hb
  exact Signals.joinable_of_after hb

end Signalled

open Signalled (Courteous isJoinable)
open WorkerCall (Complete course detaches)

/-! ## The thread -/

namespace Machine

variable {m n : Machine σ} {tally : σ → Nat} {seen : List Happening}

theorem Step.phase_ne_finished (hs : m.Step n) : m.phase ≠ .finished := by
  intro hp
  cases hs <;> simp_all

/-- A thread that is through with its tasks calls nothing more. -/
theorem Turn.finished (ht : m.Turn tally seen n) (hp : m.phase = .finished) :
    n.phase = .finished ∧ n.calls = m.calls := by
  cases ht with
  | step hs => exact absurd hp hs.phase_ne_finished
  | elapse hr => simp [hp] at hr
  | start hu => simp [hp] at hu
  | wake | none | cells => exact ⟨hp, rfl⟩

theorem Step.isJoinable (hs : m.Step n) (hw : m.Within Courteous)
    (hn : isJoinable n.world = true) : isJoinable m.world = true := by
  rcases hs.world_within hw .refl with hworld | ⟨-, rfl⟩
  · exact hworld.isJoinable hn
  · simpa [rise, Signalled.isJoinable] using hn

end Machine

namespace Crew

variable {b c d : Crew σ} {move : Move} {moves : List Move} {i : ℕ}

/-- What is lost in a run is lost in one of its moves. -/
theorem exists_move?_of_not (P : Crew σ → Prop) (h : b.run? moves = some c) (hb : P b)
    (hc : ¬P c) :
    ∃ first move second x y, moves = first ++ move :: second ∧ b.run? first = some x ∧
      x.move? move = some y ∧ y.run? second = some c ∧ P x ∧ ¬P y := by
  induction moves generalizing b with
  | nil =>
    obtain rfl := Option.some.inj h
    contradiction
  | cons move moves ih =>
    obtain ⟨d, hd, hrest⟩ := Option.bind_eq_some_iff.mp h
    by_cases hp : P d
    · obtain ⟨first, other, second, x, y, rfl, hx, hfacts⟩ := ih hrest hp
      refine ⟨move :: first, other, second, x, y, rfl, ?_, hfacts⟩
      rw [run?, hd]
      exact hx
    · exact ⟨[], move, moves, b, d, rfl, rfl, hd, hrest, hb, hp⟩

/-! ## Calls of `stop` -/

/-- What the next step of a call does, and where it leads. -/
inductive Advance (c : Crew σ) : StopPoint → Machine σ → StopPoint → Prop where
  | lower : Advance c .lowering (c.signal fun s => { s with running := false }) .waking
  | wake : Advance c .waking (c.signal .wake) .taking
  | take (hj : isJoinable c.machine.world = true) :
      Advance c .taking (c.signal fun s => { s with joinable := false }) .joining
  | miss (hj : isJoinable c.machine.world = false) : Advance c .taking c.machine .returned
  | leave (hp : c.machine.phase = .finished) : Advance c .joining c.machine .returned

theorem advance_of_advance? {p q : StopPoint} {m : Machine σ} (h : c.advance? p = some (m, q)) :
    c.Advance p m q := by
  unfold advance? at h
  split at h
  · obtain ⟨rfl, rfl⟩ := Prod.mk.inj (Option.some.inj h)
    exact .lower
  · obtain ⟨rfl, rfl⟩ := Prod.mk.inj (Option.some.inj h)
    exact .wake
  · split at h
    next hj =>
      obtain ⟨rfl, rfl⟩ := Prod.mk.inj (Option.some.inj h)
      exact .take hj
    next hj =>
      obtain ⟨rfl, rfl⟩ := Prod.mk.inj (Option.some.inj h)
      exact .miss (Bool.not_eq_true _ ▸ hj)
  · split at h
    next hp =>
      obtain ⟨rfl, rfl⟩ := Prod.mk.inj (Option.some.inj h)
      exact .leave hp
    · contradiction
  · contradiction

namespace Advance

variable {p q : StopPoint} {m : Machine σ}

theorem isRunning_eq_false (h : c.Advance .lowering m q) : m.isRunning = false := by
  cases h with
  | lower => simp [Machine.isRunning, Signalled.isRunning, signal]

theorem isJoinable (h : c.Advance p m .joining) : isJoinable c.machine.world = true := by
  cases h with
  | take hj => exact hj

/-- When a call begins to wait, or returns without, the thread is taken; a call that has waited took
it before. -/
theorem taken (h : c.Advance p m q) (hq : q = .joining ∨ q = .returned) :
    Signalled.isJoinable m.world = false ∨ p = .joining := by
  cases h with
  | lower | wake => simp at hq
  | take => exact .inl (by simp [Signalled.isJoinable, signal])
  | miss hj => exact .inl hj
  | leave => exact .inr rfl

theorem of_joining (h : c.Advance .joining m q) : m.phase = .finished := by
  cases h with
  | leave hp => exact hp

end Advance

theorem exists_advance (h : c.move? (.stop i) = some d) :
    ∃ p q, c.stops[i]? = some p ∧ c.Advance p d.machine q ∧ d.stops = c.stops.set i q := by
  unfold move? at h
  dsimp only at h
  split at h
  · contradiction
  next p hp =>
    obtain ⟨⟨m, q⟩, hq, rfl⟩ := Option.map_eq_some_iff.mp h
    exact ⟨p, q, hp, advance_of_advance? hq, rfl⟩

/-- A call is where it was, has just been made or has taken its next step. -/
theorem point_cases (h : c.move? move = some d) {q : StopPoint} (hq : d.stops[i]? = some q) :
    c.stops[i]? = some q ∧ move ≠ .stop i ∨ q = .lowering ∨
      move = .stop i ∧ ∃ p, c.stops[i]? = some p ∧ c.Advance p d.machine q := by
  cases move with
  | worker | elapse =>
    obtain ⟨m, -, rfl⟩ := Option.map_eq_some_iff.mp h
    exact .inl ⟨hq, nofun⟩
  | start | wake =>
    obtain rfl := Option.some.inj h
    exact .inl ⟨hq, nofun⟩
  | callStop =>
    obtain rfl := Option.some.inj h
    rw [List.getElem?_append] at hq
    split at hq
    · exact .inl ⟨hq, nofun⟩
    · exact .inr (.inl (by simpa using List.mem_of_getElem? hq))
  | stop call =>
    obtain ⟨p, next, hp, hadvance, hstops⟩ := exists_advance h
    rw [hstops] at hq
    by_cases hi : call = i
    · subst hi
      rw [List.getElem?_set_self (List.getElem?_eq_some_iff.mp hp).1] at hq
      obtain rfl := Option.some.inj hq
      exact .inr (.inr ⟨rfl, p, hp, hadvance⟩)
    · rw [List.getElem?_set_ne hi] at hq
      exact .inl ⟨hq, fun hmove => hi (Move.stop.inj hmove)⟩

/-- Once the worker has started, the thread is taken by a task or by a call that then waits. -/
theorem isJoinable_cases (h : c.move? move = some d) (hp : c.machine.phase ≠ .unstarted) :
    isJoinable d.machine.world = isJoinable c.machine.world ∨ move = .worker ∨
      isJoinable d.machine.world = false ∧ ∃ j : ℕ, d.stops[j]? = some .joining := by
  cases move with
  | worker => exact .inr (.inl rfl)
  | elapse =>
    obtain ⟨m, hm, rfl⟩ := Option.map_eq_some_iff.mp h
    unfold Machine.elapse? at hm
    split at hm
    · obtain rfl := Option.some.inj hm
      exact .inl (by simp [isJoinable])
    · contradiction
  | start =>
    obtain rfl := Option.some.inj h
    exact .inl (by rw [Machine.start_of_started hp])
  | wake =>
    obtain rfl := Option.some.inj h
    exact .inl (by simp [isJoinable, Machine.wake, Signalled.raiseWake, Signals.wake])
  | callStop =>
    obtain rfl := Option.some.inj h
    exact .inl rfl
  | stop call =>
    obtain ⟨p, q, hcall, hadvance, hstops⟩ := exists_advance h
    have hlt : call < c.stops.length := (List.getElem?_eq_some_iff.mp hcall).1
    rw [hstops]
    generalize d.machine = m at hadvance ⊢
    cases hadvance with
    | lower | wake => exact .inl (by simp [isJoinable, signal, Signals.wake])
    | take => exact .inr (.inr ⟨by simp [isJoinable, signal], call, List.getElem?_set_self hlt⟩)
    | miss | leave => exact .inl rfl

theorem isJoinable_of_move? (h : c.move? move = some d) (hw : c.machine.Within Courteous)
    (hp : c.machine.phase ≠ .unstarted) (hd : isJoinable d.machine.world = true) :
    isJoinable c.machine.world = true := by
  rcases isJoinable_cases h hp with hsame | rfl | ⟨htaken, -⟩
  · exact hsame ▸ hd
  · obtain ⟨m, hm, rfl⟩ := Option.map_eq_some_iff.mp h
    exact (Machine.step_of_step? hm).isJoinable hw hd
  · rw [htaken] at hd
    contradiction

/-- What is known once a worker has started, of all calls but the first `n`. -/
structure Heeds (n : ℕ) (c : Crew σ) : Prop where
  started : c.machine.phase ≠ .unstarted
  within : c.machine.Within Courteous
  lowered : ∀ i q, n ≤ i → c.stops[i]? = some q → q ≠ .lowering → c.machine.isRunning = false
  taken : ∀ i q, n ≤ i → c.stops[i]? = some q → q = .joining ∨ q = .returned →
    isJoinable c.machine.world = false
  /-- At most one call waits for the thread. -/
  alone : ∀ i j, n ≤ i → n ≤ j → c.stops[i]? = some .joining → c.stops[j]? = some .joining → i = j

theorem Heeds.isRunning_eq_false {n : ℕ} (h : Heeds n c) (hm : c.move? move = some d)
    (hr : c.machine.isRunning = false) : d.machine.isRunning = false := by
  by_contra hd
  have hc := (turn_of_move? (fun _ => 0) hm).isRunning h.within
    (absurd · h.started) (Bool.not_eq_false _ ▸ hd)
  exact absurd hc (Bool.not_eq_true _ ▸ hr)

theorem Heeds.isJoinable_eq_false {n : ℕ} (h : Heeds n c) (hm : c.move? move = some d)
    (hj : isJoinable c.machine.world = false) : isJoinable d.machine.world = false := by
  by_contra hd
  have hc := isJoinable_of_move? hm h.within h.started (Bool.not_eq_false _ ▸ hd)
  exact absurd hc (Bool.not_eq_true _ ▸ hj)

/-- A second call that waits would have found the thread taken. -/
theorem Heeds.alone_move? {n j : ℕ} (h : Heeds n c) (hm : c.move? move = some d) (hi : n ≤ i)
    (hj : n ≤ j) (hqi : d.stops[i]? = some .joining) (hqj : d.stops[j]? = some .joining) :
    i = j := by
  rcases point_cases hm hqi with ⟨holdi, -⟩ | hne | ⟨hmi, p, -, hadvance⟩
  · rcases point_cases hm hqj with ⟨holdj, -⟩ | hne | ⟨-, p, -, hadvance⟩
    · exact h.alone i j hi hj holdi holdj
    · contradiction
    · have htaken := h.taken i .joining hi holdi (.inl rfl)
      exact absurd hadvance.isJoinable (Bool.not_eq_true _ ▸ htaken)
  · contradiction
  · rcases point_cases hm hqj with ⟨holdj, -⟩ | hne | ⟨hmj, -⟩
    · have htaken := h.taken j .joining hj holdj (.inl rfl)
      exact absurd hadvance.isJoinable (Bool.not_eq_true _ ▸ htaken)
    · contradiction
    · exact Move.stop.inj (hmi.symm.trans hmj)

theorem Heeds.move? {n : ℕ} (h : Heeds n c) (hm : c.move? move = some d) : Heeds n d where
  started := (turn_of_move? (fun _ => 0) hm).phase_ne_unstarted h.started
  within := (turn_of_move? (fun _ => 0) hm).within h.within
  lowered i q hi hq hne := by
    rcases point_cases hm hq with ⟨hold, -⟩ | rfl | ⟨-, p, hp, hadvance⟩
    · exact h.isRunning_eq_false hm (h.lowered i q hi hold hne)
    · contradiction
    · -- only the first step of a call lowers the flag; at all others it was lowered before
      by_cases hfirst : p = .lowering
      · subst hfirst
        exact hadvance.isRunning_eq_false
      · exact h.isRunning_eq_false hm (h.lowered i p hi hp hfirst)
  taken i q hi hq hlast := by
    rcases point_cases hm hq with ⟨hold, -⟩ | rfl | ⟨-, p, hp, hadvance⟩
    · exact h.isJoinable_eq_false hm (h.taken i q hi hold hlast)
    · simp at hlast
    · rcases hadvance.taken hlast with hj | rfl
      · exact hj
      · exact h.isJoinable_eq_false hm (h.taken i .joining hi hp (.inl rfl))
  alone i j hi hj hqi hqj := h.alone_move? hm hi hj hqi hqj

theorem Heeds.run? {n : ℕ} (h : Heeds n b) (hc : b.run? moves = some c) : Heeds n c := by
  induction moves generalizing b with
  | nil => exact Option.some.inj hc ▸ h
  | cons move moves ih =>
    obtain ⟨d, hd, hrest⟩ := Option.bind_eq_some_iff.mp hc
    exact ih (h.move? hd) hrest

/-- Of the calls to come nothing is asked yet. -/
theorem heeds_of_started (hw : c.machine.Within Courteous) (hp : c.machine.phase ≠ .unstarted) :
    Heeds c.stops.length c := by
  have hnone : ∀ i, c.stops.length ≤ i → c.stops[i]? = none := fun i hi =>
    List.getElem?_eq_none_iff.mpr hi
  refine ⟨hp, hw, ?_, ?_, ?_⟩
  · simp_all
  · simp_all
  · simp_all

/-- What is known of a worker that starts, of the calls to come. -/
theorem heeds_start {x : Crew σ} (hw : x.machine.Within Courteous)
    (hp : x.machine.phase = .unstarted) (hb : x.move? .start = some b) :
    Heeds x.stops.length b ∧ isJoinable b.machine.world = true := by
  have hwithin := (turn_of_move? (fun _ => 0) hb).within hw
  obtain rfl := Option.some.inj hb
  have hstarted : x.machine.start.phase ≠ .unstarted := by simp [Machine.start_phase hp]
  exact ⟨heeds_of_started hwithin hstarted, by simp [isJoinable, Machine.signals_start hp]⟩

/-! ## Waiting for the thread -/

/-- A call waits as long as there is something to wait for. -/
theorem waits_move? (h : c.stops[i]? = some .joining ∨ c.machine.phase = .finished)
    (hm : c.move? move = some d) : d.stops[i]? = some .joining ∨ d.machine.phase = .finished := by
  rcases h with h | h
  · cases move with
    | worker | elapse =>
      obtain ⟨m, -, rfl⟩ := Option.map_eq_some_iff.mp hm
      exact .inl h
    | start | wake =>
      obtain rfl := Option.some.inj hm
      exact .inl h
    | callStop =>
      obtain rfl := Option.some.inj hm
      have hlt : i < c.stops.length := (List.getElem?_eq_some_iff.mp h).1
      exact .inl ((List.getElem?_append_left hlt).trans h)
    | stop call =>
      obtain ⟨p, q, hp, hadvance, hstops⟩ := exists_advance hm
      by_cases hi : call = i
      · subst hi
        obtain rfl := Option.some.inj (hp.symm.trans h)
        exact .inr hadvance.of_joining
      · rw [hstops, List.getElem?_set_ne hi]
        exact .inl h
  · exact .inr ((turn_of_move? (fun _ => 0) hm).finished h).1

theorem waits_run? (h : c.stops[i]? = some .joining ∨ c.machine.phase = .finished)
    (hd : c.run? moves = some d) : d.stops[i]? = some .joining ∨ d.machine.phase = .finished := by
  induction moves generalizing c with
  | nil => exact Option.some.inj hd ▸ h
  | cons move moves ih =>
    obtain ⟨e, he, hrest⟩ := Option.bind_eq_some_iff.mp hd
    exact ih (waits_move? h he) hrest

theorem finished_run? (hp : c.machine.phase = .finished) (hd : c.run? moves = some d) :
    d.machine.phase = .finished ∧ d.machine.calls = c.machine.calls :=
  run?_keeps (P := fun m => m.phase = .finished ∧ m.calls = c.machine.calls)
    (fun h ht => ⟨(ht.finished h.1).1, (ht.finished h.1).2.trans h.2⟩) hd ⟨hp, rfl⟩

/-- A step of the thread has taken the thread away from those who could wait for it: a task has
stopped its own worker. -/
def TakenByTask (b : Crew σ) (moves : List Move) : Prop :=
  ∃ first second x y, moves = first ++ .worker :: second ∧ b.run? first = some x ∧
    x.move? .worker = some y ∧ isJoinable x.machine.world = true ∧
    isJoinable y.machine.world = false

/-- If the thread is not there any more, a task has taken it or a call has waited for it. -/
theorem taken_cases {n : ℕ} (h : Heeds n b) (hb : isJoinable b.machine.world = true)
    (hc : b.run? moves = some c) (hj : isJoinable c.machine.world = false) :
    c.machine.phase = .finished ∨ (∃ j : ℕ, c.stops[j]? = some .joining) ∨ TakenByTask b moves := by
  -- the move by which the thread was taken
  obtain ⟨first, move, second, x, y, rfl, hx, hy, hrest, hxj, hyj⟩ :=
    exists_move?_of_not (fun c => isJoinable c.machine.world = true) hc hb (by simp [hj])
  rw [Bool.not_eq_true] at hyj
  rcases isJoinable_cases hy (h.run? hx).started with hsame | rfl | ⟨-, j, hwaits⟩
  · rw [hsame, hxj] at hyj
    contradiction
  · exact .inr (.inr ⟨first, second, x, y, rfl, hx, hy, hxj, hyj⟩)
  · rcases waits_run? (.inl hwaits) hrest with hwaits | hfinished
    · exact .inr (.inl ⟨j, hwaits⟩)
    · exact .inl hfinished

/-- A call that has returned has lowered the flag, for good, and there is no thread left or someone
else has taken it. -/
theorem Heeds.of_returned {n : ℕ} (h : Heeds n b) (hb : isJoinable b.machine.world = true)
    (hc : b.run? moves = some c) (hi : n ≤ i) (hreturned : c.stops[i]? = some .returned) :
    (c.machine.phase = .finished ∨ (∃ j : ℕ, c.stops[j]? = some .joining) ∨
      TakenByTask b moves) ∧
    c.machine.isRunning = false ∧
    ∀ more d, c.run? more = some d → d.machine.passes = c.machine.passes := by
  have hend := h.run? hc
  have hlow := hend.lowered i .returned hi hreturned nofun
  refine ⟨taken_cases h hb hc (hend.taken i .returned hi hreturned (.inr rfl)), hlow, ?_⟩
  intro more d hd
  have hstopped : c.machine.StoppedAfter c.machine.passes := ⟨hend.started, hlow, rfl, hend.within⟩
  exact (run?_keeps (fun h ht => Machine.StoppedAfter.turn h ht) hd hstopped).2.2.1

/-! ## The results -/

/-- When a call made after the start has returned, the worker is not running and no pass will begin.
Either all tasks are detached, or another call still waits for that, or a task has taken the thread.
At most one call waits, until the thread has finished; from then on no task is called. -/
theorem stops_run? {startup : σ → Option (List (Task σ)) × σ} {world : σ}
    {before rest : List Move} {x b c : Crew σ} (hstartup : StartsWithin Courteous startup)
    (hx : (create (.create world startup)).run? before = some x)
    (hp : x.machine.phase = .unstarted) (hb : x.move? .start = some b)
    (hc : b.run? rest = some c) :
    (∀ i, x.stops.length ≤ i → c.stops[i]? = some .returned →
      (c.machine.phase = .finished ∨ (∃ j : ℕ, c.stops[j]? = some .joining) ∨
        TakenByTask b rest) ∧
      c.machine.isRunning = false ∧
      ∀ moves d, c.run? moves = some d → d.machine.passes = c.machine.passes) ∧
    (∀ i j, x.stops.length ≤ i → x.stops.length ≤ j → c.stops[i]? = some .joining →
      c.stops[j]? = some .joining → i = j) ∧
    (∀ i : ℕ, c.stops[i]? = some .joining → ∀ moves d, c.run? moves = some d →
      d.stops[i]? = some .returned → d.machine.phase = .finished) ∧
    (c.machine.phase = .finished →
      (∃ passes, Complete c.machine.tasks.length passes ∧ c.machine.calls =
        course c.machine.tasks.length passes ++ detaches c.machine.tasks.length) ∧
      ∀ moves d, c.run? moves = some d → d.machine.calls = c.machine.calls) := by
  have hwithin : x.machine.Within Courteous :=
    run?_keeps (fun h ht => ht.within h) hx (Machine.within_create hstartup)
  obtain ⟨hheeds, hjoinable⟩ := heeds_start hwithin hp hb
  have hend := hheeds.run? hc
  have hcreated : (Machine.create world startup).IsOnCourse := rfl
  have hcourse : c.machine.IsOnCourse :=
    run?_keeps (fun h ht => Machine.IsOnCourse.turn h ht) hc
      ((run?_keeps (fun h ht => Machine.IsOnCourse.turn h ht) hx hcreated).turn
        (turn_of_move? (fun _ => 0) hb))
  refine ⟨fun i hi hreturned => hheeds.of_returned hjoinable hc hi hreturned, hend.alone,
    fun i hwaits moves d hd hreturned => ?_,
    fun hfinished => ⟨?_, fun moves d hd => (finished_run? hfinished hd).2⟩⟩
  · rcases waits_run? (.inl hwaits) hd with hstill | hfinished
    · rw [hstill] at hreturned
      contradiction
    · exact hfinished
  · obtain ⟨passes, hcomplete, -, hcalls⟩ := hcourse.exists_course
    exact ⟨passes, hcomplete, hcalls hfinished⟩

/-- Two calls stop a worker in a pass: the second returns while the first waits, and the first when
the tasks are detached. -/
theorem stops_run?_second_caller :
    ∃ x b c d : Crew Stage,
      (create (Stage.worker [[.idle]] [(.ok, .ok)] false)).run? [] = some x ∧
      x.move? .start = some b ∧
      b.run? (List.replicate 5 .worker ++
        [.callStop, .callStop, .stop 0, .stop 0, .stop 0, .stop 1, .stop 1, .stop 1]) = some c ∧
      c.stops = [.joining, .returned] ∧ c.machine.isRunning = false ∧
      c.run? (List.replicate 8 .worker ++ [.stop 0]) = some d ∧
      d.stops[0]? = some .returned ∧ d.machine.phase = .finished := by
  let x := create (Stage.worker [[.idle]] [(.ok, .ok)] false)
  let first := List.replicate 5 Move.worker ++
    [.callStop, .callStop, .stop 0, .stop 0, .stop 0, .stop 1, .stop 1, .stop 1]
  let second := List.replicate 8 Move.worker ++ [.stop 0]
  have hfacts : ((x.move? .start).bind fun b => (b.run? first).bind fun c =>
      (c.run? second).map fun d => (c.stops, d.stops[0]?)) =
        some ([.joining, .returned], some .returned) := by
    decide +kernel
  obtain ⟨b, hb, hfacts⟩ := Option.bind_eq_some_iff.mp hfacts
  obtain ⟨c, hc, hfacts⟩ := Option.bind_eq_some_iff.mp hfacts
  obtain ⟨d, hd, hstops⟩ := Option.map_eq_some_iff.mp hfacts
  obtain ⟨hcs, hds⟩ := Prod.mk.inj hstops
  obtain ⟨hreturned, -, hwaits, -⟩ :=
    stops_run? ((Stage.worker_counted [[.idle]] _ _).mono Signalled.Counted.courteous)
      (rfl : x.run? [] = some x) rfl hb hc
  refine ⟨x, b, c, d, rfl, hb, hc, hcs, ?_, hd, hds, ?_⟩
  · exact (hreturned 1 (Nat.zero_le 1) (by rw [hcs]; rfl)).2.1
  · exact hwaits 0 (by rw [hcs]; rfl) second d hd hds

/-- A call of `stop` has returned and tasks are called after that: it is the second of two calls, or
a task has stopped the worker before. -/
theorem returned_while_attached :
    (∃ c d : Crew Stage,
      (create (Stage.worker [[.idle]] [(.ok, .ok)] false)).run?
        (.start :: List.replicate 5 .worker ++
          [.callStop, .callStop, .stop 0, .stop 0, .stop 0, .stop 1, .stop 1, .stop 1]) = some c ∧
      c.stops = [.joining, .returned] ∧ c.machine.calls = [.startup, .attach 0, .attach 1, .pass] ∧
      c.run? (List.replicate 8 .worker) = some d ∧
      d.machine.calls = c.machine.calls ++ [.execute 0 (.done false), .execute 1 (.done false),
        .detach 0, .detach 1]) ∧
    ∃ c d : Crew Stage,
      (create (Stage.worker [[.stop]] [(.ok, .ok)] false)).run?
        (.start :: List.replicate 6 .worker ++ [.callStop, .stop 0, .stop 0, .stop 0]) = some c ∧
      c.stops = [.returned] ∧ c.machine.calls =
        [.startup, .attach 0, .attach 1, .pass, .execute 0 (.done false)] ∧
      c.run? (List.replicate 7 .worker) = some d ∧
      d.machine.calls =
        c.machine.calls ++ [.execute 1 (.done false), .detach 0, .detach 1] := by
  have hruns : ∀ {m : Machine Stage} {first second : List Move} {stops calls more},
      ((create m).run? first).bind (fun c => (c.run? second).map fun d =>
        (c.stops, c.machine.calls, d.machine.calls)) = some (stops, calls, calls ++ more) →
      ∃ c d : Crew Stage, (create m).run? first = some c ∧ c.stops = stops ∧
        c.machine.calls = calls ∧ c.run? second = some d ∧
        d.machine.calls = c.machine.calls ++ more := by
    intro m first second stops calls more h
    obtain ⟨c, hc, h⟩ := Option.bind_eq_some_iff.mp h
    obtain ⟨d, hd, h⟩ := Option.map_eq_some_iff.mp h
    obtain ⟨hstops, hcalls⟩ := Prod.mk.inj h
    obtain ⟨rfl, hmore⟩ := Prod.mk.inj hcalls
    exact ⟨c, d, hc, hstops, rfl, hd, hmore⟩
  exact ⟨hruns (by decide +kernel), hruns (by decide +kernel)⟩

end Crew
end SpanRelay
