import Mathlib.Data.List.Nodup
import SpanRelay.Proofs.Worker.Stops

/-!
What starts do. The first one begins the only course of the worker, whatever was called before, a
stop included; all others do nothing. A stop that comes after it is for good, but one that comes
before it leaves the startup where it is, for the first start to take.
-/
namespace SpanRelay

namespace WorkerCall

/-- The startup, and what is called of each task apart from passes. -/
def isFrame : WorkerCall → Bool
  | startup | attach _ | detach _ => true
  | pass | execute .. => false

/-- In a full course these calls are made once each. -/
theorem filter_isFrame_course (n : Nat) (passes : List (List TaskResult)) :
    (course n passes ++ detaches n).filter isFrame = startup :: (attaches n ++ detaches n) := by
  have hpass : ∀ call ∈ passes.flatMap wholePass, ¬ call.isFrame = true := by
    intro call hcall
    obtain ⟨answers, -, hcall⟩ := List.mem_flatMap.mp hcall
    rcases List.mem_cons.mp hcall with rfl | hcall
    · simp [isFrame]
    · obtain ⟨i, hi, rfl⟩ := List.mem_mapIdx.mp hcall
      simp [isFrame]
  have hattach : (attaches n).filter isFrame = attaches n := by
    simp [attaches, List.filter_eq_self, isFrame]
  have hdetach : (detaches n).filter isFrame = detaches n := by
    simp [detaches, List.filter_eq_self, isFrame]
  rw [course, List.cons_append, List.filter_cons_of_pos rfl, List.append_assoc, List.filter_append,
    List.filter_append, hattach, hdetach, List.filter_eq_nil_iff.mpr hpass, List.nil_append]

theorem nodup_filter_isFrame_course (n : Nat) (passes : List (List TaskResult)) :
    ((course n passes ++ detaches n).filter isFrame).Nodup := by
  rw [filter_isFrame_course, List.nodup_cons, List.nodup_append]
  refine ⟨by simp [attaches, detaches], ?_, ?_, by simp [attaches, detaches]⟩
  · exact List.nodup_range.map fun i j h => attach.inj h
  · exact List.nodup_range.map fun i j h => detach.inj h

theorem count_le_one_of_course {n : Nat} {passes : List (List TaskResult)}
    {calls : List WorkerCall} (h : calls <+: course n passes ++ detaches n) {call : WorkerCall}
    (hc : call.isFrame = true) : calls.count call ≤ 1 := by
  have hnodup := (nodup_filter_isFrame_course n passes).sublist (h.sublist.filter isFrame)
  rw [← List.count_filter hc]
  exact List.nodup_iff_count_le_one.mp hnodup call

end WorkerCall

open Signalled (Courteous)
open WorkerCall (course detaches)

variable {σ : Type} [Signalled σ]

namespace Machine

variable {m n : Machine σ}

/-- A worker that has not started does not run. -/
def RunsOnceStarted (m : Machine σ) : Prop := m.phase = .unstarted → m.isRunning = false

theorem RunsOnceStarted.turn {tally : σ → Nat} {seen : List Happening} (h : m.RunsOnceStarted)
    (ht : m.Turn tally seen n) : n.RunsOnceStarted := by
  intro hp
  cases ht with
  | step hs => cases hs <;> contradiction
  | elapse => contradiction
  | start hstart => simp [Machine.start_phase hstart] at hp
  | wake =>
    have hm := h hp
    simpa [isRunning, Machine.wake, Signalled.raiseWake, Signals.wake, Signalled.isRunning] using hm
  | none => exact h hp
  | cells hr _ =>
    by_contra hn
    have hm := hr _ (by simpa [isRunning, Signalled.isRunning] using hn)
    exact absurd hm (Bool.not_eq_true _ ▸ h hp)

/-- A thread that was made runs the startup first. -/
theorem exists_startup (hp : m.phase = .starting) :
    ∃ n, m.step? = some n ∧ n.calls = m.calls ++ [.startup] := by
  unfold step?
  simp only [hp]
  exact ⟨_, rfl, calls_note _ _⟩

end Machine

namespace Crew

variable {b c d : Crew σ} {move : Move} {moves : List Move}

/-- Only a start makes a thread. -/
theorem phase_move? (h : c.move? move = some d) :
    d.machine.phase = .unstarted ↔ c.machine.phase = .unstarted ∧ move ≠ .start := by
  cases move with
  | worker =>
    obtain ⟨m, hm, -⟩ := Option.map_eq_some_iff.mp h
    have hc : c.machine.phase ≠ .unstarted := by
      intro hp
      simp [Machine.step?, hp] at hm
    have hd : d.machine.phase ≠ .unstarted :=
      (turn_of_move? (fun _ => 0) h).phase_ne_unstarted hc
    simp [hc, hd]
  | elapse =>
    obtain ⟨m, hm, rfl⟩ := Option.map_eq_some_iff.mp h
    unfold Machine.elapse? at hm
    split at hm
    next hp =>
      obtain rfl := Option.some.inj hm
      simp [hp]
    · contradiction
  | start =>
    obtain rfl := Option.some.inj h
    by_cases hp : c.machine.phase = .unstarted
    · simp [Machine.start_phase hp]
    · simp [Machine.start_of_started hp, hp]
  | wake | callStop =>
    obtain rfl := Option.some.inj h
    simp [Machine.wake]
  | stop call =>
    obtain ⟨p, q, -, hadvance, -⟩ := exists_advance h
    have hsame : d.machine.phase = c.machine.phase := by
      generalize d.machine = m at hadvance
      cases hadvance <;> rfl
    simp [hsame]

theorem phase_run? (h : b.run? moves = some c) :
    c.machine.phase = .unstarted ↔ b.machine.phase = .unstarted ∧ .start ∉ moves := by
  induction moves generalizing b with
  | nil =>
    obtain rfl := Option.some.inj h
    simp
  | cons move moves ih =>
    obtain ⟨d, hd, hrest⟩ := Option.bind_eq_some_iff.mp h
    rw [ih hrest, phase_move? hd, List.mem_cons, not_or, and_assoc]
    simp [eq_comm]

/-- A start that finds no thread yet runs the startup. -/
theorem startup_of_start (hp : c.machine.phase = .unstarted) (hcalls : c.machine.calls = []) :
    ∃ d e, c.move? .start = some d ∧ d.machine.isRunning = true ∧ d.move? .worker = some e ∧
      e.machine.calls = [.startup] := by
  have hphase : c.machine.start.phase = .starting := Machine.start_phase hp
  have hnone : c.machine.start.calls = [] := by
    rw [Machine.calls, c.machine.start_frame.2.2]
    exact hcalls
  obtain ⟨n, hn, hstartup⟩ := Machine.exists_startup hphase
  refine ⟨{ c with machine := c.machine.start }, { c with machine := n }, rfl, ?_, ?_, ?_⟩
  · simp [Machine.isRunning, Signalled.isRunning, Machine.signals_start hp]
  · rw [move?, hn]
    rfl
  · rw [hstartup, hnone]
    rfl

theorem run?_append {first second : List Move} (h : b.run? (first ++ second) = some c) :
    ∃ x, b.run? first = some x ∧ x.run? second = some c := by
  induction first generalizing b with
  | nil => exact ⟨b, rfl, h⟩
  | cons move first ih =>
    obtain ⟨d, hd, hrest⟩ := Option.bind_eq_some_iff.mp h
    obtain ⟨x, hx, hsecond⟩ := ih hrest
    refine ⟨x, ?_, hsecond⟩
    rw [run?, hd]
    exact hx

/-- A worker runs at most one course, so it starts up once and attaches and detaches each task once
at most. Until it is started nothing is called and it does not run; the first start runs the
startup, whatever was called before. From then on a start does nothing, and once a stop made after
it has lowered the flag the worker never runs and never begins a pass again. -/
theorem starts_run? {startup : σ → Option (List (Task σ)) × σ} {world : σ} {moves : List Move}
    {c : Crew σ} (hstartup : StartsWithin Courteous startup)
    (hworld : Signalled.signals world = .initial)
    (hc : (create (.create world startup)).run? moves = some c) :
    ((∃ passes, c.machine.calls <+:
        course c.machine.tasks.length passes ++ detaches c.machine.tasks.length) ∧
      ∀ call : WorkerCall, call.isFrame = true → c.machine.calls.count call ≤ 1) ∧
    (.start ∉ moves → c.machine.calls = [] ∧ c.machine.isRunning = false ∧
      ∃ d e, c.move? .start = some d ∧ d.machine.isRunning = true ∧ d.move? .worker = some e ∧
        e.machine.calls = [.startup]) ∧
    (.start ∈ moves → c.move? .start = some c) ∧
    (∀ before rest x, moves = before ++ .start :: rest → .start ∉ before →
      (create (.create world startup)).run? before = some x →
      ∀ i q, x.stops.length ≤ i → c.stops[i]? = some q → q ≠ .lowering →
        c.machine.isRunning = false ∧ ∀ more d, c.run? more = some d →
          d.machine.isRunning = false ∧ d.machine.passes = c.machine.passes) := by
  have hcreated : (Machine.create world startup).IsOnCourse := rfl
  have hcourse : c.machine.IsOnCourse :=
    run?_keeps (fun h ht => Machine.IsOnCourse.turn h ht) hc hcreated
  obtain ⟨passes, -, hcut, -⟩ := hcourse.exists_course
  refine ⟨⟨⟨passes, hcut⟩, fun call => WorkerCall.count_le_one_of_course hcut⟩, fun hnone => ?_,
    fun hstart => ?_, ?_⟩
  · have hp : c.machine.phase = .unstarted := (phase_run? hc).mpr ⟨rfl, hnone⟩
    have hcalls : c.machine.calls = [] := by
      unfold Machine.IsOnCourse at hcourse
      rwa [hp] at hcourse
    have hidle : c.machine.RunsOnceStarted :=
      run?_keeps (fun h ht => Machine.RunsOnceStarted.turn h ht) hc fun _ => by
        simp [create, Machine.isRunning, Machine.create, Signalled.isRunning, hworld,
          Signals.initial]
    exact ⟨hcalls, hidle hp, startup_of_start hp hcalls⟩
  · have hp : c.machine.phase ≠ .unstarted := fun hp => ((phase_run? hc).mp hp).2 hstart
    rw [move?, Machine.start_of_started hp]
  · rintro before rest x rfl hfirst hx i q hi hq hne
    obtain ⟨y, hy, hrest⟩ := run?_append hc
    obtain rfl : y = x := Option.some.inj (hy.symm.trans hx)
    obtain ⟨b, hb, hrest⟩ := Option.bind_eq_some_iff.mp hrest
    have hwithin : y.machine.Within Courteous :=
      run?_keeps (fun h ht => ht.within h) hx (Machine.within_create hstartup)
    have hp : y.machine.phase = .unstarted := (phase_run? hx).mpr ⟨rfl, hfirst⟩
    have hheeds : Heeds y.stops.length c := (heeds_start hwithin hp hb).1.run? hrest
    have hlow := hheeds.lowered i q hi hq hne
    refine ⟨hlow, fun more d hd => ?_⟩
    have hstopped : d.machine.StoppedAfter c.machine.passes :=
      run?_keeps (fun h ht => Machine.StoppedAfter.turn h ht) hd
        ⟨hheeds.started, hlow, rfl, hheeds.within⟩
    exact ⟨hstopped.2.1, hstopped.2.2.1⟩

/-- A worker is stopped, woken, started, stopped and started again: it has worked in between. -/
theorem starts_run?_between_stops :
    ∃ c : Crew Stage,
      (create (Stage.worker [[.work]] [(.ok, .ok)] false)).run?
        ([.callStop, .stop 0, .stop 0, .stop 0, .wake] ++ .start :: (List.replicate 7 .worker ++
          [.callStop, .stop 1, .stop 1, .stop 1, .start])) = some c ∧
      c.machine.calls = [.startup, .attach 0, .attach 1, .pass, .execute 0 (.done true),
        .execute 1 (.done false)] ∧
      c.machine.calls.count .startup ≤ 1 ∧ c.move? .start = some c ∧
      c.machine.isRunning = false ∧
      ∀ more d, c.run? more = some d → d.machine.isRunning = false := by
  let before : List Move := [.callStop, .stop 0, .stop 0, .stop 0, .wake]
  let rest := List.replicate 7 Move.worker ++ [.callStop, .stop 1, .stop 1, .stop 1, .start]
  let created := create (Stage.worker [[.work]] [(.ok, .ok)] false)
  have hfacts : ((created.run? before).bind fun x =>
      (created.run? (before ++ .start :: rest)).map fun c =>
        (x.stops.length, c.stops[1]?, c.machine.calls)) =
      some (1, some .joining, [.startup, .attach 0, .attach 1, .pass, .execute 0 (.done true),
        .execute 1 (.done false)]) := by
    decide +kernel
  obtain ⟨x, hx, hfacts⟩ := Option.bind_eq_some_iff.mp hfacts
  obtain ⟨c, hc, hfacts⟩ := Option.map_eq_some_iff.mp hfacts
  obtain ⟨hlength, hfacts⟩ := Prod.mk.inj hfacts
  obtain ⟨hpoint, hcalls⟩ := Prod.mk.inj hfacts
  obtain ⟨⟨-, honce⟩, -, hagain, hstopped⟩ :=
    starts_run? ((Stage.worker_counted [[.work]] _ _).mono Signalled.Counted.courteous) rfl hc
  obtain ⟨hlow, hever⟩ :=
    hstopped before rest x rfl (by decide) hx 1 .joining (Nat.le_of_eq hlength) hpoint nofun
  exact ⟨c, hc, hcalls, honce .startup rfl, hagain (by decide), hlow,
    fun more d hd => (hever more d hd).1⟩

/-- A call of `stop` has returned, and a later start starts up, attaches and executes. -/
theorem started_after_stop :
    ∃ c d : Crew Stage,
      (create (Stage.worker [[.work]] [(.ok, .ok)] false)).run?
        [.callStop, .stop 0, .stop 0, .stop 0] = some c ∧
      c.stops = [.returned] ∧ c.machine.isRunning = false ∧
      c.run? (.start :: List.replicate 6 .worker) = some d ∧ d.machine.isRunning = true ∧
      d.machine.calls = [.startup, .attach 0, .attach 1, .pass, .execute 0 (.done true)] := by
  let created := create (Stage.worker [[.work]] [(.ok, .ok)] false)
  have hfacts : ((created.run? [.callStop, .stop 0, .stop 0, .stop 0]).bind fun c =>
      (c.run? (.start :: List.replicate 6 .worker)).map fun d =>
        (c.stops, c.machine.isRunning, d.machine.isRunning, d.machine.calls)) =
      some ([.returned], false, true,
        [.startup, .attach 0, .attach 1, .pass, .execute 0 (.done true)]) := by
    decide +kernel
  obtain ⟨c, hc, hfacts⟩ := Option.bind_eq_some_iff.mp hfacts
  obtain ⟨d, hd, hfacts⟩ := Option.map_eq_some_iff.mp hfacts
  simp only [Prod.mk.injEq] at hfacts
  obtain ⟨hstops, hlow, hhigh, hcalls⟩ := hfacts
  exact ⟨c, d, hc, hstops, hlow, hd, hhigh, hcalls⟩

end Crew
end SpanRelay
