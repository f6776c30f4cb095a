import SpanRelay.Proofs.Worker.Starts
import SpanRelay.Worker.Launch

/-!
What others see of a worker while it is started. Its calls are those of one course all the same, and
a start that was refused a thread has used up the startup, so that nothing is ever called. A stop that
comes after the flag was raised is for good. One that comes before the thread is kept has none to
wait for and returns at once. When the thread is kept, the launch goes on as a crew.
-/
namespace SpanRelay

open Signalled (Courteous isJoinable)
open WorkerCall (Complete course detaches)

variable {σ : Type} [Signalled σ]

namespace Launch

variable {x y z : Launch σ} {moves : List LaunchMove} {granted : Bool}

/-! ## Moves -/

/-- What a move does to a launch. -/
inductive Step (x : Launch σ) : Launch σ → Prop where
  | crew {move : Move} {crew : Crew σ} (hmove : move ≠ .start) (h : x.crew.move? move = some crew) :
      Step x { x with crew }
  | take (hp : x.point = .untaken) : Step x { x with point := .raising }
  /-- A call of `start` finds nothing to take. -/
  | pass : Step x x
  | raise (hp : x.point = .raising) : Step x (x.withMachine x.machine.raise .spawning)
  | spawn (hp : x.point = .spawning) : Step x (x.withMachine x.machine.spawn .keeping)
  | deny (hp : x.point = .spawning) : Step x { x with point := .lowering }
  | keep (hp : x.point = .keeping) : Step x (x.withMachine x.machine.keep .started)
  | lower (hp : x.point = .lowering) : Step x (x.withMachine x.machine.lower .refused)

theorem step_of_advance? (h : x.advance? granted = some y) : Step x y := by
  unfold advance? at h
  split at h
  · contradiction
  · contradiction
  · contradiction
  next hp => exact Option.some.inj h ▸ .raise hp
  next hp =>
    split at h
    · exact Option.some.inj h ▸ .spawn hp
    · exact Option.some.inj h ▸ .deny hp
  next hp => exact Option.some.inj h ▸ .keep hp
  next hp => exact Option.some.inj h ▸ .lower hp

theorem exists_crew_of_move? {move : Move} (h : x.move? (.crew move) = some y) :
    move ≠ .start ∧ ∃ crew, x.crew.move? move = some crew ∧ { x with crew } = y := by
  unfold move? at h
  dsimp only at h
  split at h
  · contradiction
  next hmove => exact ⟨hmove, Option.map_eq_some_iff.mp h⟩

theorem step_of_move? {move : LaunchMove} (h : x.move? move = some y) : Step x y := by
  cases move with
  | crew move =>
    obtain ⟨hmove, crew, hcrew, rfl⟩ := exists_crew_of_move? h
    exact .crew hmove hcrew
  | callStart =>
    obtain rfl := Option.some.inj h
    split
    next hp => exact .take hp
    · exact .pass
  | launch granted => exact step_of_advance? h

/-- What each move preserves holds to the end of a run. -/
theorem run?_induct {P : Launch σ → Prop} (hstep : ∀ {x y}, P x → Step x y → P y)
    (h : x.run? moves = some y) (hx : P x) : P y := by
  induction moves generalizing x with
  | nil => exact Option.some.inj h ▸ hx
  | cons move moves ih =>
    obtain ⟨z, hz, hrest⟩ := Option.bind_eq_some_iff.mp h
    exact ih hrest (hstep hx (step_of_move? hz))

/-! ## Cells and calls -/

/-- The worker does what its cells and the point of its launch say. -/
structure Sound (x : Launch σ) : Prop where
  onCourse : x.machine.IsOnCourse
  within : x.machine.Within Courteous
  hasThread : x.machine.phase = .unstarted ↔ x.point.hasThread = false
  isRaised : x.machine.isRunning = true → x.point.isRaised = true

/-- No move of the crew but a start raises the flag. -/
theorem isRunning_of_crew {c d : Crew σ} {move : Move} (hmove : move ≠ .start)
    (h : c.move? move = some d) (hw : c.machine.Within Courteous)
    (hd : d.machine.isRunning = true) : c.machine.isRunning = true :=
  (Crew.turn_of_move? (fun _ => 0) h).isRunning hw
    (fun hp => (Crew.phase_move? h).mpr ⟨hp, hmove⟩) hd

theorem Sound.step (h : Sound x) (hs : Step x y) : Sound y := by
  cases hs with
  | @crew move d hmove hd =>
    have hturn := Crew.turn_of_move? (fun _ => 0) hd
    refine ⟨h.onCourse.turn hturn, hturn.within h.within, ?_, fun hr => ?_⟩
    · rw [← h.hasThread]
      exact (Crew.phase_move? hd).trans (and_iff_left hmove)
    · exact h.isRaised (isRunning_of_crew hmove hd h.within hr)
  | take hp =>
    refine ⟨h.onCourse, h.within, h.hasThread.trans ?_, fun hr => ?_⟩
    · simp [hp, LaunchPoint.hasThread]
    · have hraised := h.isRaised hr
      rwa [hp] at hraised
  | pass => exact h
  | raise hp =>
    refine ⟨h.onCourse, ⟨h.within.startup, h.within.tasks⟩, h.hasThread.trans ?_, fun _ => rfl⟩
    simp [hp, withMachine, LaunchPoint.hasThread]
  | spawn hp =>
    have hunstarted : x.machine.phase = .unstarted := h.hasThread.mpr (by rw [hp]; rfl)
    have honCourse : x.machine.spawn.IsOnCourse := by
      have hcalls := h.onCourse
      unfold Machine.IsOnCourse at hcalls
      rwa [hunstarted] at hcalls
    exact ⟨honCourse, ⟨h.within.startup, h.within.tasks⟩, ⟨nofun, nofun⟩, fun _ => rfl⟩
  | deny hp =>
    refine ⟨h.onCourse, h.within, h.hasThread.trans ?_, fun _ => rfl⟩
    simp [hp, LaunchPoint.hasThread]
  | keep hp =>
    refine ⟨h.onCourse, ⟨h.within.startup, h.within.tasks⟩, h.hasThread.trans ?_, fun _ => rfl⟩
    simp [hp, withMachine, LaunchPoint.hasThread]
  | lower hp =>
    refine ⟨h.onCourse, ⟨h.within.startup, h.within.tasks⟩, h.hasThread.trans ?_, fun hr => ?_⟩
    · simp [hp, withMachine, LaunchPoint.hasThread]
    · simp [withMachine, machine, Machine.lower, Machine.isRunning, Signalled.isRunning] at hr

theorem sound_create {startup : σ → Option (List (Task σ)) × σ} {world : σ}
    (hstartup : StartsWithin Courteous startup) (hworld : Signalled.signals world = .initial) :
    Sound (create (.create world startup)) where
  onCourse := rfl
  within := Machine.within_create hstartup
  hasThread := ⟨fun _ => rfl, fun _ => rfl⟩
  isRaised hr := by
    change (Signalled.signals world).running = true at hr
    rw [hworld] at hr
    contradiction

theorem Sound.run? (h : Sound x) (hy : x.run? moves = some y) : Sound y :=
  run?_induct Sound.step hy h

/-- Without a thread nothing is called. -/
theorem Sound.calls_eq_nil (h : Sound x) (hp : x.point.hasThread = false) :
    x.machine.calls = [] := by
  have hcalls := h.onCourse
  unfold Machine.IsOnCourse at hcalls
  rwa [h.hasThread.mpr hp] at hcalls

theorem refused_step (hp : x.point = .refused) (hs : Step x y) : y.point = .refused := by
  cases hs with
  | crew | pass => exact hp
  | take h | raise h | spawn h | deny h | keep h | lower h =>
    rw [hp] at h
    contradiction

/-- The flag has been raised and is down again, after this number of passes. -/
structure StoppedAfter (passes : Nat) (x : Launch σ) : Prop where
  within : x.machine.Within Courteous
  hasRaised : x.point.hasRaised = true
  isRunning : x.machine.isRunning = false
  passes : x.machine.passes = passes

/-- The call of `start` raises the flag once only. -/
theorem StoppedAfter.step {passes : Nat} (h : StoppedAfter passes x) (hs : Step x y) :
    StoppedAfter passes y := by
  have hraised := h.hasRaised
  cases hs with
  | crew hmove hd =>
    have hturn := Crew.turn_of_move? (fun _ => 0) hd
    refine ⟨hturn.within h.within, hraised, ?_, (hturn.passes_eq h.isRunning).trans h.passes⟩
    by_contra hr
    have hup := isRunning_of_crew hmove hd h.within (Bool.not_eq_false _ ▸ hr)
    exact absurd hup (Bool.not_eq_true _ ▸ h.isRunning)
  | take hp | raise hp =>
    rw [hp] at hraised
    contradiction
  | pass => exact h
  | spawn => exact ⟨⟨h.within.startup, h.within.tasks⟩, rfl, h.isRunning, h.passes⟩
  | deny => exact ⟨h.within, rfl, h.isRunning, h.passes⟩
  | keep =>
    refine ⟨⟨h.within.startup, h.within.tasks⟩, rfl, ?_, h.passes⟩
    have hdown := h.isRunning
    simpa [withMachine, machine, Machine.keep, Machine.isRunning, Signalled.isRunning] using hdown
  | lower =>
    refine ⟨⟨h.within.startup, h.within.tasks⟩, rfl, ?_, h.passes⟩
    simp [withMachine, machine, Machine.lower, Machine.isRunning, Signalled.isRunning]

/-! ## A launch as a crew -/

/-- A launch with nothing in between is a start of the machine. -/
theorem run?_alone (hp : x.point = .untaken) (hphase : x.machine.phase = .unstarted) :
    x.run? [.callStart, .launch true, .launch true, .launch true] =
      some (x.withMachine x.machine.start .started) := by
  rw [Machine.start_of_unstarted hphase]
  simp [run?, move?, advance?, hp, withMachine, machine]

/-- When the thread is kept nothing is left to do but for the crew. -/
theorem run?_started (hp : x.point = .started) (h : x.run? moves = some y) :
    y.point = .started ∧ x.crew.run? (crewMoves moves) = some y.crew := by
  induction moves generalizing x with
  | nil =>
    obtain rfl := Option.some.inj h
    exact ⟨hp, rfl⟩
  | cons move moves ih =>
    obtain ⟨z, hz, hrest⟩ := Option.bind_eq_some_iff.mp h
    cases move with
    | crew move =>
      obtain ⟨-, crew, hcrew, rfl⟩ := exists_crew_of_move? hz
      obtain ⟨hend, hrun⟩ := ih (x := { x with crew }) hp hrest
      refine ⟨hend, ?_⟩
      rw [crewMoves, Crew.run?, hcrew]
      exact hrun
    | callStart =>
      obtain rfl : x = z := by simpa [move?, hp] using hz
      exact ih hp hrest
    | launch granted => simp [move?, advance?, hp] at hz

/-! ## The results -/

/-- Whatever comes in between the steps of a start, the worker does the calls of one full course,
and none before it has a thread. It runs only if the flag was raised. Once that is down again the
worker never runs and begins no pass; and after a start that was refused a thread nothing is ever
called. -/
theorem launches_run? {startup : σ → Option (List (Task σ)) × σ} {world : σ}
    (hstartup : StartsWithin Courteous startup) (hworld : Signalled.signals world = .initial)
    (h : (create (.create world startup)).run? moves = some x) :
    (∃ passes, Complete x.machine.tasks.length passes ∧
      x.machine.calls <+: course x.machine.tasks.length passes ++ detaches x.machine.tasks.length ∧
      (x.machine.phase = .finished → x.machine.calls =
        course x.machine.tasks.length passes ++ detaches x.machine.tasks.length)) ∧
    (x.point.hasThread = false → x.machine.calls = []) ∧
    (x.machine.isRunning = true → x.point.isRaised = true) ∧
    (x.point.hasRaised = true → x.machine.isRunning = false →
      ∀ more y, x.run? more = some y →
        y.machine.isRunning = false ∧ y.machine.passes = x.machine.passes) ∧
    (x.point = .refused → ∀ more y, x.run? more = some y →
      y.point = .refused ∧ y.machine.isRunning = false ∧ y.machine.calls = []) := by
  have hsound : Sound x := (sound_create hstartup hworld).run? h
  refine ⟨hsound.onCourse.exists_course, hsound.calls_eq_nil, hsound.isRaised, ?_, ?_⟩
  · intro hraised hdown more y hy
    have hstopped : StoppedAfter x.machine.passes y :=
      run?_induct StoppedAfter.step hy ⟨hsound.within, hraised, hdown, rfl⟩
    exact ⟨hstopped.isRunning, hstopped.passes⟩
  · intro hp more y hy
    have hrefused : y.point = .refused := run?_induct refused_step hy hp
    have hend : Sound y := hsound.run? hy
    refine ⟨hrefused, ?_, hend.calls_eq_nil (by rw [hrefused]; rfl)⟩
    by_contra hr
    have hraised := hend.isRaised (Bool.not_eq_false _ ▸ hr)
    rw [hrefused] at hraised
    contradiction

/-- From the moment the thread is kept, a launch is a crew on which starts do nothing. When a call
of `stop` made after it has returned, the worker is not running and no pass will begin; either all
tasks are detached, or another call waits for that, or a task has taken the thread. -/
theorem stops_started {startup : σ → Option (List (Task σ)) × σ} {world : σ}
    (hstartup : StartsWithin Courteous startup) (hworld : Signalled.signals world = .initial)
    (h : (create (.create world startup)).run? moves = some x) (hp : x.point = .keeping)
    (hy : x.move? (.launch granted) = some y) {rest : List LaunchMove}
    (hz : y.run? rest = some z) :
    y.crew.run? (crewMoves rest) = some z.crew ∧
    ∀ i, x.crew.stops.length ≤ i → z.crew.stops[i]? = some .returned →
      (z.machine.phase = .finished ∨ (∃ j : ℕ, z.crew.stops[j]? = some .joining) ∨
        Crew.TakenByTask y.crew (crewMoves rest)) ∧
      z.machine.isRunning = false ∧
      ∀ more d, z.crew.run? more = some d → d.machine.passes = z.machine.passes := by
  have hsound : Sound x := (sound_create hstartup hworld).run? h
  obtain rfl : x.withMachine x.machine.keep .started = y := by
    simpa [move?, advance?, hp] using hy
  have hcrew := (run?_started rfl hz).2
  have hphase : x.machine.phase ≠ .unstarted := fun hunstarted => by
    have hthread := hsound.hasThread.mp hunstarted
    rw [hp] at hthread
    contradiction
  have hheeds := Crew.heeds_of_started (c := (x.withMachine x.machine.keep .started).crew)
    ⟨hsound.within.startup, hsound.within.tasks⟩ hphase
  have hkept : isJoinable (x.machine.keep).world = true := by simp [isJoinable, Machine.keep]
  exact ⟨hcrew, fun i hi hreturned => hheeds.of_returned hkept hcrew hi hreturned⟩

/-- A stop comes when there is a thread that is not kept yet: it returns, and the worker starts up
after that. -/
theorem returned_before_kept :
    ∃ x y : Launch Stage,
      (create (Stage.worker [[.idle]] [(.ok, .ok)] false)).run?
        [.callStart, .launch true, .launch true, .crew .callStop, .crew (.stop 0), .crew (.stop 0),
          .crew (.stop 0)] = some x ∧
      x.crew.stops = [.returned] ∧ x.machine.calls = [] ∧
      x.run? (.launch true :: List.replicate 7 (.crew .worker)) = some y ∧
      y.machine.calls = [.startup, .attach 0, .attach 1, .detach 0, .detach 1] := by
  let created := create (Stage.worker [[.idle]] [(.ok, .ok)] false)
  have hfacts : ((created.run? [.callStart, .launch true, .launch true, .crew .callStop,
        .crew (.stop 0), .crew (.stop 0), .crew (.stop 0)]).bind fun x =>
      (x.run? (.launch true :: List.replicate 7 (.crew .worker))).map fun y =>
        (x.crew.stops, x.machine.calls, y.machine.calls)) =
      some ([.returned], [], [.startup, .attach 0, .attach 1, .detach 0, .detach 1]) := by
    decide +kernel
  obtain ⟨x, hx, hfacts⟩ := Option.bind_eq_some_iff.mp hfacts
  obtain ⟨y, hy, hfacts⟩ := Option.map_eq_some_iff.mp hfacts
  obtain ⟨hstops, hcalls⟩ := Prod.mk.inj hfacts
  obtain ⟨hnone, hcalls⟩ := Prod.mk.inj hcalls
  exact ⟨x, y, hx, hstops, hnone, hy, hcalls⟩

end Launch
end SpanRelay
