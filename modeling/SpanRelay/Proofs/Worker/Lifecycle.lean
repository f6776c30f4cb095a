import SpanRelay.Proofs.Worker.Turns

/-!
The life of a worker. Its thread runs the startup, attaches the tasks, goes through them in passes
and detaches them; whatever fails or stops the worker, it leaves out no call and calls in order.
Once the worker is no longer running no pass begins.
-/
namespace SpanRelay

/-! ## Courses -/

namespace WorkerCall

def attaches (n : Nat) : List WorkerCall := (List.range n).map attach

def detaches (n : Nat) : List WorkerCall := (List.range n).map detach

/-- A pass through tasks that answered in this way. -/
def wholePass (answers : List TaskResult) : List WorkerCall := pass :: answers.mapIdx execute

/-- The calls of a thread from its startup to the end of these passes through `n` tasks. -/
def course (n : Nat) (passes : List (List TaskResult)) : List WorkerCall :=
  startup :: (attaches n ++ passes.flatMap wholePass)

/-- Each pass has called each of `n` tasks. -/
def Complete (n : Nat) (passes : List (List TaskResult)) : Prop :=
  ∀ answers ∈ passes, answers.length = n

/-- A call to a task. -/
def concernsTask : WorkerCall → Bool
  | attach _ | execute .. | detach _ => true
  | startup | pass => false

theorem attaches_succ (n : Nat) : attaches (n + 1) = attaches n ++ [attach n] := by
  simp [attaches, List.range_succ]

theorem detaches_succ (n : Nat) : detaches (n + 1) = detaches n ++ [detach n] := by
  simp [detaches, List.range_succ]

theorem attaches_mono {k n : Nat} (h : k ≤ n) : attaches k <+: attaches n := by
  obtain ⟨m, rfl⟩ := Nat.exists_eq_add_of_le h
  simp [attaches, List.range_add]

theorem detaches_mono {k n : Nat} (h : k ≤ n) : detaches k <+: detaches n := by
  obtain ⟨m, rfl⟩ := Nat.exists_eq_add_of_le h
  simp [detaches, List.range_add]

theorem wholePass_concat (answers : List TaskResult) (r : TaskResult) :
    wholePass (answers ++ [r]) = wholePass answers ++ [execute answers.length r] := by
  simp [wholePass, List.mapIdx_append]

theorem wholePass_extends (answers others : List TaskResult) :
    wholePass answers <+: wholePass (answers ++ others) := by
  simp [wholePass, List.mapIdx_append]

theorem course_concat (n : Nat) (passes : List (List TaskResult)) (answers : List TaskResult) :
    course n (passes ++ [answers]) = course n passes ++ wholePass answers := by
  simp [course]

theorem Complete.nil (n : Nat) : Complete n [] := by simp [Complete]

theorem Complete.concat {n : Nat} {passes : List (List TaskResult)} {answers : List TaskResult}
    (h : Complete n passes) (ha : answers.length = n) : Complete n (passes ++ [answers]) := by
  intro other hm
  rcases List.mem_append.mp hm with hm | hm
  · exact h other hm
  · rwa [List.mem_singleton.mp hm]

/-- Without tasks a thread that makes passes calls none. -/
theorem not_concernsTask_of_course {passes : List (List TaskResult)} (h : Complete 0 passes)
    {call : WorkerCall} (hc : call ∈ course 0 passes ++ detaches 0) : call.concernsTask = false := by
  have hc : call = startup ∨ ∃ answers ∈ passes, call ∈ wholePass answers := by
    simpa [course, attaches, detaches] using hc
  rcases hc with rfl | ⟨answers, ha, hc⟩
  · rfl
  · obtain rfl := List.length_eq_zero_iff.mp (h answers ha)
    obtain rfl : call = pass := by simpa [wholePass] using hc
    rfl

end WorkerCall

open WorkerCall

/-- What a thread for `n` tasks has called by the time it is in a phase, oldest first. -/
def Phase.Tells (n : Nat) (calls : List WorkerCall) : Phase → Prop
  | .unstarted | .starting => calls = []
  | .attaching k => k ≤ n ∧ calls = .startup :: attaches k
  | .deciding | .judging _ | .resting => ∃ passes, Complete n passes ∧ calls = course n passes
  | .passing k _ => ∃ passes answers, Complete n passes ∧ answers.length = k ∧ k ≤ n ∧
      calls = course n passes ++ wholePass answers
  | .detaching k => ∃ passes, Complete n passes ∧ k ≤ n ∧ calls = course n passes ++ detaches k
  | .finished => ∃ passes, Complete n passes ∧ calls = course n passes ++ detaches n

/-- So far the thread has done the first part of a full course. -/
theorem Phase.Tells.exists_course {n : Nat} {calls : List WorkerCall} {phase : Phase}
    (h : phase.Tells n calls) :
    ∃ passes, Complete n passes ∧ calls <+: course n passes ++ detaches n ∧
      (phase = .finished → calls = course n passes ++ detaches n) := by
  cases phase with
  | unstarted | starting =>
    obtain rfl : calls = [] := h
    exact ⟨[], .nil n, List.nil_prefix, by simp⟩
  | attaching k =>
    obtain ⟨hk, rfl⟩ := h
    refine ⟨[], .nil n, ?_, by simp⟩
    have hpart : startup :: attaches k <+: course n [] := by
      simpa [course] using attaches_mono hk
    exact hpart.trans (List.prefix_append ..)
  | deciding | judging | resting =>
    obtain ⟨passes, hp, rfl⟩ := h
    exact ⟨passes, hp, List.prefix_append .., by simp⟩
  | passing k worked =>
    obtain ⟨passes, answers, hp, rfl, hk, rfl⟩ := h
    -- what the tasks to come will answer does not matter
    let others := List.replicate (n - answers.length) TaskResult.failed
    refine ⟨passes ++ [answers ++ others], hp.concat (by simp [others]; omega), ?_, by simp⟩
    rw [course_concat]
    exact ((List.prefix_append_right_inj _).mpr (wholePass_extends answers others)).trans
      (List.prefix_append ..)
  | detaching k =>
    obtain ⟨passes, hp, hk, rfl⟩ := h
    exact ⟨passes, hp, (List.prefix_append_right_inj _).mpr (detaches_mono hk), by simp⟩
  | finished =>
    obtain ⟨passes, hp, rfl⟩ := h
    exact ⟨passes, hp, List.prefix_refl _, fun _ => rfl⟩

variable {σ : Type}

namespace Machine

/-! ## Steps -/

/-- What the thread has called, oldest first. -/
def calls (m : Machine σ) : List WorkerCall := m.history.reverse

@[simp] theorem calls_note (m : Machine σ) (call : WorkerCall) :
    (m.note call).calls = m.calls ++ [call] := by
  simp [calls, note]

variable [Signalled σ] {m n : Machine σ}

/-- What the thread has called fits its phase. -/
def IsOnCourse (m : Machine σ) : Prop := m.phase.Tells m.tasks.length m.calls

theorem IsOnCourse.step (h : m.IsOnCourse) (hs : m.Step n) : n.IsOnCourse := by
  unfold IsOnCourse at h ⊢
  cases hs with
  | boot hp =>
    have hnone : m.calls = [] := by rwa [hp] at h
    rw [calls_note]
    change Phase.Tells _ (m.calls ++ [.startup]) (.attaching 0)
    exact ⟨Nat.zero_le _, by simp [hnone, attaches]⟩
  | @attach k t hp ht =>
    rw [hp] at h
    obtain ⟨-, hcalls⟩ := h
    rw [calls_note]
    change Phase.Tells m.tasks.length (m.calls ++ [.attach k]) (.attaching (k + 1))
    exact ⟨(List.getElem?_eq_some_iff.mp ht).1, by simp [hcalls, attaches_succ]⟩
  | @attached k hp ht =>
    rw [hp] at h
    obtain ⟨hk, hcalls⟩ := h
    obtain rfl : k = m.tasks.length := Nat.le_antisymm hk (List.getElem?_eq_none_iff.mp ht)
    change Phase.Tells m.tasks.length m.calls .deciding
    exact ⟨[], .nil _, by simp [hcalls, course]⟩
  | begin hp _ =>
    rw [hp] at h
    obtain ⟨passes, hcomplete, hcalls⟩ := h
    rw [calls_note]
    change Phase.Tells m.tasks.length (m.calls ++ [.pass]) (.passing 0 false)
    exact ⟨passes, [], hcomplete, rfl, Nat.zero_le _, by simp [hcalls, wholePass]⟩
  | leave hp _ =>
    rw [hp] at h
    obtain ⟨passes, hcomplete, hcalls⟩ := h
    change Phase.Tells m.tasks.length m.calls (.detaching 0)
    exact ⟨passes, hcomplete, Nat.zero_le _, by simp [hcalls, detaches]⟩
  | @execute k worked t hp ht =>
    rw [hp] at h
    obtain ⟨passes, answers, hcomplete, rfl, -, hcalls⟩ := h
    rw [calls_note]
    change Phase.Tells m.tasks.length (m.calls ++ [.execute answers.length (t.execute m.world).1])
      (.passing (answers.length + 1) _)
    refine ⟨passes, answers ++ [(t.execute m.world).1], hcomplete, by simp,
      (List.getElem?_eq_some_iff.mp ht).1, ?_⟩
    rw [wholePass_concat, ← List.append_assoc, ← hcalls]
  | complete hp ht =>
    rw [hp] at h
    obtain ⟨passes, answers, hcomplete, rfl, hk, hcalls⟩ := h
    have hall : answers.length = m.tasks.length :=
      Nat.le_antisymm hk (List.getElem?_eq_none_iff.mp ht)
    exact ⟨passes ++ [answers], hcomplete.concat hall, by rwa [course_concat]⟩
  | rest hp _ | again hp _ | rouse hp _ => rwa [hp] at h
  | @detach k t hp ht =>
    rw [hp] at h
    obtain ⟨passes, hcomplete, -, hcalls⟩ := h
    rw [calls_note]
    change Phase.Tells m.tasks.length (m.calls ++ [.detach k]) (.detaching (k + 1))
    exact ⟨passes, hcomplete, (List.getElem?_eq_some_iff.mp ht).1,
      by simp [hcalls, detaches_succ]⟩
  | @finish k hp ht =>
    rw [hp] at h
    obtain ⟨passes, hcomplete, hk, hcalls⟩ := h
    obtain rfl : k = m.tasks.length := Nat.le_antisymm hk (List.getElem?_eq_none_iff.mp ht)
    exact ⟨passes, hcomplete, hcalls⟩

theorem IsOnCourse.turn {tally : σ → Nat} {seen : List Happening} (h : m.IsOnCourse)
    (ht : m.Turn tally seen n) : n.IsOnCourse := by
  cases ht with
  | step hs => exact h.step hs
  | elapse hp =>
    unfold IsOnCourse at h ⊢
    rw [hp] at h
    exact h
  | start hp =>
    unfold IsOnCourse at h ⊢
    unfold Machine.start
    simp only [hp] at h ⊢
    exact h
  | wake | none | cells => exact h

/-- The tasks are those that the startup made; none are made later. -/
def HasTasks (tasks : List (Task σ)) (m : Machine σ) : Prop :=
  m.phase ≠ .unstarted ∧ m.phase ≠ .starting ∧ m.tasks = tasks

theorem HasTasks.turn {tasks : List (Task σ)} {tally : σ → Nat} {seen : List Happening}
    (h : m.HasTasks tasks) (ht : m.Turn tally seen n) : n.HasTasks tasks := by
  obtain ⟨hunstarted, hstarting, htasks⟩ := h
  cases ht with
  | step hs => cases hs <;> first | contradiction | exact ⟨nofun, nofun, htasks⟩
  | elapse => exact ⟨nofun, nofun, htasks⟩
  | start hp => contradiction
  | wake | none | cells => exact ⟨hunstarted, hstarting, htasks⟩

theorem Turn.startup_eq {tally : σ → Nat} {seen : List Happening} (ht : m.Turn tally seen n) :
    n.startup = m.startup := by
  cases ht with
  | step hs => cases hs <;> rfl
  | start hp => exact m.start_frame.1
  | elapse | wake | none | cells => rfl

/-! ## Stopping -/

/-- Only a start makes a worker run. -/
theorem Turn.isRunning {tally : σ → Nat} {seen : List Happening} (ht : m.Turn tally seen n)
    (h : m.Within Signalled.Courteous) (hp : m.phase = .unstarted → n.phase = .unstarted)
    (hn : Signalled.isRunning n.world = true) :
    Signalled.isRunning m.world = true := by
  cases ht with
  | step hs =>
    rcases hs.world_within h .refl with hworld | ⟨-, rfl⟩
    · exact hworld.isRunning hn
    · simpa [rise, Signalled.isRunning] using hn
  | elapse => simpa [rise, Signalled.isRunning] using hn
  | wake => simpa [Machine.wake, Signalled.raiseWake, Signals.wake, Signalled.isRunning] using hn
  | start hstart =>
    have hstarting := start_phase hstart
    rw [hp hstart] at hstarting
    contradiction
  | none => exact hn
  | cells hr _ => exact hr _ (by simpa [Signalled.isRunning] using hn)

theorem Turn.phase_ne_unstarted {tally : σ → Nat} {seen : List Happening}
    (ht : m.Turn tally seen n) (hp : m.phase ≠ .unstarted) : n.phase ≠ .unstarted := by
  cases ht with
  | step hs => cases hs <;> nofun
  | elapse => nofun
  | start hstart => contradiction
  | wake | none | cells => exact hp

/-- A pass begins while the worker is running. -/
theorem Turn.passes_eq {tally : σ → Nat} {seen : List Happening} (ht : m.Turn tally seen n)
    (hr : Signalled.isRunning m.world = false) : n.passes = m.passes := by
  cases ht with
  | step hs =>
    cases hs with
    | begin _ hrunning => rw [hr] at hrunning; contradiction
    | boot | attach | execute | detach => simp [passes, note]
    | attached | leave | complete | rest | again | rouse | finish => rfl
  | start hp => rw [passes, passes, m.start_frame.2.2]
  | elapse | wake | none | cells => rfl

/-- Started, but not running any more, after this number of passes. -/
def StoppedAfter (passes : Nat) (m : Machine σ) : Prop :=
  m.phase ≠ .unstarted ∧ Signalled.isRunning m.world = false ∧ m.passes = passes ∧
    m.Within Signalled.Courteous

theorem StoppedAfter.turn {passes : Nat} {tally : σ → Nat} {seen : List Happening}
    (h : m.StoppedAfter passes) (ht : m.Turn tally seen n) : n.StoppedAfter passes := by
  obtain ⟨hp, hr, rfl, hw⟩ := h
  have hrunning : Signalled.isRunning n.world = false := by
    by_contra hn
    have hm := ht.isRunning hw (absurd · hp) (by simpa using hn)
    simp [hr] at hm
  exact ⟨ht.phase_ne_unstarted hp, hrunning, ht.passes_eq hr, ht.within hw⟩

end Machine

namespace Crew

open Machine

variable [Signalled σ]

/-- Once the loop has ended the thread by itself detaches the tasks that are left, and finishes. -/
theorem run?_detaching {c : Crew σ} {k : Nat} (hp : c.machine.phase = .detaching k) :
    ∃ d, c.run? (List.replicate (c.machine.tasks.length - k + 1) .worker) = some d ∧
      d.machine.phase = .finished := by
  obtain ⟨left, hleft⟩ : ∃ left, c.machine.tasks.length - k = left := ⟨_, rfl⟩
  rw [hleft]
  induction left generalizing c k with
  | zero =>
    have hnone : c.machine.tasks[k]? = none := List.getElem?_eq_none_iff.mpr (by omega)
    exact ⟨{ c with machine := { c.machine with phase := .finished } },
      by simp [run?, move?, step?, hp, hnone], rfl⟩
  | succ left ih =>
    have hk : k < c.machine.tasks.length := by omega
    let m : Machine σ :=
      { c.machine with
        world := c.machine.tasks[k].detach c.machine.world
        phase := .detaching (k + 1) }
    have hm : c.move? .worker = some { c with machine := m.note (.detach k) } := by
      simp [move?, step?, hp, hk, m]
    have hlen : (m.note (.detach k)).tasks.length - (k + 1) = left := by
      change c.machine.tasks.length - (k + 1) = left
      omega
    obtain ⟨d, hd, hfinished⟩ := ih (c := { c with machine := m.note (.detach k) }) rfl hlen
    refine ⟨d, ?_, hfinished⟩
    rw [List.replicate_succ, run?, hm]
    exact hd

/-- Whatever the tasks do, the thread does what a full course asks for and nothing else, in order.
It starts up once, attaches each task once before a pass, leaves no task out of a pass and at its
end detaches each task once. A startup that fails makes no tasks, and then none is called. -/
theorem lifecycle_run? {startup : σ → Option (List (Task σ)) × σ} {world : σ}
    {before rest : List SpanRelay.Move} {b c : Crew σ}
    (hstartup : StartsWithin Signalled.Courteous startup)
    (hb : (create (.create world startup)).run? before = some b) (hc : b.run? rest = some c) :
    (∃ passes, Complete c.machine.tasks.length passes ∧
      c.machine.calls <+: course c.machine.tasks.length passes ++ detaches c.machine.tasks.length ∧
      (c.machine.phase = .finished → c.machine.calls =
        course c.machine.tasks.length passes ++ detaches c.machine.tasks.length)) ∧
    (b.machine.phase = .starting → rest.head? = some .worker →
      c.machine.tasks = (startup b.machine.world).1.getD [] ∧
      ((startup b.machine.world).1 = none → ∀ call ∈ c.machine.calls, call.concernsTask = false)) ∧
    (b.machine.phase ≠ .unstarted → b.machine.isRunning = false →
      c.machine.passes = b.machine.passes) ∧
    (∀ k, c.machine.phase = .detaching k →
      ∃ d, c.run? (List.replicate (c.machine.tasks.length - k + 1) .worker) = some d ∧
        d.machine.phase = .finished) := by
  have hcreated : (Machine.create world startup).IsOnCourse := rfl
  have hcourse : c.machine.IsOnCourse :=
    run?_keeps (fun h ht => IsOnCourse.turn h ht) hc
      (run?_keeps (fun h ht => IsOnCourse.turn h ht) hb hcreated)
  obtain ⟨passes, hcomplete, hcut, hfinished⟩ := hcourse.exists_course
  have hwithin : b.machine.Within Signalled.Courteous :=
    run?_keeps (fun h ht => ht.within h) hb (within_create hstartup)
  refine ⟨⟨passes, hcomplete, hcut, hfinished⟩, ?_, ?_, fun k => run?_detaching⟩
  · intro hp hhead
    obtain ⟨rest, rfl⟩ : ∃ others, rest = .worker :: others := by
      cases rest with
      | nil => simp at hhead
      | cons move others => exact ⟨others, by simpa using hhead⟩
    obtain ⟨booted, hbooted, hrest⟩ := Option.bind_eq_some_iff.mp hc
    have hsame : b.machine.startup = startup :=
      run?_keeps (P := fun m => m.startup = startup) (fun h ht => ht.startup_eq.trans h) hb rfl
    have hboot : booted.machine.HasTasks ((startup b.machine.world).1.getD []) := by
      obtain ⟨m, hm, rfl⟩ := Option.map_eq_some_iff.mp hbooted
      simp only [step?, hp, hsame, Option.some.injEq] at hm
      exact hm ▸ ⟨nofun, nofun, rfl⟩
    have htasks : c.machine.tasks = (startup b.machine.world).1.getD [] :=
      (run?_keeps (fun h ht => HasTasks.turn h ht) hrest hboot).2.2
    refine ⟨htasks, fun hnone call hcall => ?_⟩
    have hzero : c.machine.tasks.length = 0 := by simp [htasks, hnone]
    rw [hzero] at hcomplete hcut
    exact not_concernsTask_of_course hcomplete (hcut.subset hcall)
  · intro hp hr
    have hstopped : c.machine.StoppedAfter b.machine.passes :=
      run?_keeps (fun h ht => StoppedAfter.turn h ht) hc ⟨hp, hr, rfl, hwithin⟩
    exact hstopped.2.2.1

/-- One task fails in the pass in which the other stops the worker: the pass goes on to the end. -/
theorem lifecycle_run?_stopped_in_pass :
    ∃ b c : Crew Stage,
      (create (Stage.worker [[.fail], [.stop]] [(.ok, .ok), (.wake, .fail)] false)).run? [.start] =
        some b ∧
      b.run? (List.replicate 16 .worker) = some c ∧ c.machine.phase = .finished ∧
      ∃ passes, Complete 3 passes ∧ c.machine.calls = course 3 passes ++ detaches 3 := by
  let created := create (Stage.worker [[.fail], [.stop]] [(.ok, .ok), (.wake, .fail)] false)
  have hfacts : ((created.run? [.start]).bind (·.run? (List.replicate 16 .worker))).map
      (fun c => (c.machine.phase, c.machine.tasks.length)) = some (.finished, 3) := by
    decide +kernel
  obtain ⟨c, hrun, hend⟩ := Option.map_eq_some_iff.mp hfacts
  obtain ⟨b, hb, hc⟩ := Option.bind_eq_some_iff.mp hrun
  obtain ⟨hphase, hlength⟩ := Prod.mk.inj hend
  obtain ⟨⟨passes, hcomplete, -, hcalls⟩, -⟩ :=
    lifecycle_run? ((Stage.worker_counted [[.fail], [.stop]] _ _).mono Signalled.Counted.courteous)
      hb hc
  rw [hlength] at hcomplete hcalls
  exact ⟨b, c, hb, hc, hphase, passes, hcomplete, hcalls hphase⟩

end Crew
end SpanRelay
