import Mathlib.Data.List.Basic
import SpanRelay.Worker.Moves
import SpanRelay.Worker.Rehearsal

/-!
What can happen to a worker. Its thread takes steps, its sleep elapses, and others start it, wake it
and stop it. The tasks may do anything to the world they share, but reach the cells of the worker
only by calls on it: they wake it or stop it.
-/
namespace SpanRelay

/-! ## Calls of tasks on their worker -/

/-- What a task may do to the worker that it runs on. -/
inductive HandleCall where
  | wake
  | stop
  deriving DecidableEq, Repr

def HandleCall.apply : HandleCall → Signals → Signals
  | wake, s => s.wake
  | stop, _ => ⟨false, true, false⟩

namespace Signals

def after (s : Signals) (calls : List HandleCall) : Signals := calls.foldl (fun s c => c.apply s) s

theorem running_of_after {s : Signals} {calls : List HandleCall}
    (h : (s.after calls).running = true) : s.running = true := by
  induction calls generalizing s with
  | nil => exact h
  | cons c calls ih =>
    have hrest := ih h
    cases c with
    | wake => exact hrest
    | stop => contradiction

/-- Every call wakes the worker. -/
theorem woken_after (s : Signals) (calls : List HandleCall) :
    (s.after calls).woken = if calls = [] then s.woken else true := by
  induction calls generalizing s with
  | nil => rfl
  | cons c calls ih =>
    have hone : (c.apply s).woken = true := by cases c <;> rfl
    rw [if_neg (List.cons_ne_nil c calls), after, List.foldl_cons, ← after, ih, hone, ite_self]

end Signals

variable {σ : Type}

/-- Whatever is called of a task changes the world in this way. -/
structure Task.Within (R : σ → σ → Prop) (t : Task σ) : Prop where
  attach : ∀ world, R world (t.attach world)
  execute : ∀ world, R world (t.execute world).2
  detach : ∀ world, R world (t.detach world)

/-- A startup changes the world in this way, and so do the tasks that it makes. -/
structure StartsWithin (R : σ → σ → Prop) (startup : σ → Option (List (Task σ)) × σ) : Prop where
  world : ∀ world, R world (startup world).2
  tasks : ∀ world tasks, (startup world).1 = some tasks → ∀ t ∈ tasks, t.Within R

theorem StartsWithin.mono {R S : σ → σ → Prop} {startup : σ → Option (List (Task σ)) × σ}
    (h : StartsWithin R startup) (hRS : ∀ {a b}, R a b → S a b) : StartsWithin S startup where
  world world := hRS (h.world world)
  tasks world tasks htasks t ht :=
    have hR := h.tasks world tasks htasks t ht
    ⟨fun w => hRS (hR.attach w), fun w => hRS (hR.execute w), fun w => hRS (hR.detach w)⟩

variable [Signalled σ]

namespace Signalled

@[simp] theorem signals_modify (world : σ) (f : Signals → Signals) :
    signals (modify world f) = f (signals world) := signals_withSignals _ _

/-- The cells are changed by calls on the worker alone. -/
def Courteous (a b : σ) : Prop := ∃ calls, signals b = (signals a).after calls

/-- Besides, the calls are counted. -/
def Counted (tally : σ → Nat) (a b : σ) : Prop :=
  ∃ calls, signals b = (signals a).after calls ∧ tally b = tally a + calls.length

theorem Courteous.refl (world : σ) : Courteous world world := ⟨[], rfl⟩

theorem Counted.refl (tally : σ → Nat) (world : σ) : Counted tally world world := ⟨[], rfl, rfl⟩

theorem Counted.courteous {tally : σ → Nat} {a b : σ} (h : Counted tally a b) :
    Courteous a b := by
  obtain ⟨calls, hsignals, -⟩ := h
  exact ⟨calls, hsignals⟩

theorem Courteous.isRunning {a b : σ} (h : Courteous a b) (hb : isRunning b = true) :
    isRunning a = true := by
  obtain ⟨calls, hsignals⟩ := h
  unfold Signalled.isRunning at hb ⊢
  rw [hsignals] at hb
  exact Signals.running_of_after hb

theorem Counted.woken {tally : σ → Nat} {a b : σ} (h : Counted tally a b) :
    (signals b).woken = if tally b - tally a = 0 then (signals a).woken else true := by
  obtain ⟨calls, hsignals, htally⟩ := h
  rw [hsignals, Signals.woken_after, htally, Nat.add_sub_cancel_left]
  simp only [List.length_eq_zero_iff]

end Signalled

namespace Machine

/-! ## Steps of the thread -/

/-- The thread goes on after its wait, which clears a wake that was pending. -/
def rise (m : Machine σ) : Machine σ :=
  { m with
    world := Signalled.modify m.world fun s => { s with woken := false }
    phase := .deciding }

/-- A step that the thread of the worker makes by itself. -/
inductive Step (m : Machine σ) : Machine σ → Prop where
  | boot (hp : m.phase = .starting) :
      Step m ({ m with
        world := (m.startup m.world).2
        tasks := (m.startup m.world).1.getD []
        phase := .attaching 0 }.note .startup)
  | attach {k : Nat} {t : Task σ} (hp : m.phase = .attaching k) (ht : m.tasks[k]? = some t) :
      Step m ({ m with world := t.attach m.world, phase := .attaching (k + 1) }.note (.attach k))
  | attached {k : Nat} (hp : m.phase = .attaching k) (ht : m.tasks[k]? = none) :
      Step m { m with phase := .deciding }
  | begin (hp : m.phase = .deciding) (hr : Signalled.isRunning m.world = true) :
      Step m ({ m with phase := .passing 0 false }.note .pass)
  | leave (hp : m.phase = .deciding) (hr : Signalled.isRunning m.world = false) :
      Step m { m with phase := .detaching 0 }
  | execute {k : Nat} {worked : Bool} {t : Task σ} (hp : m.phase = .passing k worked)
      (ht : m.tasks[k]? = some t) :
      Step m ({ m with
        world := (t.execute m.world).2
        phase := .passing (k + 1) (worked || (t.execute m.world).1.worked) }.note
          (.execute k (t.execute m.world).1))
  | complete {k : Nat} {worked : Bool} (hp : m.phase = .passing k worked)
      (ht : m.tasks[k]? = none) : Step m { m with phase := .judging worked }
  | rest (hp : m.phase = .judging false) (hr : Signalled.isRunning m.world = true) :
      Step m { m with phase := .resting }
  | again {worked : Bool} (hp : m.phase = .judging worked)
      (hr : worked = true ∨ Signalled.isRunning m.world = false) :
      Step m { m with phase := .deciding }
  | rouse (hp : m.phase = .resting) (hw : (Signalled.signals m.world).woken = true) :
      Step m m.rise
  | detach {k : Nat} {t : Task σ} (hp : m.phase = .detaching k) (ht : m.tasks[k]? = some t) :
      Step m ({ m with world := t.detach m.world, phase := .detaching (k + 1) }.note (.detach k))
  | finish {k : Nat} (hp : m.phase = .detaching k) (ht : m.tasks[k]? = none) :
      Step m { m with phase := .finished }

variable {m n : Machine σ}

theorem step_of_step? (h : m.step? = some n) : m.Step n := by
  unfold step? at h
  cases hp : m.phase with
  | unstarted | finished => simp [hp] at h
  | starting =>
    simp only [hp, Option.some.injEq] at h
    exact h ▸ .boot hp
  | attaching k =>
    simp only [hp] at h
    cases ht : m.tasks[k]? with
    | none =>
      simp only [ht, Option.some.injEq] at h
      exact h ▸ .attached hp ht
    | some t =>
      simp only [ht, Option.some.injEq] at h
      exact h ▸ .attach hp ht
  | deciding =>
    simp only [hp] at h
    split at h
    next hr =>
      obtain rfl := Option.some.inj h
      exact .begin hp hr
    next hr =>
      obtain rfl := Option.some.inj h
      exact .leave hp (by simpa using hr)
  | passing k worked =>
    simp only [hp] at h
    cases ht : m.tasks[k]? with
    | none =>
      simp only [ht, Option.some.injEq] at h
      exact h ▸ .complete hp ht
    | some t =>
      simp only [ht, Option.some.injEq] at h
      exact h ▸ .execute hp ht
  | judging worked =>
    simp only [hp] at h
    split at h
    next hr =>
      obtain rfl := Option.some.inj h
      obtain ⟨hworked, hr⟩ := Bool.and_eq_true_iff.mp hr
      obtain rfl : worked = false := by simpa using hworked
      exact .rest hp hr
    next hr =>
      obtain rfl := Option.some.inj h
      refine .again hp ?_
      cases worked with
      | true => exact .inl rfl
      | false => exact .inr (by simpa using hr)
  | resting =>
    simp only [hp] at h
    split at h
    next hw =>
      obtain rfl := Option.some.inj h
      exact .rouse hp hw
    · contradiction
  | detaching k =>
    simp only [hp] at h
    cases ht : m.tasks[k]? with
    | none =>
      simp only [ht, Option.some.injEq] at h
      exact h ▸ .finish hp ht
    | some t =>
      simp only [ht, Option.some.injEq] at h
      exact h ▸ .detach hp ht

/-- Whatever the machine calls of its tasks, those to come included, changes the world in this way.
-/
structure Within (R : σ → σ → Prop) (m : Machine σ) : Prop where
  startup : StartsWithin R m.startup
  tasks : ∀ t ∈ m.tasks, t.Within R

variable {R : σ → σ → Prop}

omit [Signalled σ] in
theorem within_create {world : σ} {startup : σ → Option (List (Task σ)) × σ}
    (h : StartsWithin R startup) : (create world startup).Within R :=
  ⟨h, by simp [create]⟩

theorem Step.within (hs : m.Step n) (h : m.Within R) : n.Within R := by
  cases hs with
  | boot hp =>
    refine ⟨h.startup, fun t ht => ?_⟩
    change t ∈ (m.startup m.world).1.getD [] at ht
    cases hstartup : (m.startup m.world).1 with
    | none => simp [hstartup] at ht
    | some tasks => exact h.startup.tasks _ _ hstartup t (by simpa [hstartup] using ht)
  | attach | attached | begin | leave | execute | complete | rest | again | rouse | detach | finish =>
    exact ⟨h.startup, h.tasks⟩

/-- A step calls at most one task; besides, the end of a wait clears a wake. -/
theorem Step.world_within (hs : m.Step n) (h : m.Within R) (hrefl : ∀ world, R world world) :
    R m.world n.world ∨ m.phase = .resting ∧ n = m.rise := by
  cases hs with
  | boot hp => exact .inl (h.startup.world _)
  | attach hp ht => exact .inl ((h.tasks _ (List.mem_of_getElem? ht)).attach _)
  | execute hp ht => exact .inl ((h.tasks _ (List.mem_of_getElem? ht)).execute _)
  | detach hp ht => exact .inl ((h.tasks _ (List.mem_of_getElem? ht)).detach _)
  | attached | begin | leave | complete | rest | again | finish => exact .inl (hrefl _)
  | rouse hp _ => exact .inr ⟨hp, rfl⟩

end Machine

/-! ## What is seen of a worker -/

inductive Happening where
  /-- A wake by anyone, one that a stop makes included. -/
  | wake
  | called (call : WorkerCall)
  /-- A pass came to its end; did any task report work? -/
  | passed (worked : Bool)
  /-- A wait ended and cleared the wake that was pending. -/
  | roused
  /-- A wait ended since its time was over. -/
  | elapsed
  deriving DecidableEq, Repr

namespace Machine

/-- What is seen of the next step of the thread, the wakes that its task makes apart. -/
def shown (m : Machine σ) : List Happening :=
  match m.phase with
  | .starting => [.called .startup]
  | .attaching k => if m.tasks[k]?.isSome then [.called (.attach k)] else []
  | .deciding => if Signalled.isRunning m.world then [.called .pass] else []
  | .passing k worked =>
    match m.tasks[k]? with
    | some t => [.called (.execute k (t.execute m.world).1)]
    | none => [.passed worked]
  | .resting => if (Signalled.signals m.world).woken then [.roused] else []
  | .detaching k => if m.tasks[k]?.isSome then [.called (.detach k)] else []
  | _ => []

/-- The wakes that a task made in a step, by a tally; the end of a wait calls no task. -/
def wakesOfStep (tally : σ → Nat) (m n : Machine σ) : List Happening :=
  if m.phase = .resting then [] else List.replicate (tally n.world - tally m.world) .wake

end Machine

namespace Crew

open Machine

/-- What is seen of a move; wakes that tasks make are told by the tally. -/
def seen (tally : σ → Nat) (c : Crew σ) : SpanRelay.Move → List Happening
  | .worker =>
    match c.machine.step? with
    | some m => c.machine.wakesOfStep tally m ++ c.machine.shown
    | none => []
  | .elapse => [.elapsed]
  | .wake => [.wake]
  | .stop call => if c.stops[call]? = some .waking then [.wake] else []
  | .start | .callStop => []

/-- All that is seen in the course of the moves, as far as they are possible. -/
def record (tally : σ → Nat) (c : Crew σ) : List SpanRelay.Move → List Happening
  | [] => []
  | move :: rest =>
    match c.move? move with
    | some d => c.seen tally move ++ d.record tally rest
    | none => []

end Crew

/-- What a move of the crew does to the machine, and what is seen of it: a step of the thread, the
end of its rest, or a call from outside. -/
inductive Machine.Turn (tally : σ → Nat) (m : Machine σ) : List Happening → Machine σ → Prop where
  | step {n : Machine σ} (h : m.Step n) :
      Turn tally m (m.wakesOfStep tally n ++ m.shown) n
  | elapse (hp : m.phase = .resting) : Turn tally m [.elapsed] m.rise
  | start (hp : m.phase = .unstarted) : Turn tally m [] m.start
  | wake : Turn tally m [.wake] m.wake
  | none : Turn tally m [] m
  /-- The worker is told to stop, or its thread is taken to be waited for. -/
  | cells {f : Signals → Signals} (hr : ∀ s, (f s).running = true → s.running = true)
      (hw : ∀ s, (f s).woken = s.woken) :
      Turn tally m [] { m with world := Signalled.modify m.world f }

theorem Machine.start_of_unstarted {m : Machine σ} (h : m.phase = .unstarted) :
    m.start = m.raise.spawn.keep := by
  unfold Machine.start
  rw [h]

/-- A start does something only where there is no thread yet. -/
theorem Machine.start_of_started {m : Machine σ} (h : m.phase ≠ .unstarted) : m.start = m := by
  unfold Machine.start
  split
  · contradiction
  · rfl

theorem Machine.start_phase {m : Machine σ} (h : m.phase = .unstarted) :
    m.start.phase = .starting := by
  rw [start_of_unstarted h]
  rfl

theorem Machine.signals_start {m : Machine σ} (h : m.phase = .unstarted) :
    Signalled.signals m.start.world =
      { Signalled.signals m.world with running := true, joinable := true } := by
  simp [start_of_unstarted h, raise, spawn, keep]

/-- Of the machine itself a start changes the phase alone. -/
theorem Machine.start_frame (m : Machine σ) :
    m.start.startup = m.startup ∧ m.start.tasks = m.tasks ∧ m.start.history = m.history := by
  unfold Machine.start
  split <;> exact ⟨rfl, rfl, rfl⟩

theorem Machine.Turn.within {R : σ → σ → Prop} {tally : σ → Nat} {m n : Machine σ}
    {seen : List Happening} (ht : m.Turn tally seen n) (h : m.Within R) : n.Within R := by
  cases ht with
  | step hs => exact hs.within h
  | start hp =>
    obtain ⟨hstartup, htasks, -⟩ := m.start_frame
    exact ⟨hstartup ▸ h.startup, htasks ▸ h.tasks⟩
  | elapse | wake | none | cells => exact ⟨h.startup, h.tasks⟩

namespace Crew

open Machine

variable {c d : Crew σ} {tally : σ → Nat}

theorem turn_of_move? (tally : σ → Nat) {move : SpanRelay.Move} (h : c.move? move = some d) :
    c.machine.Turn tally (c.seen tally move) d.machine := by
  cases move with
  | worker =>
    obtain ⟨m, hm, rfl⟩ := Option.map_eq_some_iff.mp h
    unfold seen
    simp only [hm]
    exact .step (step_of_step? hm)
  | elapse =>
    obtain ⟨m, hm, rfl⟩ := Option.map_eq_some_iff.mp h
    unfold elapse? at hm
    split at hm
    next hp =>
      obtain rfl := Option.some.inj hm
      exact .elapse hp
    · contradiction
  | start =>
    obtain rfl := Option.some.inj h
    cases hp : c.machine.phase with
    | unstarted => exact .start hp
    | _ =>
      show Turn tally c.machine [] c.machine.start
      rw [start_of_started (by simp [hp])]
      exact .none
  | wake =>
    obtain rfl := Option.some.inj h
    exact .wake
  | callStop =>
    obtain rfl := Option.some.inj h
    exact .none
  | stop call =>
    unfold move? at h
    dsimp only at h
    split at h
    · contradiction
    next point hpoint =>
      obtain ⟨⟨m, next⟩, hnext, rfl⟩ := Option.map_eq_some_iff.mp h
      cases point with
      | lowering =>
        obtain ⟨rfl, rfl⟩ := Prod.mk.inj (Option.some.inj hnext)
        simp only [seen, hpoint]
        exact .cells (fun _ hr => by contradiction) fun _ => rfl
      | waking =>
        obtain ⟨rfl, rfl⟩ := Prod.mk.inj (Option.some.inj hnext)
        simp only [seen, hpoint]
        exact .wake
      | taking =>
        unfold advance? at hnext
        dsimp only at hnext
        split at hnext
        · obtain ⟨rfl, rfl⟩ := Prod.mk.inj (Option.some.inj hnext)
          simp only [seen, hpoint]
          exact .cells (fun _ hr => hr) fun _ => rfl
        · obtain ⟨rfl, rfl⟩ := Prod.mk.inj (Option.some.inj hnext)
          simp only [seen, hpoint]
          exact .none
      | joining =>
        unfold advance? at hnext
        dsimp only at hnext
        split at hnext
        · obtain ⟨rfl, rfl⟩ := Prod.mk.inj (Option.some.inj hnext)
          simp only [seen, hpoint]
          exact .none
        · contradiction
      | returned => contradiction

/-- What holds at the start and is kept by all that can happen holds after any moves. -/
theorem run?_induct {P : List Happening → Machine σ → Prop}
    (hturn : ∀ {log seen m n}, P log m → m.Turn tally seen n → P (log ++ seen) n)
    {moves : List SpanRelay.Move} (h : c.run? moves = some d) (log : List Happening)
    (hc : P log c.machine) : P (log ++ c.record tally moves) d.machine := by
  induction moves generalizing c log with
  | nil =>
    obtain rfl := Option.some.inj h
    simpa [record] using hc
  | cons move rest ih =>
    obtain ⟨b, hb, hrest⟩ := Option.bind_eq_some_iff.mp h
    have hone := hturn hc (turn_of_move? tally hb)
    have hall := ih hrest _ hone
    unfold record
    simp only [hb]
    rwa [← List.append_assoc]

theorem run?_keeps {P : Machine σ → Prop}
    (hturn : ∀ {seen m n}, P m → m.Turn (fun _ => 0) seen n → P n)
    {moves : List SpanRelay.Move} (h : c.run? moves = some d) (hc : P c.machine) : P d.machine :=
  run?_induct (P := fun _ => P) hturn h [] hc

end Crew

/-! ## Scripted tasks -/

/-- A cue by which a task calls its worker. -/
def Cue.callsWorker (cue : Cue) : Bool := cue = .wake ∨ cue = .stop

def Note.callsWorker : Note → Bool
  | .attached _ cue | .executed _ cue | .detached _ cue => cue.callsWorker
  | .sawRunning .. | .passEnded => false

namespace Stage

/-- Calls on the worker, as the notes tell. -/
def calls (s : Stage) : Nat := s.notes.countP (·.callsWorker)

theorem counted_act (s : Stage) (task : Nat) {n : Note} {cue : Cue}
    (h : n.callsWorker = cue.callsWorker) :
    Signalled.Counted calls s ((s.note n).act task cue).2 := by
  have hcount : (s.note n).calls = s.calls + if cue.callsWorker then 1 else 0 := by
    simp [calls, note, List.countP_cons, h]
  cases cue with
  | wake => exact ⟨[.wake], rfl, hcount⟩
  | stop => exact ⟨[.stop], rfl, hcount⟩
  | running =>
    refine ⟨[], rfl, ?_⟩
    simpa [act, calls, note, Note.callsWorker, Cue.callsWorker] using hcount
  | ok | work | idle | fail | other => exact ⟨[], rfl, hcount⟩

theorem scriptedTask_counted (task : Nat) (attach detach : Cue) :
    (scriptedTask task attach detach).Within (Signalled.Counted calls) where
  attach s := s.counted_act task rfl
  execute s := by
    have htaken : (s.takeCue task).2.signals = s.signals ∧ (s.takeCue task).2.calls = s.calls := by
      unfold takeCue
      split <;> exact ⟨rfl, rfl⟩
    obtain ⟨called, hsignals, hcalls⟩ :=
      (s.takeCue task).2.counted_act task (n := .executed task (s.takeCue task).1) rfl
    exact ⟨called, hsignals.trans (congrArg (·.after called) htaken.1),
      hcalls.trans (congrArg (· + called.length) htaken.2)⟩
  detach s := s.counted_act task rfl

/-- Scripted tasks, too, reach the cells of their worker by calls only. -/
theorem worker_counted (scripts : List (List Cue)) (cues : List (Cue × Cue)) (startupFails : Bool) :
    StartsWithin (Signalled.Counted calls) (worker scripts cues startupFails).startup where
  world := .refl calls
  tasks s tasks htasks t ht := by
    cases startupFails with
    | true => contradiction
    | false =>
      obtain rfl : tasksFor cues = tasks := Option.some.inj htasks
      rcases List.mem_append.mp ht with ht | ht
      · obtain ⟨i, hi, rfl⟩ := List.mem_mapIdx.mp ht
        exact scriptedTask_counted ..
      · obtain rfl := List.mem_singleton.mp ht
        exact ⟨.refl calls, fun s => ⟨[], rfl, by simp [passMarker, calls, note, Note.callsWorker]⟩,
          .refl calls⟩

end Stage
end SpanRelay
