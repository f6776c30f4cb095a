import SpanRelay.Proofs.Worker.Lifecycle

/-!
The waits of a worker. A wake is pending from the time it is made until a wait ends, so a worker
rests without a pending wake only after a whole pass without work that began after every wake so
far. And each pass but the first has a reason: the pass before it worked, a wait consumed a wake, or
the time of a wait was over.
-/
namespace SpanRelay

/-! ## Logs -/

namespace Happening

def call? : Happening → Option WorkerCall
  | called call => some call
  | _ => none

/-- What may let the next pass begin. -/
def isReason : Happening → Bool
  | passed worked => worked
  | roused | elapsed => true
  | wake | called _ => false

/-- Calls of all tasks in turn, with their answers. -/
def executions (answers : List TaskResult) : List Happening :=
  answers.mapIdx fun i r => called (.execute i r)

theorem executions_concat (answers : List TaskResult) (r : TaskResult) :
    executions (answers ++ [r]) = executions answers ++ [called (.execute answers.length r)] := by
  simp [executions, List.mapIdx_append]

/-- Since the last pass began there has been a reason for another one. -/
def Reasoned (log : List Happening) : Prop :=
  ∃ past reason others, log = past ++ reason :: others ∧ reason.isReason ∧
    called .pass ∉ others

/-- Each pass but the first began with a reason. -/
def Warranted (log : List Happening) : Prop :=
  ∀ past rest, log = past ++ called .pass :: rest → called .pass ∈ past → Reasoned past

/-- Wakes apart this was seen since the last pass began; one that was made since is pending. -/
def SinceLastPass (woken : Bool) (log shown : List Happening) : Prop :=
  ∃ past tail, log = past ++ called .pass :: tail ∧ tail.filter (· ≠ wake) = shown ∧
    (wake ∈ tail → woken = true)

/-- A pass that is said to have worked has called a task that did, and only such a pass. -/
def Truthful (log : List Happening) : Prop :=
  ∀ past worked rest, log = past ++ passed worked :: rest →
    ∃ woken answers, SinceLastPass woken past (executions answers) ∧
      answers.any (·.worked) = worked

variable {log past rest others shown : List Happening} {x : Happening} {woken : Bool}

/-- What is not among the last things seen was seen before. -/
theorem split_of_not_mem (h : log ++ others = past ++ x :: rest) (hx : x ∉ others) :
    ∃ rest, log = past ++ x :: rest := by
  rcases List.append_eq_append_iff.mp h with ⟨a, rfl, hothers⟩ | ⟨a, hlog, hrest⟩
  · exact absurd (hothers ▸ by simp) hx
  · cases a with
    | nil =>
      have hmem : x ∈ [] ++ others := hrest ▸ List.mem_cons_self
      exact absurd hmem hx
    | cons y a =>
      obtain ⟨rfl, -⟩ := List.cons.inj hrest
      exact ⟨a, hlog⟩

theorem split_concat (h : log ++ [x] = past ++ x :: rest) :
    past = log ∨ ∃ rest, log = past ++ x :: rest := by
  rcases List.eq_nil_or_concat rest with rfl | ⟨front, y, rfl⟩
  · exact .inl (List.append_inj_left' h rfl).symm
  · rw [List.concat_eq_append, ← List.cons_append, ← List.append_assoc] at h
    exact .inr ⟨front, List.append_inj_left' h rfl⟩

theorem Reasoned.append (h : Reasoned log) (hp : called .pass ∉ others) :
    Reasoned (log ++ others) := by
  obtain ⟨past, reason, tail, rfl, hreason, htail⟩ := h
  exact ⟨past, reason, tail ++ others, by simp, hreason, by simp [htail, hp]⟩

theorem Reasoned.of_concat (log : List Happening) (hx : x.isReason) : Reasoned (log ++ [x]) :=
  ⟨log, x, [], rfl, hx, List.not_mem_nil⟩

theorem Warranted.append (h : Warranted log) (hp : called .pass ∉ others) :
    Warranted (log ++ others) := by
  intro past rest hsplit
  obtain ⟨rest, hlog⟩ := split_of_not_mem hsplit hp
  exact h past rest hlog

theorem Warranted.pass (h : Warranted log) (hr : called .pass ∈ log → Reasoned log) :
    Warranted (log ++ [called .pass]) := by
  intro past rest hsplit
  rcases split_concat hsplit with rfl | ⟨rest, hlog⟩
  · exact hr
  · exact h past rest hlog

theorem Truthful.append (h : Truthful log) (hp : ∀ worked, passed worked ∉ others) :
    Truthful (log ++ others) := by
  intro past worked rest hsplit
  obtain ⟨rest, hlog⟩ := split_of_not_mem hsplit (hp worked)
  exact h past worked rest hlog

theorem Warranted.of_append (h : Warranted (log ++ others)) : Warranted log := by
  rintro past rest rfl
  exact h past (rest ++ others) (by simp)

theorem Truthful.passed (h : Truthful log) {worked : Bool}
    (hw : ∃ woken answers, SinceLastPass woken log (executions answers) ∧
      answers.any (·.worked) = worked) : Truthful (log ++ [passed worked]) := by
  intro past worked' rest hsplit
  by_cases hsame : worked' = worked
  · subst hsame
    rcases split_concat hsplit with rfl | ⟨rest, hlog⟩
    · exact hw
    · exact h past worked' rest hlog
  · obtain ⟨rest, hlog⟩ := split_of_not_mem hsplit (by simp [hsame])
    exact h past worked' rest hlog

/-- Each pass but the first is paid for by a reason of its own. -/
theorem Warranted.count_pass (h : Warranted log) :
    log.count (called .pass) ≤ 1 + log.countP (·.isReason) := by
  induction hn : log.length using Nat.strongRecOn generalizing log with | _ n ih
  rcases List.eq_nil_or_concat log with rfl | ⟨front, x, rfl⟩
  · simp
  rw [List.concat_eq_append] at h hn ⊢
  have hfront := ih front.length (by simp at hn; omega) h.of_append rfl
  rw [List.count_append, List.countP_append]
  by_cases hx : x = called .pass
  · subst hx
    by_cases hmem : called .pass ∈ front
    · obtain ⟨past, reason, tail, rfl, hreason, htail⟩ := h front [] rfl hmem
      have hwarranted : Warranted past := h.of_append.of_append
      have hpast := ih past.length (by simp at hn; omega) hwarranted rfl
      have hne : reason ≠ called .pass := by
        rintro rfl
        contradiction
      have hcount : (past ++ reason :: tail).count (called .pass) = past.count (called .pass) := by
        simp [List.count_eq_zero_of_not_mem htail, hne]
      have hpaid : past.countP (·.isReason) + 1 ≤ (past ++ reason :: tail).countP (·.isReason) := by
        simp [hreason]
      simp only [List.count_singleton_self]
      omega
    · rw [List.count_eq_zero_of_not_mem hmem]
      simp
  · have hzero : [x].count (called .pass) = 0 := List.count_eq_zero_of_not_mem (by simp [Ne.symm hx])
    omega

theorem countP_isReason (log : List Happening) : log.countP (·.isReason) =
    log.count (passed true) + log.count roused + log.count elapsed := by
  induction log with
  | nil => rfl
  | cons x log ih =>
    rw [List.countP_cons, List.count_cons, List.count_cons, List.count_cons, ih]
    cases x with
    | passed worked =>
      cases worked <;> simp [isReason]
      omega
    | wake | called | roused | elapsed => simp [isReason] <;> omega

theorem SinceLastPass.wakes (h : SinceLastPass woken log shown) (k : Nat) :
    SinceLastPass (if k = 0 then woken else true) (log ++ List.replicate k wake) shown := by
  obtain ⟨past, tail, rfl, hshown, hwake⟩ := h
  refine ⟨past, tail ++ List.replicate k wake, by simp, by simpa using hshown, fun hmem => ?_⟩
  split
  next hk => exact hwake (by simpa [hk] using hmem)
  next => rfl

theorem SinceLastPass.concat (h : SinceLastPass woken log shown) (hx : x ≠ wake) :
    SinceLastPass woken (log ++ [x]) (shown ++ [x]) := by
  obtain ⟨past, tail, rfl, rfl, hwake⟩ := h
  exact ⟨past, tail ++ [x], by simp, by simp [hx], fun hmem => hwake (by simpa [hx.symm] using hmem)⟩

end Happening

open Happening WorkerCall

/-! ## Phases -/

/-- How the log bears out a phase of a thread for `n` tasks. -/
def Phase.Recalls (n : Nat) (log : List Happening) (running woken : Bool) : Phase → Prop
  | .unstarted | .starting | .attaching _ => called .pass ∉ log
  | .deciding => running = true → called .pass ∈ log → Reasoned log
  | .passing k worked => ∃ answers, SinceLastPass woken log (executions answers) ∧
      answers.length = k ∧ k ≤ n ∧ answers.any (·.worked) = worked
  | .judging worked => (worked = true → Reasoned log) ∧
      ∃ answers, SinceLastPass woken log (executions answers ++ [passed worked]) ∧
        answers.length = n ∧ answers.any (·.worked) = worked
  | .resting => ∃ answers, SinceLastPass woken log (executions answers ++ [passed false]) ∧
      answers.length = n ∧ answers.any (·.worked) = false
  | .detaching _ | .finished => True

theorem Phase.Recalls.wakes {n : Nat} {log : List Happening} {running running' woken : Bool}
    {phase : Phase} (h : phase.Recalls n log running woken)
    (hr : running' = true → running = true) (k : Nat) :
    phase.Recalls n (log ++ List.replicate k wake) running' (if k = 0 then woken else true) := by
  have hpass : called .pass ∉ List.replicate k wake := by simp
  cases phase with
  | unstarted | starting | attaching =>
    have hlog : called .pass ∉ log := h
    simp [Recalls, hlog]
  | deciding => exact fun hrunning hmem => (h (hr hrunning) (by simpa using hmem)).append hpass
  | passing | resting =>
    obtain ⟨answers, hsince, hrest⟩ := h
    exact ⟨answers, hsince.wakes k, hrest⟩
  | judging =>
    obtain ⟨hreason, answers, hsince, hrest⟩ := h
    exact ⟨fun hworked => (hreason hworked).append hpass, answers, hsince.wakes k, hrest⟩
  | detaching | finished => trivial

namespace Machine

variable {σ : Type} [Signalled σ] {m n : Machine σ} {log : List Happening} {tally : σ → Nat}

/-- How the log bears out the phase that the machine is in. -/
def IsRecalled (log : List Happening) (m : Machine σ) : Prop :=
  m.phase.Recalls m.tasks.length log (Signalled.isRunning m.world) (Signalled.signals m.world).woken

/-- A step after the wakes that its task made. -/
theorem Step.recalls (hs : m.Step n) (hr : m.phase ≠ .resting)
    (h : m.phase.Recalls m.tasks.length log (Signalled.isRunning n.world)
      (Signalled.signals n.world).woken) :
    n.IsRecalled (log ++ m.shown) := by
  unfold IsRecalled
  cases hs with
  | boot hp =>
    have hlog : called .pass ∉ log := by rwa [hp] at h
    change called .pass ∉ log ++ m.shown
    simp [shown, hp, hlog]
  | @attach k t hp ht =>
    have hlog : called .pass ∉ log := by rwa [hp] at h
    change called .pass ∉ log ++ m.shown
    simp [shown, hp, hlog, ht]
  | attached hp ht =>
    have hlog : called .pass ∉ log := by rwa [hp] at h
    intro _ hmem
    simp [shown, hp, hlog] at hmem
  | begin hp hrunning =>
    refine ⟨[], ⟨log, [], by simp [shown, hp, hrunning], rfl, by simp⟩, rfl, Nat.zero_le _, rfl⟩
  | leave => trivial
  | @execute k worked t hp ht =>
    rw [hp] at h
    obtain ⟨answers, hsince, rfl, hk, rfl⟩ := h
    refine ⟨answers ++ [(t.execute m.world).1], ?_, by simp, (List.getElem?_eq_some_iff.mp ht).1,
      by simp⟩
    rw [executions_concat]
    simpa [shown, hp, ht] using hsince.concat (x := called (.execute answers.length _)) nofun
  | @complete k worked hp ht =>
    rw [hp] at h
    obtain ⟨answers, hsince, rfl, hk, rfl⟩ := h
    have hshown : m.shown = [passed (answers.any (·.worked))] := by simp [shown, hp, ht]
    rw [hshown]
    exact ⟨fun hworked => .of_concat log hworked, answers, hsince.concat nofun,
      Nat.le_antisymm hk (List.getElem?_eq_none_iff.mp ht), rfl⟩
  | rest hp hrunning =>
    rw [hp] at h
    have hshown : m.shown = [] := by simp [shown, hp]
    rw [hshown, List.append_nil]
    exact h.2
  | @again worked hp hreason =>
    rw [hp] at h
    obtain ⟨hworked, -⟩ := h
    intro hrunning _
    rcases hreason with rfl | hstopped
    · simpa [shown, hp] using hworked rfl
    · exact absurd hrunning (by simpa using hstopped)
  | rouse hp _ => contradiction
  | detach | finish => trivial

/-- What is shown tells the calls. -/
theorem Step.calls_eq (hs : m.Step n) : n.calls = m.calls ++ m.shown.filterMap call? := by
  cases hs with
  | boot hp => simp [shown, hp, calls, note, call?]
  | attach hp ht | execute hp ht | detach hp ht => simp [shown, hp, ht, calls, note, call?]
  | begin hp hr => simp [shown, hp, hr, calls, note, call?]
  | attached hp h | leave hp h | complete hp h | finish hp h => simp [shown, hp, h, calls, call?]
  | rest hp _ | again hp _ => simp [shown, hp, calls]
  | rouse hp hw => simp [shown, hp, hw, calls, call?, rise]

theorem shown_pass (h : called .pass ∈ m.shown) :
    m.phase = .deciding ∧ Signalled.isRunning m.world = true ∧ m.shown = [called .pass] := by
  cases hp : m.phase with
  | deciding => cases hr : Signalled.isRunning m.world <;> simp_all [shown]
  | passing k worked => cases ht : m.tasks[k]? <;> simp [shown, hp, ht] at h
  | _ => simp [shown, hp] at h

theorem shown_passed {worked : Bool} (h : passed worked ∈ m.shown) :
    (∃ k, m.phase = .passing k worked) ∧ m.shown = [passed worked] := by
  cases hp : m.phase with
  | passing k worked => cases ht : m.tasks[k]? <;> simp_all [shown]
  | _ => simp [shown, hp] at h

theorem shown_roused (hp : m.phase ≠ .resting) : roused ∉ m.shown := by
  cases hphase : m.phase with
  | resting => contradiction
  | passing k worked => cases ht : m.tasks[k]? <;> simp [shown, hphase, ht]
  | _ => simp [shown, hphase]

/-! ## Turns -/

/-- What is known of a machine from the log of what was seen of it. -/
structure Remembers (tally : σ → Nat) (log : List Happening) (m : Machine σ) : Prop where
  within : m.Within (Signalled.Counted tally)
  calls : log.filterMap call? = m.calls
  /-- A wait that consumed a wake and a wake that is pending are about different wakes. -/
  wakes : log.count .roused + (Signalled.signals m.world).woken.toNat ≤ log.count .wake
  warranted : Warranted log
  truthful : Truthful log
  recalled : m.IsRecalled log

/-- Calls on the worker, from anywhere. -/
theorem Remembers.heard (h : m.Remembers tally log) (world : σ) (k : Nat)
    (hr : Signalled.isRunning world = true → Signalled.isRunning m.world = true)
    (hw : (Signalled.signals world).woken =
      if k = 0 then (Signalled.signals m.world).woken else true) :
    Machine.Remembers tally (log ++ List.replicate k .wake) { m with world } where
  within := ⟨h.within.startup, h.within.tasks⟩
  calls := by
    have hnone : (List.replicate k Happening.wake).filterMap call? = [] := by
      simp [call?, List.filterMap_replicate]
    rw [List.filterMap_append, h.calls, hnone, List.append_nil]
    rfl
  wakes := by
    have hone := h.wakes
    have hwakes : (List.replicate k Happening.wake).count .wake = k := List.count_replicate_self
    have hnone : (List.replicate k Happening.wake).count .roused = 0 := by
      simp [List.count_replicate]
    rw [List.count_append, List.count_append, hwakes, hnone, hw]
    by_cases hk : k = 0
    · simpa [hk] using hone
    · simp only [hk, if_false, Bool.toNat_true]
      omega
  warranted := h.warranted.append (by simp)
  truthful := h.truthful.append (by simp)
  recalled := by
    have hrecalled := h.recalled.wakes hr k
    rwa [← hw] at hrecalled

/-- A wait ends, and the pending wake with it. -/
theorem Remembers.rise (h : m.Remembers tally log) {x : Happening}
    (hx : x = .roused ∧ (Signalled.signals m.world).woken = true ∨ x = .elapsed) :
    m.rise.Remembers tally (log ++ [x]) where
  within := ⟨h.within.startup, h.within.tasks⟩
  calls := by
    have hnone : [x].filterMap call? = [] := by rcases hx with ⟨rfl, -⟩ | rfl <;> rfl
    rw [List.filterMap_append, h.calls, hnone, List.append_nil]
    rfl
  wakes := by
    have hone := h.wakes
    rcases hx with ⟨rfl, hw⟩ | rfl
    · simpa [Machine.rise, hw] using hone
    · simp [Machine.rise]
      omega
  warranted := h.warranted.append (by rcases hx with ⟨rfl, -⟩ | rfl <;> simp)
  truthful := h.truthful.append (by rcases hx with ⟨rfl, -⟩ | rfl <;> simp)
  recalled := fun _ _ => .of_concat log (by rcases hx with ⟨rfl, -⟩ | rfl <;> rfl)

/-- What a step shows, after the wakes that its task made. -/
theorem Remembers.shown (h : Machine.Remembers tally log { m with world := n.world })
    (hs : m.Step n) (hw : m.Within (Signalled.Counted tally)) (hp : m.phase ≠ .resting) :
    n.Remembers tally (log ++ m.shown) where
  within := hs.within hw
  calls := by
    rw [List.filterMap_append, h.calls, hs.calls_eq]
    rfl
  wakes := by
    have hone := h.wakes
    have hnone : m.shown.count .roused = 0 := List.count_eq_zero_of_not_mem (shown_roused hp)
    simp only [List.count_append]
    dsimp only at hone
    omega
  warranted := by
    by_cases hmem : called .pass ∈ m.shown
    · obtain ⟨hphase, hrunning, hshown⟩ := shown_pass hmem
      have hreason : called .pass ∈ log → Reasoned log := by
        have hrecalled := h.recalled
        unfold IsRecalled at hrecalled
        cases hs with
        | begin =>
          rw [hphase] at hrecalled
          exact hrecalled hrunning
        | _ => simp_all
      rw [hshown]
      exact h.warranted.pass hreason
    · exact h.warranted.append hmem
  truthful := by
    by_cases hmem : ∃ worked, passed worked ∈ m.shown
    · obtain ⟨worked, hmem⟩ := hmem
      obtain ⟨⟨k, hphase⟩, hshown⟩ := shown_passed hmem
      have hanswers : ∃ woken answers, SinceLastPass woken log (executions answers) ∧
          answers.any (·.worked) = worked := by
        have hrecalled := h.recalled
        unfold IsRecalled at hrecalled
        simp only [hphase] at hrecalled
        obtain ⟨answers, hsince, -, -, hworked⟩ := hrecalled
        exact ⟨_, answers, hsince, hworked⟩
      rw [hshown]
      exact h.truthful.passed hanswers
    · exact h.truthful.append (not_exists.mp hmem)
  recalled := hs.recalls hp h.recalled

theorem Remembers.step (h : m.Remembers tally log) (hs : m.Step n) :
    n.Remembers tally (log ++ (m.wakesOfStep tally n ++ m.shown)) := by
  by_cases hp : m.phase = .resting
  · cases hs with
    | rouse _ hw => simpa [wakesOfStep, Machine.shown, hp, hw] using h.rise (.inl ⟨rfl, hw⟩)
    | _ => simp_all
  · have hworld : Signalled.Counted tally m.world n.world :=
      (hs.world_within h.within (.refl tally)).resolve_right fun hrest => hp hrest.1
    have hheard := h.heard n.world (tally n.world - tally m.world) hworld.courteous.isRunning
      hworld.woken
    simpa [wakesOfStep, hp] using hheard.shown hs h.within hp

theorem Remembers.turn {seen : List Happening} (h : m.Remembers tally log)
    (ht : m.Turn tally seen n) : n.Remembers tally (log ++ seen) := by
  cases ht with
  | step hs => exact h.step hs
  | elapse hp => exact h.rise (.inr rfl)
  | start hp =>
    have hlog : called .pass ∉ log := by
      have hrecalled := h.recalled
      unfold IsRecalled at hrecalled
      rwa [hp] at hrecalled
    rw [Machine.start_of_unstarted hp, List.append_nil]
    exact ⟨⟨h.within.startup, h.within.tasks⟩, h.calls,
      by simpa [Machine.raise, Machine.spawn, Machine.keep] using h.wakes, h.warranted, h.truthful,
      hlog⟩
  | wake =>
    exact h.heard (Signalled.raiseWake m.world) 1
      (by simp [Signalled.raiseWake, Signals.wake, Signalled.isRunning])
      (by simp [Signalled.raiseWake, Signals.wake])
  | none => simpa using h
  | @cells f hr hw =>
    exact h.heard (Signalled.modify m.world f) 0
      (by simpa [Signalled.isRunning] using hr _) (by simp [hw])

theorem remembers_create {startup : σ → Option (List (Task σ)) × σ} {world : σ}
    (hstartup : StartsWithin (Signalled.Counted tally) startup)
    (hcells : Signalled.signals world = .initial) : (create world startup).Remembers tally [] where
  within := within_create hstartup
  calls := rfl
  wakes := by simp [create, hcells, Signals.initial]
  warranted := by simp [Warranted]
  truthful := by simp [Truthful]
  recalled := List.not_mem_nil

end Machine

namespace Crew

open Machine

variable {σ : Type} [Signalled σ]

/-- No wake is lost and no pass comes without a reason. In the log of any run, a worker that rests
without a pending wake has gone through all tasks without work since it was last woken; each pass
but the first begins after a pass that worked, a wait that consumed a wake or one whose time was
over; so there are at most as many further passes as passes that worked, wakes and elapsed waits. -/
theorem wakes_run? {tally : σ → Nat} {startup : σ → Option (List (Task σ)) × σ} {world : σ}
    {moves : List SpanRelay.Move} {c : Crew σ} {log : List Happening}
    (hstartup : StartsWithin (Signalled.Counted tally) startup)
    (hcells : Signalled.signals world = .initial)
    (h : (create (.create world startup)).run? moves = some c)
    (hlog : log = (create (.create world startup)).record tally moves) :
    log.filterMap call? = c.machine.calls ∧
    (c.machine.phase = .resting → (Signalled.signals c.machine.world).woken = false →
      ∃ past answers, log = past ++ called .pass :: (executions answers ++ [passed false]) ∧
        answers.length = c.machine.tasks.length ∧ ∀ r ∈ answers, r.worked = false) ∧
    Warranted log ∧ Truthful log ∧
    log.count (called .pass) ≤
      1 + log.count (passed true) + log.count .wake + log.count .elapsed := by
  have hremembers : c.machine.Remembers tally log := by
    subst hlog
    exact run?_induct (fun h ht => Remembers.turn h ht) h [] (remembers_create hstartup hcells)
  refine ⟨hremembers.calls, ?_, hremembers.warranted, hremembers.truthful, ?_⟩
  · intro hp hw
    have hrecalled := hremembers.recalled
    unfold IsRecalled at hrecalled
    rw [hp, hw] at hrecalled
    obtain ⟨answers, ⟨past, tail, hsplit, hshown, hwake⟩, hlength, hworked⟩ := hrecalled
    have hnone : Happening.wake ∉ tail := fun hmem => nomatch hwake hmem
    have htail : tail = executions answers ++ [passed false] := by
      rw [← hshown, List.filter_eq_self.mpr]
      intro x hx
      simpa using ne_of_mem_of_not_mem hx hnone
    exact ⟨past, answers, htail ▸ hsplit, hlength, by simpa using hworked⟩
  · have hpaid := hremembers.warranted.count_pass
    have hwakes := hremembers.wakes
    rw [countP_isReason] at hpaid
    omega

/-- A task wakes its worker in the first pass, and works in the second. -/
theorem wakes_run?_woken_in_pass :
    ∃ (c : Crew Stage) (log : List Happening),
      (create (Stage.worker [[.wake, .work]] [(.ok, .ok)] false)).run?
        (.start :: List.replicate 20 .worker) = some c ∧
      c.machine.phase = .resting ∧ (Signalled.signals c.machine.world).woken = false ∧
      log.filterMap call? = c.machine.calls ∧ log.count (called .pass) = 3 ∧
      ∃ past answers, log = past ++ called .pass :: (executions answers ++ [passed false]) ∧
        answers.length = 2 ∧ ∀ r ∈ answers, r.worked = false := by
  let created := create (Stage.worker [[.wake, .work]] [(.ok, .ok)] false)
  let moves : List SpanRelay.Move := .start :: List.replicate 20 .worker
  have hfacts : (created.run? moves).map (fun c => (c.machine.phase,
      (Signalled.signals c.machine.world).woken, c.machine.tasks.length)) =
        some (.resting, false, 2) ∧
      (created.record Stage.calls moves).count (called .pass) = 3 := by
    decide +kernel
  obtain ⟨hend, hcount⟩ := hfacts
  obtain ⟨c, hc, hend⟩ := Option.map_eq_some_iff.mp hend
  obtain ⟨hphase, hend⟩ := Prod.mk.inj hend
  obtain ⟨hwoken, hlength⟩ := Prod.mk.inj hend
  obtain ⟨hcalls, hquiet, -⟩ :=
    wakes_run? (Stage.worker_counted [[.wake, .work]] [(.ok, .ok)] false) rfl hc rfl
  rw [hlength] at hquiet
  exact ⟨c, created.record Stage.calls moves, hc, hphase, hwoken, hcalls, hcount,
    hquiet hphase hwoken⟩

end Crew
end SpanRelay
