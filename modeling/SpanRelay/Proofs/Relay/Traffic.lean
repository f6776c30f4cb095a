import Mathlib.Logic.Function.Iterate
import SpanRelay.Proofs.Relay.Asides
import SpanRelay.Relay.Traffic

/-!
Traffic step by step. A turn and a flush that nothing comes between are the task and the flush as
they are called; each other move is a step of the worker, or leaves the machine as it is but for a
relay that honors what is demanded of it.
-/
namespace SpanRelay.Relay

open Recorder (honors_move)

/-! ## Turns and flushes that nothing comes between -/

def attend (deliver : Courier) (e : SendPoint × Relay) : SendPoint × Relay :=
  e.1.advance deliver e.2

theorem execute_courierTask (deliver : Courier) (y : Relay) :
    (courierTask deliver).execute y =
      let asked := (y.record Recorder.askForBatch).2
      if y.recorder.askForBatch.1 then
        let (kept, z) := asked.record Recorder.detachBatch
        if kept.isEmpty then (.done false, z) else deliver kept z
      else (.done false, asked) := by
  unfold courierTask record Recorder.collectNextBatch
  cases h : y.recorder.askForBatch.1 with
  | false => simp only [h, Bool.false_eq_true, if_false]
  | true => simp only [h, if_true]

/-- A turn that nothing comes between is an execution of the task. -/
theorem attend_reading (deliver : Courier) (y : Relay) :
    (attend deliver)^[8] (.reading, y) =
      (.answered ((courierTask deliver).execute y).1, ((courierTask deliver).execute y).2) := by
  let asked := (y.record Recorder.askForBatch).2
  let now := y.recorder.clock.ticks
  have hasked : (attend deliver)^[4] (.reading, y) =
      (if y.recorder.askForBatch.1 then .stamping now else .answered (.done false), asked) := rfl
  have hsampled : (attend deliver)^[3] (.stamping now, asked) =
      let (kept, z) := asked.record Recorder.detachBatch
      (if kept.isEmpty then .answered (.done false) else .delivering kept, z) := by
    unfold record
    rw [Recorder.detachBatch_eq]
    rfl
  rw [execute_courierTask, Function.iterate_add_apply _ 4 4, hasked]
  cases y.recorder.askForBatch.1 with
  | false => rfl
  | true =>
    simp only [if_true]
    rw [Function.iterate_succ_apply', hsampled]
    dsimp only
    split <;> rfl

def hasten (e : FlushPoint × Relay) : FlushPoint × Relay := e.1.advance e.2

/-- Four steps that nothing comes between are a flush. -/
theorem hasten_demanding (m : Machine Relay) :
    hasten^[4] (.demanding, m.world) = (.returned, (flush m).world) := by
  let demanded := m.world.modifyBatcher fun b => { b with forced := true }
  have hlooked : hasten^[2] (.demanding, m.world) =
      (if m.world.recorder.batcher.bound then .rousing else .waking, demanded) := rfl
  have hflush : (flush m).world = Signalled.raiseWake
      (if m.world.recorder.batcher.bound then Signalled.raiseWake demanded else demanded) := by
    unfold flush Machine.wake Recorder.forceCurrentBatch Recorder.wakeWorker
    dsimp only
    split <;> rfl
  rw [hflush, Function.iterate_add_apply _ 2 2, hlooked]
  split <;> rfl

/-! ## Traffic -/

theorem leading_otherStartup (config : RelayConfig) (fresh : BitVec 128) :
    leading (routeCourier .retrying) (otherStartup config fresh) = startup config fresh := by
  funext y
  unfold leading otherStartup startup
  rw [courierTask_routeCourier]
  rfl

theorem startsWithin_otherStartup (config : RelayConfig) (fresh : BitVec 128) :
    StartsWithin Asides (otherStartup config fresh) where
  world y := (startsWithin_startup config fresh).world y
  tasks y tasks htasks t ht := by
    change (startup config fresh y).1.map List.tail = some tasks at htasks
    obtain ⟨all, hall, rfl⟩ := Option.map_eq_some_iff.mp htasks
    exact (startsWithin_startup config fresh).tasks y all hall t (List.mem_of_mem_tail ht)

namespace Traffic

/-! ## Steps -/

variable {deliver : Courier} {x y : Traffic}

theorem sends?_eq_some {worked : Bool} :
    x.sends? = some worked ↔ x.machine.phase = .passing 0 worked ∧ x.machine.tasks ≠ [] := by
  unfold sends?
  split
  next other hp => cases ht : x.machine.tasks <;> simp_all
  next hp =>
    constructor
    · simp
    · rintro ⟨h, -⟩
      exact absurd h (hp worked)

/-- What a move can do: a step of the thread, one of a turn of its first task, or one from outside.
-/
inductive Step (deliver : Courier) (x : Traffic) : Traffic → Prop where
  | thread {m : Machine Relay} (hx : x.sends? = none) (hs : x.machine.Step m) :
      Step deliver x (x.withMachine m)
  | attend {worked : Bool} (hx : x.sends? = some worked) : Step deliver x (x.attend deliver worked)
  | rise (hp : x.machine.phase = .resting) : Step deliver x (x.withMachine x.machine.rise)
  | start (hp : x.machine.phase = .unstarted) : Step deliver x (x.withMachine x.machine.start)
  | world {y : Traffic} (hm : y.machine = { x.machine with world := y.world })
      (ht : y.turn = x.turn) (hf : y.flushes = x.flushes) (h : x.world.Honors y.world) :
      Step deliver x y
  | callFlush : Step deliver x { x with flushes := x.flushes ++ [.demanding] }
  | flush {call : Nat} {point : FlushPoint} (hc : x.flushes[call]? = some point) :
      Step deliver x { x.withWorld (point.advance x.world).2 with
        flushes := x.flushes.set call (point.advance x.world).1 }

theorem honors_modify (w : Relay) {f : Signals → Signals}
    (hf : ∀ s, s.woken = true → (f s).woken = true) : w.Honors (Signalled.modify w f) :=
  Recorder.Level.honors ⟨rfl, rfl, rfl, rfl, rfl, rfl, rfl, rfl⟩ ⟨List.suffix_rfl, id, hf _⟩ rfl

/-- A step of a call of `stop` leaves a pending wake alone. -/
theorem exists_signal_of_advance? {c : Crew Relay} {point next : StopPoint} {m : Machine Relay}
    (h : c.advance? point = some (m, next)) :
    ∃ f : Signals → Signals, (∀ s, s.woken = true → (f s).woken = true) ∧ m = c.signal f := by
  cases point with
  | lowering =>
    obtain ⟨rfl, -⟩ := Prod.mk.inj (Option.some.inj h)
    exact ⟨fun s => { s with running := false }, fun _ hw => hw, rfl⟩
  | waking =>
    obtain ⟨rfl, -⟩ := Prod.mk.inj (Option.some.inj h)
    exact ⟨.wake, fun _ _ => rfl, rfl⟩
  | taking =>
    unfold Crew.advance? at h
    dsimp only at h
    split at h
    · obtain ⟨rfl, -⟩ := Prod.mk.inj (Option.some.inj h)
      exact ⟨fun s => { s with joinable := false }, fun _ hw => hw, rfl⟩
    · obtain ⟨rfl, -⟩ := Prod.mk.inj (Option.some.inj h)
      exact ⟨id, fun _ => id, rfl⟩
  | joining =>
    unfold Crew.advance? at h
    dsimp only at h
    split at h
    · obtain ⟨rfl, -⟩ := Prod.mk.inj (Option.some.inj h)
      exact ⟨id, fun _ => id, rfl⟩
    · contradiction
  | returned => contradiction

theorem step_of_crew {move : SpanRelay.Move} {crew : Crew Relay} (hm : move ≠ .worker)
    (h : x.crew.move? move = some crew) : Step deliver x { x with crew } := by
  cases move with
  | worker => contradiction
  | elapse =>
    obtain ⟨m, hm, rfl⟩ := Option.map_eq_some_iff.mp h
    unfold Machine.elapse? at hm
    split at hm
    next hp =>
      obtain rfl := Option.some.inj hm
      exact .rise hp
    · contradiction
  | start =>
    obtain rfl := Option.some.inj h
    cases hp : x.crew.machine.phase with
    | unstarted => exact .start hp
    | _ =>
      have hsame : x.crew.machine.start = x.crew.machine := by
        unfold Machine.start
        simp [hp]
      rw [hsame]
      exact .world rfl rfl rfl (.refl _)
  | wake =>
    obtain rfl := Option.some.inj h
    exact .world rfl rfl rfl (honors_modify _ fun _ _ => rfl)
  | callStop =>
    obtain rfl := Option.some.inj h
    exact .world rfl rfl rfl (.refl _)
  | stop call =>
    unfold Crew.move? at h
    dsimp only at h
    split at h
    · contradiction
    · obtain ⟨⟨m, next⟩, hnext, rfl⟩ := Option.map_eq_some_iff.mp h
      obtain ⟨f, hf, rfl⟩ := exists_signal_of_advance? hnext
      exact .world rfl rfl rfl (honors_modify _ hf)

theorem step_of_move? {move : TrafficMove} (h : x.move? deliver move = some y) :
    Step deliver x y := by
  cases move with
  | crew move =>
    by_cases hm : move = .worker
    · subst hm
      unfold move? at h
      dsimp only at h
      split at h
      next worked hx =>
        obtain rfl := Option.some.inj h
        exact .attend hx
      next hx =>
        obtain ⟨crew, hcrew, rfl⟩ := Option.map_eq_some_iff.mp h
        obtain ⟨m, hm, rfl⟩ := Option.map_eq_some_iff.mp hcrew
        exact .thread hx (Machine.step_of_step? hm)
    · have hmap : (x.crew.move? move).map (fun crew => { x with crew }) = some y := by
        cases move <;> first | exact absurd rfl hm | exact h
      obtain ⟨crew, hcrew, rfl⟩ := Option.map_eq_some_iff.mp hmap
      exact step_of_crew hm hcrew
  | record m =>
    obtain rfl := Option.some.inj h
    exact .world rfl rfl rfl (honors_move _ m)
  | connect connected =>
    obtain rfl := Option.some.inj h
    exact .world rfl rfl rfl (.refl _)
  | callFlush =>
    obtain rfl := Option.some.inj h
    exact .callFlush
  | flush call =>
    unfold move? at h
    dsimp only at h
    split at h
    · contradiction
    · contradiction
    next point hne hcall =>
      obtain rfl := Option.some.inj h
      exact .flush hcall

end Traffic
end SpanRelay.Relay
