import Mathlib.Data.List.Nodup
import SpanRelay.Platform.Standard
import SpanRelay.Proofs.Relay.Traffic

/-!
No flush is lost. From the moment a flush demands a batch, either all that was batched before is
detached, or the worker is about to detach it, or the demand stands and the worker asks for it
before it rests.
-/
namespace SpanRelay

/-- Before a thread in this phase rests it begins another pass, if it ever rests again. -/
def Phase.isBeforePass : Phase → Bool
  | .unstarted | .starting | .attaching _ | .deciding | .detaching _ | .finished => true
  | .passing .. | .judging _ | .resting => false

def Phase.hasBooted : Phase → Bool
  | .unstarted | .starting => false
  | _ => true

namespace Relay

namespace SendPoint

/-- The turn has yet to ask whether a batch is demanded. -/
def willAsk : SendPoint → Bool
  | reading | dating _ | asking .. => true
  | _ => false

/-- The turn is sure to detach what waits. -/
def isTaking : SendPoint → Bool
  | weighing _ _ forced => forced
  | stamping _ | detaching => true
  | _ => false

variable {deliver : Courier} {w : Relay} {turn : SendPoint}

theorem isTaking_advance (h : turn.isTaking = true) :
    (turn.advance deliver w).1.isTaking = true ∨ turn = .detaching := by
  cases turn with
  | weighing now age forced =>
    obtain rfl : forced = true := h
    exact .inl rfl
  | stamping => exact .inl rfl
  | detaching => exact .inr rfl
  | _ => contradiction

/-- A turn that asks finds out that a batch is demanded. -/
theorem willAsk_advance (h : turn.willAsk = true) (hf : w.recorder.batcher.forced = true) :
    (turn.advance deliver w).1.willAsk = true ∨ (turn.advance deliver w).1.isTaking = true := by
  cases turn with
  | asking => exact .inr hf
  | reading | dating => exact .inl rfl
  | _ => contradiction

end SendPoint

namespace Traffic

variable {deliver : Courier} {x y : Traffic} {early : List SpanRef} {point : FlushPoint}

theorem start_eq {m : Machine Relay} (hp : m.phase = .unstarted) :
    m.start = { m with
      world := Signalled.modify m.world fun s => { s with running := true, joinable := true }
      phase := .starting } := by
  rw [Machine.start_of_unstarted hp]
  rfl

theorem sends?_congr (hp : y.machine.phase = x.machine.phase)
    (ht : y.machine.tasks = x.machine.tasks) : y.sends? = x.sends? := by
  unfold sends?
  rw [hp, ht]

theorem sends?_eq_none (hp : ∀ worked, x.machine.phase ≠ .passing 0 worked) : x.sends? = none := by
  cases h : x.sends? with
  | none => rfl
  | some worked => exact absurd (sends?_eq_some.mp h).1 (hp worked)

/-! ## What a step does to the world -/

theorem honors_advance (hd : ∀ spans w, Relay.Honors w (deliver spans w).2) (w : Relay)
    {turn : SendPoint} (ht : ∀ now age, turn ≠ .asking now age) :
    w.Honors (turn.advance deliver w).2 := by
  cases turn with
  | asking now age => exact absurd rfl (ht now age)
  | stamping now =>
    refine Recorder.Level.honors ⟨rfl, rfl, rfl, rfl, rfl, rfl, rfl, rfl⟩ ?_ rfl
    exact ⟨List.suffix_rfl, id, id⟩
  | detaching => exact (Recorder.heeds_detachBacklog _).honors Balanced.detachBacklog
  | sampling detached => exact (Recorder.heeds_sampleAll detached _).honors (Balanced.sampleAll · _)
  | delivering kept => exact hd kept w
  | reading | dating | weighing | answered => exact .refl _

theorem honors_hasten (w : Relay) (point : FlushPoint) : w.Honors (point.advance w).2 := by
  cases point with
  | demanding =>
    refine Recorder.Level.honors ⟨rfl, rfl, rfl, rfl, rfl, rfl, rfl, rfl⟩ ?_ rfl
    exact ⟨List.suffix_rfl, fun _ => rfl, id⟩
  | looking | returned => exact .refl _
  | rousing | waking => exact honors_modify w fun _ _ => rfl

/-- A turn goes on by one step, or it has answered and the next task comes. -/
theorem attend_eq (deliver : Courier) (x : Traffic) (worked : Bool) :
    (∃ result, x.turn = .answered result ∧ x.attend deliver worked =
      { x.withMachine ({ x.machine with phase := .passing 1 (worked || result.worked) }.note
          (.execute 0 result)) with
        turn := .reading }) ∨
    x.attend deliver worked =
      { x.withWorld (x.turn.advance deliver x.world).2 with
        turn := (x.turn.advance deliver x.world).1 } := by
  unfold attend
  split
  next result hturn => exact .inl ⟨result, hturn, rfl⟩
  · exact .inr rfl

/-- A demand can rely on each step, but for two: the end of a wait clears a wake, and the send task
takes the demand back. -/
theorem Step.effect (hs : Step deliver x y) (hd : ∀ spans w, Relay.Honors w (deliver spans w).2)
    (hx : x.machine.Within Honors) :
    x.world.Honors y.world ∨ y = x.withMachine x.machine.rise ∨
      ∃ worked now age, x.sends? = some worked ∧ x.turn = .asking now age ∧
        y = x.attend deliver worked := by
  cases hs with
  | thread hsend hstep =>
    rcases hstep.world_within hx fun w => .refl _ with h | ⟨-, rfl⟩
    · exact .inl h
    · exact .inr (.inl rfl)
  | @attend worked hsend =>
    by_cases ht : ∃ now age, x.turn = .asking now age
    · obtain ⟨now, age, ht⟩ := ht
      exact .inr (.inr ⟨worked, now, age, hsend, ht, rfl⟩)
    · refine .inl ?_
      rcases attend_eq deliver x worked with ⟨result, -, heq⟩ | heq
      · rw [heq]
        exact .refl _
      · rw [heq]
        exact honors_advance hd _ fun now age h => ht ⟨now, age, h⟩
  | rise hp => exact .inr (.inl rfl)
  | start hp =>
    rw [start_eq hp]
    exact .inl (honors_modify (f := fun s => { s with running := true, joinable := true }) _
      fun _ hw => hw)
  | world hm ht hf h => exact .inl h
  | callFlush => exact .inl (.refl _)
  | @flush call point hc => exact .inl (honors_hasten _ point)

/-! ## What stays true -/

/-- The startup failed, so that there is no task. -/
def IsIdle (x : Traffic) : Prop := x.machine.phase.hasBooted = true ∧ x.machine.tasks = []

/-- The batches are in order, and between its turns the send task is at the beginning of one. -/
structure Sound (x : Traffic) : Prop where
  balanced : Balanced ⟨x.recorder, []⟩
  within : x.machine.Within Honors
  turn : x.sends? = none → x.turn = .reading

theorem sends?_of_phase {k : Nat} {worked : Bool} (hp : x.machine.phase = .passing k worked)
    (hi : ¬ x.IsIdle) (hk : k = 0) : x.sends? = some worked := by
  subst hk
  rw [sends?_eq_some]
  refine ⟨hp, fun ht => hi ⟨?_, ht⟩⟩
  rw [hp]
  rfl

theorem Step.isIdle (hs : Step deliver x y) (hi : x.IsIdle) : y.IsIdle := by
  obtain ⟨hbooted, htasks⟩ := hi
  cases hs with
  | thread hsend hstep =>
    cases hstep with
    | boot hp => simp [hp, Phase.hasBooted] at hbooted
    | _ => exact ⟨rfl, htasks⟩
  | attend hsend => exact absurd htasks (sends?_eq_some.mp hsend).2
  | rise => exact ⟨rfl, htasks⟩
  | start hp => simp [hp, Phase.hasBooted] at hbooted
  | world hm =>
    unfold IsIdle
    rw [hm]
    exact ⟨hbooted, htasks⟩
  | callFlush => exact ⟨hbooted, htasks⟩
  | flush => exact ⟨hbooted, htasks⟩

theorem Step.sound (hs : Step deliver x y) (hd : ∀ spans w, Relay.Honors w (deliver spans w).2)
    (hi : ¬ y.IsIdle) (h : x.Sound) : y.Sound where
  balanced := by
    rcases hs.effect hd h.within with heffect | rfl | ⟨worked, now, age, hsend, hturn, rfl⟩
    · exact heffect.balanced h.balanced
    · exact h.balanced.level ⟨rfl, rfl, rfl, rfl, rfl, rfl, rfl, rfl⟩ fun _ hp => hp
    · unfold Traffic.attend
      rw [hturn]
      exact h.balanced.level ⟨rfl, rfl, rfl, rfl, rfl, rfl, rfl, rfl⟩ fun _ hp => hp
  within := by
    cases hs with
    | thread hsend hstep => exact hstep.within h.within
    | @attend worked hsend =>
      rcases attend_eq deliver x worked with ⟨result, -, heq⟩ | heq <;> rw [heq] <;>
        exact ⟨h.within.startup, h.within.tasks⟩
    | rise => exact ⟨h.within.startup, h.within.tasks⟩
    | start hp =>
      rw [start_eq hp]
      exact ⟨h.within.startup, h.within.tasks⟩
    | world hm =>
      rw [hm]
      exact ⟨h.within.startup, h.within.tasks⟩
    | callFlush => exact h.within
    | flush => exact ⟨h.within.startup, h.within.tasks⟩
  turn hnone := by
    cases hs with
    | thread hsend => exact h.turn hsend
    | @attend worked hsend =>
      rcases attend_eq deliver x worked with ⟨result, -, heq⟩ | heq
      · rw [heq]
      · have hsame : (x.attend deliver worked).sends? = x.sends? := by
          rw [heq]
          exact sends?_congr rfl rfl
        rw [hsame, hsend] at hnone
        contradiction
    | rise hp | start hp => exact h.turn (sends?_eq_none fun worked => by rw [hp]; nofun)
    | world hm ht =>
      rw [ht]
      refine h.turn ?_
      rw [← hnone]
      exact (sends?_congr (by rw [hm]) (by rw [hm])).symm
    | callFlush | flush => exact h.turn hnone

/-! ## The care for a flush -/

/-- The worker asks whether a batch is demanded before it rests, if it ever rests again. -/
def WillAsk (x : Traffic) : Prop :=
  x.machine.phase.isBeforePass = true ∨ ∃ worked, x.sends? = some worked ∧ x.turn.willAsk = true

def IsTaking (x : Traffic) : Prop := ∃ worked, x.sends? = some worked ∧ x.turn.isTaking = true

/-- How the spans that were batched before a flush are cared for once it has come to this point. -/
def Cares (x : Traffic) (early : List SpanRef) (point : FlushPoint) : Prop :=
  early <+: x.recorder.detachedSpans ∨ x.IsTaking ∨ point = .demanding ∨
    x.recorder.batcher.forced = true ∧
      (point = .returned → x.recorder.signals.woken = true ∨ x.WillAsk)

theorem WillAsk.congr (h : x.WillAsk) (hp : y.machine.phase = x.machine.phase)
    (ht : y.machine.tasks = x.machine.tasks) (hturn : y.turn = x.turn) : y.WillAsk := by
  unfold WillAsk
  rwa [hp, sends?_congr hp ht, hturn]

theorem IsTaking.congr (h : x.IsTaking) (hp : y.machine.phase = x.machine.phase)
    (ht : y.machine.tasks = x.machine.tasks) (hturn : y.turn = x.turn) : y.IsTaking := by
  unfold IsTaking
  rwa [sends?_congr hp ht, hturn]

/-- What is sure to be detached stays so until it is. -/
theorem Step.isTaking (hs : Step deliver x y) (hx : x.Sound) (h : x.IsTaking) :
    y.IsTaking ∨ y.recorder.detachedSpans = x.recorder.batchedSpans := by
  obtain ⟨worked, hsend, hturn⟩ := id h
  obtain ⟨hphase, -⟩ := sends?_eq_some.mp hsend
  cases hs with
  | thread hnone => simp [hsend] at hnone
  | @attend other =>
    rcases attend_eq deliver x other with ⟨result, hanswered, -⟩ | heq
    · rw [hanswered] at hturn
      contradiction
    · rw [heq]
      rcases SendPoint.isTaking_advance hturn with htaking | hdetaching
      · exact .inl ⟨worked, hsend, htaking⟩
      · refine .inr ?_
        rw [hdetaching, ← hx.balanced.batchedSpans_eq]
        exact Recorder.detachedSpans_detachBacklog _
  | rise hp | start hp => simp [hp] at hphase
  | world hm ht => exact .inl (h.congr (by rw [hm]) (by rw [hm]) ht)
  | callFlush | flush => exact .inl (h.congr rfl rfl rfl)

/-- A turn that asks for a batch that is demanded is sure to detach what waits. -/
theorem Step.willAsk (hs : Step deliver x y) (hx : x.Sound) (hi : ¬ y.IsIdle)
    (hf : x.recorder.batcher.forced = true) (h : x.WillAsk) : y.WillAsk ∨ y.IsTaking := by
  cases hs with
  | thread hnone hstep =>
    have hphase : x.machine.phase.isBeforePass = true := by simpa [WillAsk, hnone] using h
    refine .inl ?_
    cases hstep with
    | begin =>
      exact .inr ⟨false, sends?_of_phase rfl hi rfl, congrArg SendPoint.willAsk (hx.turn hnone)⟩
    | execute hp | complete hp | rest hp | again hp | rouse hp =>
      simp [hp, Phase.isBeforePass] at hphase
    | _ => exact .inl rfl
  | @attend worked hsend =>
    have hturn : x.turn.willAsk = true := by
      simpa [WillAsk, hsend, (sends?_eq_some.mp hsend).1, Phase.isBeforePass] using h
    rcases attend_eq deliver x worked with ⟨result, hanswered, -⟩ | heq
    · rw [hanswered] at hturn
      contradiction
    · rw [heq]
      exact (SendPoint.willAsk_advance hturn hf).imp (fun h => .inr ⟨worked, hsend, h⟩)
        fun h => ⟨worked, hsend, h⟩
  | rise => exact .inl (.inl rfl)
  | start hp =>
    rw [start_eq hp]
    exact .inl (.inl rfl)
  | world hm ht => exact .inl (h.congr (by rw [hm]) (by rw [hm]) ht)
  | callFlush | flush => exact .inl (h.congr rfl rfl rfl)

/-- What was batched or detached stays so. -/
theorem Step.grows (hs : Step deliver x y) (hd : ∀ spans w, Relay.Honors w (deliver spans w).2)
    (hx : x.Sound) :
    x.recorder.batchedSpans <+: y.recorder.batchedSpans ∧
      x.recorder.detachedSpans <+: y.recorder.detachedSpans := by
  rcases hs.effect hd hx.within with h | rfl | ⟨worked, now, age, -, hturn, rfl⟩
  · exact ⟨h.batched, h.detached⟩
  · exact ⟨List.prefix_rfl, List.prefix_rfl⟩
  · unfold Traffic.attend
    rw [hturn]
    exact ⟨List.prefix_rfl, List.prefix_rfl⟩

theorem Step.forced (hs : Step deliver x y) (hd : ∀ spans w, Relay.Honors w (deliver spans w).2)
    (hx : x.Sound) (hf : x.recorder.batcher.forced = true) :
    x.recorder.batchedSpans <+: y.recorder.detachedSpans ∨ y.IsTaking ∨
      y.recorder.batcher.forced = true := by
  rcases hs.effect hd hx.within with h | rfl | ⟨worked, now, age, hsend, hturn, rfl⟩
  · exact (h.forced hx.balanced hf).symm.imp id .inr
  · exact .inr (.inr hf)
  · refine .inr (.inl ⟨worked, ?_⟩)
    unfold Traffic.attend
    rw [hturn]
    exact ⟨hsend, hf⟩

/-- A wake is cleared only by the end of a wait, after which the next pass begins. -/
theorem Step.woken (hs : Step deliver x y) (hd : ∀ spans w, Relay.Honors w (deliver spans w).2)
    (hx : x.Sound) (hw : x.recorder.signals.woken = true) :
    y.recorder.signals.woken = true ∨ y.WillAsk := by
  rcases hs.effect hd hx.within with h | rfl | ⟨worked, now, age, -, hturn, rfl⟩
  · exact .inl (h.woken hw)
  · exact .inr (.inl rfl)
  · unfold Traffic.attend
    rw [hturn]
    exact .inl hw

/-- A step that leaves the flush where it is keeps up the care for it. -/
theorem Step.cares (hs : Step deliver x y) (hd : ∀ spans w, Relay.Honors w (deliver spans w).2)
    (hx : x.Sound) (hi : ¬ y.IsIdle) (he : early <+: x.recorder.batchedSpans)
    (h : x.Cares early point) : y.Cares early point := by
  rcases h with htaken | htaking | hpoint | ⟨hforced, hasks⟩
  · exact .inl (htaken.trans (hs.grows hd hx).2)
  · rcases hs.isTaking hx htaking with h | h
    · exact .inr (.inl h)
    · exact .inl (h ▸ he)
  · exact .inr (.inr (.inl hpoint))
  · rcases hs.forced hd hx hforced with h | h | hdemanded
    · exact .inl (he.trans h)
    · exact .inr (.inl h)
    by_cases hpoint : point = .returned
    · have hnext : y.recorder.signals.woken = true ∨ y.WillAsk ∨ y.IsTaking := by
        rcases hasks hpoint with hw | hw
        · exact (hs.woken hd hx hw).imp_right .inl
        · exact .inr (hs.willAsk hx hi hforced hw)
      rcases hnext with h | h | h
      · exact .inr (.inr (.inr ⟨hdemanded, fun _ => .inl h⟩))
      · exact .inr (.inr (.inr ⟨hdemanded, fun _ => .inr h⟩))
      · exact .inr (.inl h)
    · exact .inr (.inr (.inr ⟨hdemanded, fun h => absurd h hpoint⟩))

/-- A step of the flush itself does so too. -/
theorem Cares.hasten (h : x.Cares early point) (flushes : List FlushPoint) :
    Cares { x.withWorld (point.advance x.world).2 with flushes } early
      (point.advance x.world).1 := by
  rcases h with htaken | htaking | hpoint | ⟨hforced, hasks⟩
  · exact .inl (htaken.trans (honors_hasten _ _).detached)
  · exact .inr (.inl (htaking.congr rfl rfl rfl))
  · subst hpoint
    exact .inr (.inr (.inr ⟨rfl, fun h => by contradiction⟩))
  · refine .inr (.inr (.inr ?_))
    cases point with
    | demanding => exact ⟨rfl, fun h => by contradiction⟩
    | looking =>
      refine ⟨hforced, fun h => ?_⟩
      unfold FlushPoint.advance at h
      dsimp only at h
      split at h <;> contradiction
    | rousing => exact ⟨hforced, fun h => by contradiction⟩
    | waking => exact ⟨hforced, fun _ => .inl rfl⟩
    | returned => exact ⟨hforced, fun _ => (hasks rfl).imp_right (·.congr rfl rfl rfl)⟩

theorem Step.exists_cares (hs : Step deliver x y)
    (hd : ∀ spans w, Relay.Honors w (deliver spans w).2) (hx : x.Sound) (hi : ¬ y.IsIdle)
    (he : early <+: x.recorder.batchedSpans) {i : Nat} (hp : x.flushes[i]? = some point)
    (h : x.Cares early point) : ∃ next, y.flushes[i]? = some next ∧ y.Cares early next := by
  have hcares := hs.cares hd hx hi he h
  cases hs with
  | @attend worked =>
    refine ⟨point, ?_, hcares⟩
    rcases attend_eq deliver x worked with ⟨result, -, heq⟩ | heq <;> rw [heq] <;> exact hp
  | world hm ht hf => exact ⟨point, hf ▸ hp, hcares⟩
  | callFlush =>
    refine ⟨point, ?_, hcares⟩
    rw [List.getElem?_append_left (List.getElem?_eq_some_iff.mp hp).1]
    exact hp
  | @flush call moved hc =>
    by_cases hcall : call = i
    · subst hcall
      obtain rfl := Option.some.inj (hc.symm.trans hp)
      refine ⟨_, List.getElem?_set_self (List.getElem?_eq_some_iff.mp hp).1, h.hasten _⟩
    · refine ⟨point, ?_, hcares⟩
      rw [List.getElem?_set_ne hcall]
      exact hp
  | thread | rise | start => exact ⟨point, hp, hcares⟩

/-! ## Runs -/

theorem isIdle_of_run? {moves : List TrafficMove} (h : x.run? deliver moves = some y)
    (hi : x.IsIdle) : y.IsIdle := by
  induction moves generalizing x with
  | nil =>
    obtain rfl := Option.some.inj h
    exact hi
  | cons move rest ih =>
    obtain ⟨z, hz, hrest⟩ := Option.bind_eq_some_iff.mp h
    exact ih hrest ((step_of_move? hz).isIdle hi)

/-- What each step keeps is kept by every run in which the startup made its tasks. -/
theorem run?_keeps {P : Traffic → Prop}
    (hstep : ∀ {x y}, P x → Step deliver x y → ¬ y.IsIdle → P y) {moves : List TrafficMove}
    (h : x.run? deliver moves = some y) (hi : ¬ y.IsIdle) (hx : P x) : P y := by
  induction moves generalizing x with
  | nil =>
    obtain rfl := Option.some.inj h
    exact hx
  | cons move rest ih =>
    obtain ⟨z, hz, hrest⟩ := Option.bind_eq_some_iff.mp h
    have hz := step_of_move? hz
    exact ih hrest (hstep hx hz fun hidle => hi (isIdle_of_run? hrest hidle))

theorem sound_create {startup : Relay → Option (List (Task Relay)) × Relay} {w : Relay}
    (hw : Balanced ⟨w.recorder, []⟩) (hd : ∀ spans w, Asides w (deliver spans w).2)
    (hstartup : StartsWithin Asides startup) : (create deliver startup w).Sound where
  balanced := hw
  within := by
    refine Machine.within_create (StartsWithin.mono ?_ Asides.honors)
    refine ⟨hstartup.world, fun w tasks htasks t ht => ?_⟩
    obtain ⟨others, hothers, rfl⟩ := Option.map_eq_some_iff.mp htasks
    rcases List.mem_cons.mp ht with rfl | ht
    · exact within_courierTask hd
    · exact hstartup.tasks w others hothers t ht
  turn _ := rfl

end Traffic

open Traffic

/-- However producers, flushes and steps of the worker come between one another: whenever the worker
rests and no wake is pending, each span that was batched before a flush demanded a batch, if that
flush has returned, was detached exactly once and does not wait any more. -/
theorem flushed_run? {config : RelayConfig} {clock : Clock} {files : FileTree}
    {rank : String → Nat} {remote : Remote} {connected : Bool} {deliver : Courier}
    {startup : Relay → Option (List (Task Relay)) × Relay} {before after : List TrafficMove}
    {a b : Traffic} {i : Nat}
    (hdeliver : ∀ spans y, Asides y (deliver spans y).2)
    (hstartup : StartsWithin Asides startup)
    (ha : (create deliver startup ((ofConfig config clock files rank remote
      connected).installPlugins config.serviceName)).run? deliver before = some a)
    (hcalled : a.flushes[i]? = some .demanding)
    (hb : a.run? deliver after = some b) (hreturned : b.flushes[i]? = some .returned)
    (htasks : b.machine.tasks ≠ []) (hresting : b.machine.phase = .resting)
    (hwoken : b.recorder.signals.woken = false) :
    ∀ ref ∈ a.recorder.batchedSpans,
      b.recorder.detachedSpans.count ref = 1 ∧ ref ∉ b.recorder.waiting := by
  have hd : ∀ spans w, Honors w (deliver spans w).2 := fun spans w => (hdeliver spans w).honors
  have hidle : ¬ b.IsIdle := fun h => htasks h.2
  have hsound : a.Sound :=
    run?_keeps (fun h hs hi => hs.sound hd hi h) ha (fun h => hidle (isIdle_of_run? hb h))
      (sound_create (balanced_ofConfig ..) hdeliver hstartup)
  have hkept : b.Sound ∧ a.recorder.batchedSpans <+: b.recorder.batchedSpans ∧
      ∃ point, b.flushes[i]? = some point ∧ b.Cares a.recorder.batchedSpans point := by
    refine run?_keeps (P := fun x => x.Sound ∧ a.recorder.batchedSpans <+: x.recorder.batchedSpans ∧
      ∃ point, x.flushes[i]? = some point ∧ x.Cares a.recorder.batchedSpans point)
      ?_ hb hidle ⟨hsound, List.prefix_rfl, _, hcalled, .inr (.inr (.inl rfl))⟩
    rintro x y ⟨hx, he, point, hp, hcares⟩ hs hi
    exact ⟨hs.sound hd hi hx, he.trans (hs.grows hd hx).1, hs.exists_cares hd hx hi he hp hcares⟩
  obtain ⟨hb, -, point, hp, hcares⟩ := hkept
  obtain rfl := Option.some.inj (hreturned.symm.trans hp)
  have hsend : b.sends? = none := sends?_eq_none fun worked => by rw [hresting]; nofun
  have hdetached : a.recorder.batchedSpans <+: b.recorder.detachedSpans := by
    rcases hcares with h | ⟨worked, h, -⟩ | h | ⟨-, h⟩
    · exact h
    · rw [hsend] at h
      contradiction
    · contradiction
    · rcases h rfl with h | h | ⟨worked, h, -⟩
      · rw [hwoken] at h
        contradiction
      · rw [hresting] at h
        contradiction
      · rw [hsend] at h
        contradiction
  have hnodup : (b.recorder.detachedSpans ++ b.recorder.waiting).Nodup := by
    rw [hb.balanced.batchedSpans_eq]
    exact hb.balanced.nodup
  intro ref href
  obtain ⟨honce, -, hdisjoint⟩ := List.nodup_append.mp hnodup
  have hmem := hdetached.subset href
  exact ⟨List.count_eq_one_of_mem honce hmem, fun hw => hdisjoint ref hmem ref hw rfl⟩

/-- A flush comes while the worker has just asked in vain whether a batch is demanded. The worker
goes to rest before it is woken, and detaches the span in its next pass. -/
theorem flushed_run?_in_turn :
    let config := { RelayConfig.standard "key" with probability := some .one }
    let remote : Remote := ⟨⟨"key", true, .standard⟩, [], none, false⟩
    let y := (ofConfig config default .empty (fun _ => 0) remote true).installPlugins
      config.serviceName
    let steps := fun n => List.replicate n (TrafficMove.crew .worker)
    let before :=
      [.crew .start, .record (.create 0 (.ofNumbers 1 1) (.named "early"))] ++ steps 8 ++
        [.record (.finish 0 0 5), .callFlush]
    let after := [.flush 0] ++ steps 5 ++ [.flush 0, .flush 0, .flush 0] ++ steps 23
    ∃ a b : Traffic,
      (create (routeCourier .retrying) (otherStartup config 1) y).run? (routeCourier .retrying)
        before = some a ∧
      a.turn = .weighing 0 0 false ∧ a.recorder.batchedSpans = [0] ∧
      a.run? (routeCourier .retrying) after = some b ∧ b.machine.phase = .resting ∧
      b.recorder.detachedSpans.count 0 = 1 ∧ 0 ∉ b.recorder.waiting := by
  intro config remote y steps before after
  let deliver := routeCourier .retrying
  let x := create deliver (otherStartup config 1) y
  have hfirst : (x.run? deliver before).map (fun a =>
      (a.turn, a.recorder.batchedSpans, a.flushes)) =
      some (.weighing 0 0 false, [0], [.demanding]) := by
    decide +kernel
  have hlast : ((x.run? deliver before).bind (·.run? deliver after)).map (fun b =>
      (b.machine.phase, b.flushes, b.recorder.signals.woken, b.machine.tasks.isEmpty)) =
      some (.resting, [.returned], false, false) := by
    decide +kernel
  obtain ⟨a, ha, hfirst⟩ := Option.map_eq_some_iff.mp hfirst
  obtain ⟨hturn, hfirst⟩ := Prod.mk.inj hfirst
  obtain ⟨hbatched, hcalled⟩ := Prod.mk.inj hfirst
  rw [ha, Option.bind_some] at hlast
  obtain ⟨b, hb, hlast⟩ := Option.map_eq_some_iff.mp hlast
  obtain ⟨hphase, hlast⟩ := Prod.mk.inj hlast
  obtain ⟨hreturned, hlast⟩ := Prod.mk.inj hlast
  obtain ⟨hwoken, htasks⟩ := Prod.mk.inj hlast
  refine ⟨a, b, ha, hturn, hbatched, hb, hphase, ?_⟩
  refine flushed_run? (i := 0) (fun spans y => asides_deliverSpans y .retrying spans y.resource)
    (startsWithin_otherStartup config 1) ha ?_ hb ?_ ?_ hphase hwoken 0 ?_
  · rw [hcalled]
    rfl
  · rw [hreturned]
    rfl
  · intro hnone
    rw [hnone] at htasks
    contradiction
  · rw [hbatched]
    exact List.mem_singleton_self 0

end Relay
end SpanRelay
