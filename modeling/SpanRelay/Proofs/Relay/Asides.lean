import SpanRelay.Proofs.Recorder.Demand
import SpanRelay.Proofs.Relay.Works
import SpanRelay.Proofs.Worker.Turns

/-!
What may happen to a relay beside the turns of its send task: operations on the recorder, notes in
the log, calls on the worker, and anything to all but the recorder. A demand for a batch can rely on
all of this; and no more than this is done by a delivery along a route, by the other tasks and by
the startup.
-/
namespace SpanRelay.Relay

open Recorder (honors_move heeds_emit level_emit)

/-- One thing that happens beside the turns of the send task. -/
inductive Aside (y : Relay) : Relay → Prop where
  | move (m : Recorder.Move) : Aside y { y with recorder := y.recorder.move m }
  | note {e : Event} (hb : e.batched? = none) (hd : e.detachedSpans = []) : Aside y (y.emit e)
  | call (c : HandleCall) : Aside y (Signalled.modify y c.apply)
  | bind : Aside y y.bindWorker
  | rest {z : Relay} (h : z.recorder = y.recorder) : Aside y z

abbrev Asides : Relay → Relay → Prop := Relation.ReflTransGen Aside

/-- The change is one on which a demand for a batch can rely. -/
def Honors (y z : Relay) : Prop := y.recorder.Honors z.recorder

variable {y z : Relay}

theorem Aside.honors (h : y.Aside z) : y.Honors z := by
  cases h with
  | move m => exact honors_move _ m
  | note hb hd => exact (level_emit hb hd _).honors (heeds_emit _ _) rfl
  | call c =>
    refine Recorder.Level.honors ⟨rfl, rfl, rfl, rfl, rfl, rfl, rfl, rfl⟩ ?_ rfl
    refine ⟨List.suffix_rfl, id, fun hw => ?_⟩
    cases c <;> rfl
  | bind =>
    refine Recorder.Level.honors ⟨rfl, rfl, rfl, rfl, rfl, rfl, rfl, rfl⟩ ?_ rfl
    exact ⟨List.suffix_rfl, id, id⟩
  | rest h =>
    unfold Honors
    rw [h]
    exact .refl _

theorem Asides.honors (h : Asides y z) : y.Honors z := by
  induction h with
  | refl => exact .refl _
  | tail _ hone ih => exact ih.trans hone.honors

/-! ## Deliveries -/

theorem asides_attemptSpans (y : Relay) (spans : List SpanRef) (resource : Attributes) :
    Asides y (y.attemptSpans spans resource).2 := by
  obtain ⟨reply, replies, htake, -⟩ := exists_takeReply y
  unfold attemptSpans
  simp only [htake]
  have htaken : Asides y { y with remote := { y.remote with replies } } := .single (.rest rfl)
  exact htaken.tail (.note rfl rfl)

theorem asides_keepForRetry (y : Relay) (result : DeliveryResult) :
    Asides y (y.keepForRetry result) := by
  obtain ⟨files, queued, hkeep⟩ := exists_keepForRetry y result
  rw [hkeep]
  exact .single (.rest rfl)

theorem asides_deliverSpans (y : Relay) (route : Route) (spans : List SpanRef)
    (resource : Attributes) : Asides y (y.deliverSpans route spans resource).2 := by
  cases route with
  | nowhere => exact .refl
  | direct => exact asides_attemptSpans y spans resource
  | retrying =>
    unfold deliverSpans
    dsimp only
    split
    · exact .refl
    · exact (asides_attemptSpans y spans resource).trans (asides_keepForRetry _ _)

/-! ## Tasks -/

theorem courierTask_routeCourier (route : Route) :
    courierTask (routeCourier route) = sendTask route := by
  unfold courierTask sendTask sendBatch routeCourier
  congr 1
  funext y
  dsimp only
  rcases y.record Recorder.collectNextBatch with ⟨spans, z⟩
  cases spans with
  | none => rfl
  | some spans =>
    dsimp only
    split <;> rfl

theorem within_courierTask {deliver : Courier} (h : ∀ spans y, Asides y (deliver spans y).2) :
    (courierTask deliver).Within Asides where
  attach y := .single .bind
  execute y := by
    have hcollect : Asides y (y.record Recorder.collectNextBatch).2 := .single (.move .collect)
    unfold courierTask
    dsimp only
    split
    next z hz => exact congrArg Prod.snd hz ▸ hcollect
    next spans z hz =>
      rw [hz] at hcollect
      split
      · exact hcollect
      · exact hcollect.trans (h spans z)
  detach y := .refl

theorem within_replayTask : replayTask.Within Asides where
  attach y := .refl
  execute y := by
    change Asides y (y.work .replay)
    by_cases hc : y.connected = true
    · rcases hn : y.queue.next y.files y.recorder.clock.wall with ⟨newest, files⟩
      cases newest with
      | none =>
        rw [work_replay_of_none hc hn]
        exact .single (.rest rfl)
      | some p =>
        obtain ⟨reply, replies, -, -, heq⟩ := work_replay_of_some hc hn
        have hnote : Asides y (y.emit (.payloadSent p reply)) := .single (.note rfl rfl)
        rw [heq]
        refine hnote.tail (.rest ?_)
        dsimp only
        split <;> rfl
    · rw [work_replay_of_not_connected (Bool.not_eq_true _ ▸ hc)]
  detach y := .refl

/-! ### Keeping the probability -/

theorem asides_restoreProbability (y : Relay) : Asides y y.restoreProbability := by
  unfold restoreProbability
  split
  · exact .single (.move (.setSampler _))
  · exact .refl

theorem asides_updateProbability (y : Relay) (p : Binary64) : Asides y (y.updateProbability p) := by
  unfold updateProbability
  split
  · exact .refl
  · split
    · exact .refl
    next s hs =>
      have hset : Asides y { y with recorder := y.recorder.move (.setSampler (.probability s)) } :=
        .single (.move _)
      refine hset.tail (.rest ?_)
      unfold storeState
      split <;> rfl

theorem asides_refreshIfExpired (y : Relay) : Asides y y.refreshIfExpired := by
  have hask : Asides y (y.emit .probabilityAsked) := .single (.note rfl rfl)
  unfold refreshIfExpired
  split
  · exact .refl
  · split
    · exact .refl
    · unfold fetchProbability
      dsimp only
      split
      · split
        · exact hask.trans (asides_updateProbability _ _)
        · exact hask
      · exact hask

theorem within_samplerTask : samplerTask.Within Asides where
  attach y := by
    have hlisten : Asides y y.listen := .single (.rest rfl)
    exact (hlisten.trans (asides_restoreProbability _)).trans (asides_refreshIfExpired _)
  execute y := asides_refreshIfExpired y
  detach y := .refl

/-! ## The startup -/

theorem asides_startPlugins (y : Relay) : Asides y y.startPlugins := by
  suffices h : ∀ (installed : List Plugin) (z : Relay), Asides z { z with
      recorder := (PluginHost.startEach PluginHost.startOne installed z.recorder).2 } from
    h y.plugins.installed y
  intro installed
  induction installed with
  | nil => exact fun z => .refl
  | cons p installed ih =>
    intro z
    have hone : Asides z
        { z with recorder := PluginHost.observe z.recorder p .pluginStarted } := by
      unfold PluginHost.observe
      split
      · exact .single (.note rfl rfl)
      · exact .refl
    exact hone.trans (ih _)

theorem asides_loadDeviceId (y : Relay) (lockFree : Bool) (fresh : BitVec 128) :
    Asides y (y.loadDeviceId lockFree fresh).2 := by
  unfold loadDeviceId
  split
  · exact .single (.rest rfl)
  next attempts files _ =>
    have hfiles : Asides y { y with files } := .single (.rest rfl)
    exact hfiles.tail (.move (.setClock _))
  · exact .single (.rest rfl)

theorem startsWithin_startup (config : RelayConfig) (fresh : BitVec 128) :
    StartsWithin Asides (startup config fresh) where
  world y := by
    have hnamed := (asides_startPlugins y).trans (asides_loadDeviceId _ true fresh)
    exact hnamed.tail (.rest rfl)
  tasks y tasks htasks t ht := by
    obtain rfl := Option.some.inj htasks
    rcases List.mem_append.mp ht with ht | ht
    · rcases List.mem_cons.mp ht with rfl | ht
      · rw [← courierTask_routeCourier]
        exact within_courierTask fun spans y => asides_deliverSpans y .retrying spans y.resource
      · obtain rfl := List.mem_singleton.mp ht
        exact within_replayTask
    · split at ht
      · obtain rfl := List.mem_singleton.mp ht
        exact within_samplerTask
      · contradiction

/-! ## Before the worker starts -/

theorem honors_observe (r : Recorder) (p : Plugin) (event : String → Event)
    (he : ∀ label, (event label).batched? = none ∧ (event label).detachedSpans = []) :
    r.Honors (PluginHost.observe r p event) := by
  unfold PluginHost.observe
  split
  next label _ => exact (level_emit (he label).1 (he label).2 r).honors (heeds_emit r _) rfl
  · exact .refl r

theorem honors_installOne (h : PluginHost) (r : Recorder) (t : PluginHost.Turn) :
    r.Honors (h.installOne r t).2.2 := by
  have hobserved := honors_observe r t.plugin (fun label => .pluginInstalled label t.service)
    fun _ => ⟨rfl, rfl⟩
  unfold PluginHost.installOne
  split
  · exact .refl r
  · dsimp only
    split
    · exact hobserved
    · refine hobserved.trans (Recorder.Level.honors ?_ (.of_same rfl rfl rfl) rfl)
      exact ⟨rfl, rfl, rfl, rfl, rfl, rfl, rfl, rfl⟩

theorem honors_installPlugins (y : Relay) (service : String) :
    y.Honors (y.installPlugins service) := by
  suffices hall : ∀ (turns : List PluginHost.Turn) (h : PluginHost) (r : Recorder),
      r.Honors (h.installEach r turns).2.2 from hall _ y.plugins y.recorder
  intro turns
  induction turns with
  | nil => exact fun h r => .refl r
  | cons t turns ih => exact fun h r => (honors_installOne h r t).trans (ih _ _)

/-- The relay of a configuration has no spans, and no batch is under way. -/
theorem balanced_ofConfig (config : RelayConfig) (clock : Clock) (files : FileTree)
    (rank : String → Nat) (remote : Remote) (connected : Bool) :
    Balanced ⟨((ofConfig config clock files rank remote connected).installPlugins
      config.serviceName).recorder, []⟩ := by
  refine (honors_installPlugins _ _).balanced ?_
  let recorder := Recorder.start clock config.limits true .batch config.sampler config.trigger
    config.batchTimeout
  let y := Relay.start recorder files rank config.maxPayloadAge remote connected .empty
    config.plugins
  have hy : Balanced ⟨y.recorder, []⟩ := balanced_start ..
  change Balanced ⟨(if config.isAdaptive then y.attachState else y).recorder, []⟩
  split
  · have hstate : Asides y { y with state := some (.load y.files stateAddress) } :=
      .single (.rest rfl)
    have hrestored := hstate.trans (asides_restoreProbability _)
    exact (Asides.honors hrestored).balanced hy
  · exact hy

end SpanRelay.Relay
