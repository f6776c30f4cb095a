import SpanRelay.Plugin
import SpanRelay.Proofs.Registry

/-!
Plugins that were installed, told by what they did when they had their turns. A plugin is called in
each of its turns until it does not fail, and what it registers in that turn is all that is ever
added for it.
-/
universe u

namespace SpanRelay.PluginHost

/-! ## Attempts -/

/-- The turn is one of the plugin's and does not fail. -/
def Turn.settles (t : Turn) (p : Plugin) : Bool :=
  !t.does.fails && t.plugin.identity = p.identity

/-- The turns in which the plugin is called: all of its turns up to the first that does not fail. -/
def attempts : List Turn → List Turn
  | [] => []
  | t :: turns => t :: (attempts turns).filter fun later => !t.settles later.plugin

/-- The attempts that do not fail. -/
def successes (turns : List Turn) : List Turn := (attempts turns).filter fun t => !t.does.fails

theorem attempts_concat (turns : List Turn) (t : Turn) :
    attempts (turns ++ [t]) =
      if turns.any (·.settles t.plugin) then attempts turns else attempts turns ++ [t] := by
  induction turns with
  | nil => rfl
  | cons first turns ih =>
    rw [List.cons_append, attempts, attempts, ih, List.any_cons]
    cases hlater : turns.any (·.settles t.plugin) with
    | true => simp
    | false => cases hfirst : first.settles t.plugin <;> simp [List.filter_append, hfirst]

/-- A plugin that has been installed is not called again. -/
theorem pairwise_attempts (turns : List Turn) :
    (attempts turns).Pairwise fun t later => t.settles later.plugin = false := by
  induction turns with
  | nil => exact .nil
  | cons first turns ih =>
    refine (ih.sublist List.filter_sublist).cons fun later hlater => ?_
    simpa using (List.mem_filter.mp hlater).2

theorem successes_concat (turns : List Turn) (t : Turn) :
    successes (turns ++ [t]) =
      if turns.any (·.settles t.plugin) || t.does.fails then successes turns
      else successes turns ++ [t] := by
  unfold successes
  rw [attempts_concat]
  cases turns.any (·.settles t.plugin) with
  | true => rfl
  | false => cases hfails : t.does.fails <;> simp [hfails, List.filter_append]

theorem nodup_successes (turns : List Turn) :
    ((successes turns).map fun t => t.plugin.identity).Nodup := by
  refine List.pairwise_map.mpr (List.pairwise_filter.mpr ?_)
  refine (pairwise_attempts turns).imp fun {t later} hnot hsucceeds _ => ?_
  simpa [Turn.settles, hsucceeds] using hnot

/-- A plugin has been installed if one of its turns did not fail. -/
theorem any_successes (turns : List Turn) (p : Plugin) :
    ((successes turns).any fun t => t.plugin.identity = p.identity) =
      turns.any (·.settles p) := by
  induction turns using List.reverseRecOn with
  | nil => rfl
  | append_singleton turns t ih =>
    rw [successes_concat, List.any_append, ← ih]
    split
    next hkept =>
      have hbefore : t.settles p = true → turns.any (·.settles p) = true := by
        intro ht
        obtain ⟨hsucceeds, hsame⟩ : t.does.fails = false ∧ t.plugin.identity = p.identity := by
          simpa [Turn.settles] using ht
        simpa [Turn.settles, hsame, hsucceeds] using hkept
      cases ht : t.settles p with
      | false => simp [ht]
      | true => simp [ih, hbefore ht]
    next hnew =>
      have hsucceeds : t.does.fails = false := by
        rw [← Bool.not_eq_true]
        exact fun hfails => hnew (by simp [hfails])
      simp [Turn.settles, hsucceeds]

/-! ## What the turns leave -/

/-- The event by which the call of a plugin is observed. -/
def Turn.event? (t : Turn) : Option Event :=
  t.plugin.label.map fun label => .pluginInstalled label t.service

def addEach (g : Registry) (items : List Registration) : Registry :=
  items.foldl (fun g item => (g.add item).2) g

/-- The host of a table whose plugins had these turns. -/
def hostAfter (table : List Plugin) (turns : List Turn) : PluginHost :=
  ⟨table, (successes turns).map Turn.plugin⟩

/-- What the turns make of a recorder. Its registries get what the successes registered, and it
tells of all attempts. -/
def recorderAfter (r : Recorder) (turns : List Turn) : Recorder :=
  { r with
    onStart := addEach r.onStart ((successes turns).flatMap fun t => t.does.starts)
    onEnd := addEach r.onEnd ((successes turns).flatMap fun t => t.does.ends)
    log := ((attempts turns).filterMap Turn.event?).reverse ++ r.log }

theorem addEach_append (g : Registry) (items more : List Registration) :
    addEach g (items ++ more) = ((addEach g items).addAll more).2 := by
  unfold addEach
  rw [List.foldl_append, Registry.snd_addAll]

theorem has_hostAfter (table : List Plugin) (turns : List Turn) (p : Plugin) :
    (hostAfter table turns).has p = turns.any (·.settles p) := by
  unfold hostAfter has
  rw [List.any_map, ← any_successes]
  rfl

theorem observe_eq (r : Recorder) (t : Turn) :
    (observe r t.plugin fun label => .pluginInstalled label t.service) =
      { r with log := t.event?.toList ++ r.log } := by
  unfold observe Turn.event?
  cases t.plugin.label <;> rfl

/-- One more turn is passed over, fails, or installs the plugin. -/
theorem snd_installOne (table : List Plugin) (turns : List Turn) (r : Recorder) (t : Turn) :
    (installOne (hostAfter table turns) (recorderAfter r turns) t).2 =
      (hostAfter table (turns ++ [t]), recorderAfter r (turns ++ [t])) := by
  have hevent : ([t].filterMap Turn.event?).reverse = t.event?.toList := by
    rw [List.filterMap_cons]
    cases t.event? <;> rfl
  unfold installOne
  rw [has_hostAfter, observe_eq]
  unfold hostAfter recorderAfter
  rw [successes_concat, attempts_concat]
  cases turns.any (·.settles t.plugin) with
  | true => rfl
  | false =>
    cases hfails : t.does.fails with
    | true => simp [hevent]
    | false => simp [hevent, addEach_append]

theorem snd_installEach (table : List Plugin) (past : List Turn) (r : Recorder)
    (turns : List Turn) :
    (installEach (hostAfter table past) (recorderAfter r past) turns).2 =
      (hostAfter table (past ++ turns), recorderAfter r (past ++ turns)) := by
  induction turns generalizing past with
  | nil => rw [List.append_nil, installEach]
  | cons t turns ih =>
    rw [installEach, snd_installOne, ih, List.append_assoc, List.singleton_append]

/-! ## Answers -/

/-- The answer to a turn that comes behind others. -/
structure Answer.Fits (a : Answer) (past : List Turn) (t : Turn) : Prop where
  passedOver_iff : a = .passedOver ↔ past.any (·.settles t.plugin) = true
  failed_iff : a = .failed ↔ past.any (·.settles t.plugin) = false ∧ t.does.fails = true

theorem fits_installOne (table : List Plugin) (past : List Turn) (r : Recorder) (t : Turn) :
    (installOne (hostAfter table past) r t).1.Fits past t := by
  unfold installOne
  rw [has_hostAfter]
  cases hbefore : past.any (·.settles t.plugin) with
  | true => exact ⟨by simp [hbefore], by simp [hbefore]⟩
  | false =>
    cases hfails : t.does.fails with
    | true => exact ⟨by simp [hbefore], by simp [hbefore, hfails]⟩
    | false => exact ⟨by simp [hbefore], by simp [hfails]⟩

theorem fits_installEach (table : List Plugin) (past : List Turn) (r : Recorder)
    (turns : List Turn) (i : Nat) (t : Turn) (ht : turns[i]? = some t) :
    ∃ a, (installEach (hostAfter table past) (recorderAfter r past) turns).1[i]? = some a ∧
      a.Fits (past ++ turns.take i) t := by
  induction turns generalizing past i with
  | nil => simp at ht
  | cons first turns ih =>
    rw [installEach, snd_installOne]
    cases i with
    | zero =>
      obtain rfl : first = t := by simpa using ht
      exact ⟨_, rfl, by simpa using fits_installOne table past _ first⟩
    | succ i =>
      obtain ⟨a, ha, hfits⟩ := ih (past ++ [first]) i (by simpa using ht)
      exact ⟨a, by simpa using ha, by simpa using hfits⟩

theorem length_installEach (h : PluginHost) (r : Recorder) (turns : List Turn) :
    (h.installEach r turns).1.length = turns.length := by
  induction turns generalizing h r with
  | nil => rfl
  | cons t turns ih => rw [installEach, List.length_cons, ih, List.length_cons]

/-! ## Starts -/

/-- Every plugin is started in its place, whatever comes of the others. -/
theorem startEach_eq {σ : Type u} (start : Plugin → σ → Bool × σ) (plugins : List Plugin) (s : σ) :
    (startEach start plugins s).1.map Prod.fst = plugins ∧
      (startEach start plugins s).2 = plugins.foldl (fun s p => (start p s).2) s := by
  induction plugins generalizing s with
  | nil => exact ⟨rfl, rfl⟩
  | cons p plugins ih =>
    obtain ⟨hnames, hstate⟩ := ih (start p s).2
    exact ⟨congrArg (p :: ·) hnames, hstate⟩

/-! ## Plugins in use -/

def turnsOf (table : List Plugin) (calls : List InstallCall) : List Turn :=
  calls.flatMap fun c => (ofTable table).turns c.service c.does

theorem installEach_append (h : PluginHost) (r : Recorder) (turns more : List Turn) :
    h.installEach r (turns ++ more) =
      let one := h.installEach r turns
      let rest := one.2.1.installEach one.2.2 more
      (one.1 ++ rest.1, rest.2) := by
  induction turns generalizing h r with
  | nil => rfl
  | cons t turns ih =>
    rw [List.cons_append, installEach, ih]
    rfl

/-- Calls in a row are the turns of all of them in a row. -/
theorem installAll_eq (table : List Plugin) (past : List Turn) (r : Recorder)
    (calls : List InstallCall) :
    installAll (hostAfter table past) (recorderAfter r past) calls =
      installEach (hostAfter table past) (recorderAfter r past) (turnsOf table calls) := by
  induction calls generalizing past with
  | nil => rfl
  | cons c calls ih =>
    have hturns : turnsOf table (c :: calls) =
        (hostAfter table past).turns c.service c.does ++ turnsOf table calls := List.flatMap_cons ..
    rw [hturns, installEach_append, installAll]
    unfold installBy
    dsimp only
    rw [snd_installEach, ih]

/-- Whatever a table lists and whatever its plugins do in any calls of install: those that are
installed are the plugins of the attempts that did not fail, each of them once and in that order.
The registries get the callbacks of these attempts, one by one, and of the recorder nothing else
changes but that it tells of all attempts. A plugin that has been installed is passed over from then
on, and no other turn is. The installed plugins, and no others, are each started once and in their
order, whatever comes of any start. -/
theorem installed_installAll (table : List Plugin) (r : Recorder) (calls : List InstallCall) :
    let turns := turnsOf table calls
    let run := (ofTable table).installAll r calls
    let host := run.2.1
    let kept := successes turns
    host.installed = kept.map Turn.plugin ∧
      (host.installed.map Plugin.identity).Nodup ∧
      run.2.2 = { r with
        onStart := addEach r.onStart (kept.flatMap fun t => t.does.starts)
        onEnd := addEach r.onEnd (kept.flatMap fun t => t.does.ends)
        log := ((attempts turns).filterMap Turn.event?).reverse ++ r.log } ∧
      ((attempts turns).Pairwise fun t later => t.settles later.plugin = false) ∧
      run.1.length = turns.length ∧
      (∀ (i : Nat) t, turns[i]? = some t →
        ∃ a, run.1[i]? = some a ∧ a.Fits (turns.take i) t) ∧
      ∀ {σ : Type u} (start : Plugin → σ → Bool × σ) (s : σ),
        (host.startBy start s).1.map Prod.fst = host.installed ∧
          (host.startBy start s).2 = host.installed.foldl (fun s p => (start p s).2) s := by
  intro turns run host kept
  have hrun : run = installEach (hostAfter table []) (recorderAfter r []) turns :=
    installAll_eq table [] r calls
  have hleft : run.2 = (hostAfter table turns, recorderAfter r turns) := by
    rw [hrun, snd_installEach, List.nil_append]
  have hinstalled : host.installed = kept.map Turn.plugin :=
    congrArg (fun e => e.1.installed) hleft
  refine ⟨hinstalled, ?_, congrArg Prod.snd hleft, pairwise_attempts turns, ?_, fun i t ht => ?_,
    fun start s => startEach_eq start _ s⟩
  · rw [hinstalled, List.map_map]
    exact nodup_successes turns
  · rw [hrun, length_installEach]
  · rw [hrun]
    simpa using fits_installEach table [] r turns i t ht

end SpanRelay.PluginHost
