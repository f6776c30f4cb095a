import SpanRelay.Platform.Standard
import SpanRelay.Proofs.Storage.StateFile
import SpanRelay.Relay.Works

/-!
How long a probability told by the remote end is in force. It stands in the sampler, in the values
of the state file and in the file itself, and no run lets these three come apart: so a sampler that
starts anew takes up the probability where the last one has left it.
-/
namespace SpanRelay

/-! ## Samplers -/

namespace ProbabilitySampler

variable {s : ProbabilitySampler} {p : Binary64}

theorem clampProbability_eq_self (h : p.inUnitInterval = true) : clampProbability p = p := by
  simp only [Binary64.inUnitInterval, Binary64.le, Bool.and_eq_true, Bool.not_eq_true',
    decide_eq_true_eq] at h
  obtain ⟨⟨⟨-, hnan⟩, hlow⟩, ⟨-, -⟩, hhigh⟩ := h
  have hzero : p.lt .zero = false := by
    simp [Binary64.lt, Int.not_lt.mpr hlow]
  have hone : Binary64.one.lt p = false := by
    simp [Binary64.lt, Int.not_lt.mpr hhigh]
  simp [clampProbability, hnan, hzero, hone]

theorem restore_restore (s : ProbabilitySampler) (p q : Binary64) (e f : Int64) :
    (s.restore p e).restore q f = s.restore q f := rfl

theorem update?_of_isFixed (h : s.isFixed = true) (p : Binary64) (now : Int64) :
    s.update? p now = none := by
  simp [update?, h]

theorem probability_of_isFixed (h : s.isFixed = true) (now : Int64) :
    s.probability now = s.fallback := by
  simp [probability, h]

theorem update?_of_not_inUnitInterval (h : p.inUnitInterval = false) (now : Int64) :
    s.update? p now = none := by
  simp [update?, h]

/-- An adaptive sampler that takes a probability is as if it had restored it. -/
theorem update?_of_inUnitInterval (hs : s.isFixed = false) (h : p.inUnitInterval = true)
    (now : Int64) : s.update? p now = some (s.restore p (expiryAfter now s.expireAfter)) := by
  simp [update?, hs, h, restore, clampProbability_eq_self h]

theorem probability_restore (hs : s.isFixed = false) (h : p.inUnitInterval = true)
    (expiry now : Int64) :
    (s.restore p expiry).probability now = if now ≤ expiry then p else s.fallback := by
  by_cases hnow : now ≤ expiry <;>
    simp [probability, isValid, restore, hs, hnow, clampProbability_eq_self h]

theorem toInt_expiryAfter {now : Int64} (h : 0 ≤ now.toInt) (length : Nanos) :
    (expiryAfter now length).toInt =
      min (now.toInt + (length / 1000000 : ℕ)) Int64.maxValue.toInt := by
  have hmost : Int64.maxValue.toInt = 2 ^ 63 - 1 := by decide
  have hnow := now.toInt_lt
  rw [expiryAfter, Int64.toInt_ofInt_of_le (by omega) (by omega)]
  omega

end ProbabilitySampler

theorem Clock.wallMillis_nonneg (c : Clock) : 0 ≤ c.wallMillis.toInt := by
  have hwall := c.wall.toNat_lt
  rw [wallMillis, Int64.toInt_ofNat_of_lt (by omega)]
  exact Int.natCast_nonneg _

/-! ## Runs -/

theorem ProbabilitySettings.after_append (c : ProbabilitySettings)
    (first second : List ProbabilityMove) :
    c.after (first ++ second) = (c.after first).after second :=
  List.foldl_append

namespace Relay

/-- The sampler, its values and its file are the same. -/
def SameProbability (a : Address) (y z : Relay) : Prop :=
  z.recorder.sampler = y.recorder.sampler ∧ z.state = y.state ∧
    z.files.readAt? a = y.files.readAt? a

/-- What the sampler takes can be written and read back, and nobody else touches what it keeps. -/
def Allows (a : Address) (y : Relay) : ProbabilityMove → Prop
  | .update p => ∀ s ∈ y.accepted? p, p.IsReadBack ∧ StateFile.Saves y.files a ⟨p, s.expiry⟩
  | .aside f => y.SameProbability a (f y)
  | .restore | .restart _ => True

def AllowsAll (a : Address) : Relay → List ProbabilityMove → Prop
  | _, [] => True
  | y, move :: rest => y.Allows a move ∧ AllowsAll a (y.steer a move) rest

/-- The probability is in force up to the millisecond, and the fallback after it; the state file and
its values say so as well. -/
structure Stands (a : Address) (p : Binary64) (last : ℤ) (fallback : Binary64) (y : Relay) :
    Prop where
  memory : ∃ s, y.recorder.sampler = .probability s ∧
    (∀ now : Int64, s.probability now = if now.toInt ≤ last then p else fallback) ∧
    s.expiry.toInt = min last Int64.maxValue.toInt
  values : ∃ f, y.state = some f ∧ f.values.probability = p ∧
    f.values.expiry.toInt = min last Int64.maxValue.toInt
  file : ∃ v, (y.files.readAt? a).bind StateValues.ofBytes? = some v ∧ v.probability = p ∧
    v.expiry.toInt = min last Int64.maxValue.toInt

variable {a : Address} {c : ProbabilitySettings} {v : StateValues} {p : Binary64} {y z : Relay}
variable {moves : List ProbabilityMove}

theorem steerAll_append (a : Address) (y : Relay) (first second : List ProbabilityMove) :
    steerAll a y (first ++ second) = steerAll a (steerAll a y first) second :=
  List.foldl_append

theorem AllowsAll.append {first second : List ProbabilityMove}
    (h : AllowsAll a y (first ++ second)) :
    AllowsAll a y first ∧ AllowsAll a (steerAll a y first) second := by
  induction first generalizing y with
  | nil => exact ⟨trivial, h⟩
  | cons move first ih => exact ⟨⟨h.1, (ih h.2).1⟩, (ih h.2).2⟩

/-! ## The sampler and its values -/

/-- The sampler is as it would be had it just been started with the values kept. -/
structure Follows (a : Address) (c : ProbabilitySettings) (v : StateValues) (y : Relay) : Prop where
  sampler : y.recorder.sampler = .probability (c.sampler.restore v.probability v.expiry)
  state : y.state = some ⟨a, v⟩

theorem follows_startSampler (y : Relay) (a : Address) (c : ProbabilitySettings) :
    Follows a c (StateFile.load y.files a).values (y.startSampler a c.sampler) :=
  ⟨rfl, rfl⟩

theorem Follows.restoreProbability_eq (h : Follows a c v y) : y.restoreProbability = y := by
  unfold restoreProbability
  rw [h.state, h.sampler]
  dsimp only
  rw [ProbabilitySampler.restore_restore, ← h.sampler, ← h.state]

theorem updateProbability_eq (h : y.accepted? p = none) : y.updateProbability p = y := by
  unfold updateProbability
  split
  · rfl
  next s hs =>
    simp only [accepted?, hs, Sampler.probability?, Option.bind_some] at h
    rw [h]

theorem accepted?_of_not_inUnitInterval (y : Relay) (h : p.inUnitInterval = false) :
    y.accepted? p = none := by
  unfold accepted?
  cases y.recorder.sampler with
  | discarding => rfl
  | probability s => exact ProbabilitySampler.update?_of_not_inUnitInterval h _

/-- When a probability expires that is taken now. -/
def expiryNow (y : Relay) (c : ProbabilitySettings) : Int64 :=
  ProbabilitySampler.expiryAfter y.recorder.clock.wallMillis c.expireAfter

theorem Follows.accepted?_eq (h : Follows a c v y) (hp : p.inUnitInterval = true) :
    y.accepted? p = some (c.sampler.restore p (y.expiryNow c)) := by
  rw [accepted?, h.sampler]
  exact ProbabilitySampler.update?_of_inUnitInterval rfl hp _

theorem Follows.updateProbability_eq (h : Follows a c v y) (hp : p.inUnitInterval = true) :
    y.updateProbability p = { y with
      recorder :=
        { y.recorder with sampler := .probability (c.sampler.restore p (y.expiryNow c)) }
      state := some ⟨a, ⟨p, y.expiryNow c⟩⟩
      files := StateFile.save y.files a ⟨p, y.expiryNow c⟩ } := by
  have htaken := ProbabilitySampler.update?_of_inUnitInterval
    (s := c.sampler.restore v.probability v.expiry) rfl hp y.recorder.clock.wallMillis
  unfold updateProbability
  rw [h.sampler]
  simp only [htaken, storeState, h.state]
  rfl

theorem SameProbability.follows (hsame : y.SameProbability a z) (h : Follows a c v y) :
    Follows a c v z :=
  ⟨hsame.1.trans h.sampler, hsame.2.1.trans h.state⟩

theorem Follows.steer (h : Follows a c v y) {move : ProbabilityMove} (hm : y.Allows a move) :
    ∃ w, Follows a (c.after [move]) w (y.steer a move) := by
  cases move with
  | update p =>
    by_cases hp : p.inUnitInterval = true
    · exact ⟨⟨p, y.expiryNow c⟩, by
        rw [Relay.steer, h.updateProbability_eq hp]
        exact ⟨rfl, rfl⟩⟩
    · have hnone := accepted?_of_not_inUnitInterval y (Bool.not_eq_true _ ▸ hp)
      rw [Relay.steer, Relay.updateProbability_eq hnone]
      exact ⟨v, h⟩
  | restore =>
    rw [Relay.steer, h.restoreProbability_eq]
    exact ⟨v, h⟩
  | restart d => exact ⟨_, follows_startSampler y a d⟩
  | aside f => exact ⟨v, SameProbability.follows hm h⟩

theorem Follows.steerAll (h : Follows a c v y) (hm : AllowsAll a y moves) :
    ∃ w, Follows a (c.after moves) w (Relay.steerAll a y moves) := by
  induction moves generalizing y c v with
  | nil => exact ⟨v, h⟩
  | cons move moves ih =>
    obtain ⟨w, hw⟩ := h.steer hm.1
    exact ih hw hm.2

/-! ## The file -/

/-- The file says the same as the sampler and its values. -/
structure Holds (a : Address) (c : ProbabilitySettings) (v : StateValues) (y : Relay) : Prop
    extends Follows a c v y where
  file : (y.files.readAt? a).bind StateValues.ofBytes? = some v

/-- What the sampler takes is in all three places. -/
theorem Follows.holds_updateProbability (h : Follows a c v y) (hp : p.inUnitInterval = true)
    (hm : y.Allows a (.update p)) :
    Holds a c ⟨p, y.expiryNow c⟩ (y.updateProbability p) := by
  obtain ⟨hread, hsaves⟩ := hm _ (h.accepted?_eq hp)
  rw [h.updateProbability_eq hp]
  refine ⟨⟨rfl, rfl⟩, ?_⟩
  have hfile : (StateFile.save y.files a ⟨p, y.expiryNow c⟩).readAt? a = some _ := hsaves
  rw [hfile]
  exact StateValues.ofBytes?_render hread

theorem Holds.steer (h : Holds a c v y) {move : ProbabilityMove} (hm : y.Allows a move)
    (hrejected : ∀ q, move = .update q → q.inUnitInterval = false) :
    Holds a (c.after [move]) v (y.steer a move) := by
  cases move with
  | update q =>
    have hnone := accepted?_of_not_inUnitInterval y (hrejected q rfl)
    rw [Relay.steer, Relay.updateProbability_eq hnone]
    exact h
  | restore =>
    rw [Relay.steer, h.restoreProbability_eq]
    exact h
  | restart d =>
    -- the file says what the old sampler had taken, whatever the new one is set up with
    have hload : (StateFile.load y.files a).values = v := by
      rw [StateFile.load, h.file, Option.getD_some]
    exact ⟨hload ▸ follows_startSampler y a d, h.file⟩
  | aside f => exact ⟨SameProbability.follows hm h.toFollows, hm.2.2 ▸ h.file⟩

theorem Holds.steerAll (h : Holds a c v y) (hm : AllowsAll a y moves)
    (hrejected : ∀ q, .update q ∈ moves → q.inUnitInterval = false) :
    Holds a (c.after moves) v (Relay.steerAll a y moves) := by
  induction moves generalizing y c with
  | nil => exact h
  | cons move moves ih =>
    have hone := h.steer hm.1 fun q hq => hrejected q (hq ▸ List.mem_cons_self)
    exact ih hone hm.2 fun q hq => hrejected q (List.mem_cons_of_mem _ hq)

theorem Holds.stands (h : Holds a c v y) (hp : v.probability.inUnitInterval = true) {last : ℤ}
    (hlast : v.expiry.toInt = min last Int64.maxValue.toInt) :
    Stands a v.probability last (ProbabilitySampler.clampProbability c.fallback) y where
  memory := by
    refine ⟨_, h.sampler, fun now => ?_, hlast⟩
    -- an expiry that is cut off at the largest moment is not over at any moment
    have hnow : now ≤ v.expiry ↔ now.toInt ≤ last := by
      have hmost : Int64.maxValue.toInt = 2 ^ 63 - 1 := by decide
      have hlt := now.toInt_lt
      rw [Int64.le_iff_toInt_le]
      omega
    rw [ProbabilitySampler.probability_restore rfl hp]
    simp only [hnow]
    rfl
  values := ⟨_, h.state, rfl, hlast⟩
  file := ⟨v, h.file, rfl, hlast⟩

/-! ## Fixed samplers -/

/-- The sampler has the one probability for good. -/
def IsFixedAt (p : Binary64) (y : Relay) : Prop :=
  ∃ s, y.recorder.sampler = .probability s ∧ s.isFixed = true ∧ s.fallback = p

theorem IsFixedAt.updateProbability_eq (h : y.IsFixedAt p) (q : Binary64) :
    y.updateProbability q = y := by
  obtain ⟨s, hs, hfixed, -⟩ := h
  refine Relay.updateProbability_eq ?_
  rw [accepted?, hs]
  exact ProbabilitySampler.update?_of_isFixed hfixed q _

theorem IsFixedAt.restoreProbability (h : y.IsFixedAt p) :
    y.restoreProbability.IsFixedAt p ∧ y.restoreProbability.state = y.state ∧
      y.restoreProbability.files = y.files := by
  obtain ⟨s, hs, hfixed, hp⟩ := h
  unfold Relay.restoreProbability
  split
  next f t hf ht =>
    obtain rfl : s = t := Sampler.probability.inj (hs.symm.trans ht)
    exact ⟨⟨_, rfl, hfixed, hp⟩, rfl, rfl⟩
  · exact ⟨⟨s, hs, hfixed, hp⟩, rfl, rfl⟩

theorem IsFixedAt.steerAll (h : y.IsFixedAt p) (hm : AllowsAll a y moves)
    (hstays : ∀ d, .restart d ∉ moves) :
    (Relay.steerAll a y moves).IsFixedAt p ∧ (Relay.steerAll a y moves).state = y.state ∧
      (Relay.steerAll a y moves).files.readAt? a = y.files.readAt? a := by
  induction moves generalizing y with
  | nil => exact ⟨h, rfl, rfl⟩
  | cons move moves ih =>
    have hrest : ∀ d, .restart d ∉ moves := fun d hd => hstays d (List.mem_cons_of_mem _ hd)
    have hone : (y.steer a move).IsFixedAt p ∧ (y.steer a move).state = y.state ∧
        (y.steer a move).files.readAt? a = y.files.readAt? a := by
      cases move with
      | update q =>
        rw [Relay.steer, h.updateProbability_eq q]
        exact ⟨h, rfl, rfl⟩
      | restore =>
        obtain ⟨hfixed, hstate, hfiles⟩ := h.restoreProbability
        exact ⟨hfixed, hstate, congrArg (FileTree.readAt? · a) hfiles⟩
      | restart d => exact absurd List.mem_cons_self (hstays d)
      | aside f =>
        obtain ⟨s, hs, hfixed⟩ := h
        exact ⟨⟨s, hm.1.1.trans hs, hfixed⟩, hm.1.2⟩
    obtain ⟨hfixed, hstate, hread⟩ := ih hone.1 hm.2 hrest
    exact ⟨hfixed, hstate.trans hone.2.1, hread.trans hone.2.2⟩

/-! ## What happens in a relay is a run -/

theorem attachState_eq {s : ProbabilitySampler} (h : y.recorder.sampler = .probability s) :
    y.attachState = y.startSampler stateAddress s := by
  unfold attachState startSampler
  rw [← h]

/-- The move gives the sampler a probability or does not concern it. -/
def IsUpkeep (a : Address) (move : ProbabilityMove) : Prop :=
  (∃ p, move = .update p) ∨ ∃ f, move = .aside f ∧ ∀ y : Relay, y.SameProbability a (f y)

/-- The sampler task asks the remote end and takes what it tells, and does no more than that. -/
theorem exists_steerAll_refreshIfExpired (a : Address) (y : Relay) :
    ∃ moves, y.refreshIfExpired = steerAll a y moves ∧ ∀ move ∈ moves, IsUpkeep a move := by
  let ask : ProbabilityMove := .aside (·.emit .probabilityAsked)
  have hask : IsUpkeep a ask := .inr ⟨_, rfl, fun y => ⟨rfl, rfl, rfl⟩⟩
  unfold refreshIfExpired
  split
  · exact ⟨[], rfl, by simp⟩
  · split
    · exact ⟨[], rfl, by simp⟩
    · unfold fetchProbability
      dsimp only
      split
      next p _ =>
        split
        · refine ⟨[ask, .update p], rfl, ?_⟩
          simpa [hask] using .inl ⟨p, rfl⟩
        · exact ⟨[ask], rfl, by simpa using hask⟩
      · exact ⟨[ask], rfl, by simpa using hask⟩

theorem exists_steerAll_attachSampler (a : Address) (y : Relay) :
    ∃ first rest, y.attachSampler = steerAll a y (first :: .restore :: rest) ∧
      ∀ move ∈ first :: rest, IsUpkeep a move := by
  obtain ⟨rest, hrest, hupkeep⟩ :=
    exists_steerAll_refreshIfExpired a y.listen.restoreProbability
  refine ⟨.aside listen, rest, hrest, fun move hmove => ?_⟩
  rcases List.mem_cons.mp hmove with rfl | hmove
  · exact .inr ⟨_, rfl, fun y => ⟨rfl, rfl, rfl⟩⟩
  · exact hupkeep move hmove

/-! ## The results -/

/-- After a probability is taken and until the next one is, it is in force up to its end, and after
that the fallback of whichever sampler runs by then. Nothing else changes what a sampler has taken,
and one that is fixed takes nothing. -/
theorem stands_steerAll (a : Address) :
    (∀ (y : Relay) (c : ProbabilitySettings) moves, AllowsAll a (y.startSampler a c.sampler) moves →
      let z := steerAll a (y.startSampler a c.sampler) moves
      (∀ before p later, moves = before ++ .update p :: later → p.inUnitInterval = true →
        (∀ q, .update q ∈ later → q.inUnitInterval = false) →
        let x := steerAll a (y.startSampler a c.sampler) before
        Stands a p
          (x.recorder.clock.wallMillis.toInt + ((c.after before).expireAfter / 1000000 : ℕ))
          (ProbabilitySampler.clampProbability (c.after moves).fallback) z) ∧
      z.restoreProbability = z ∧
      ∀ q, q.inUnitInterval = false → z.updateProbability q = z) ∧
    (∀ (y : Relay) s moves, y.recorder.sampler = .probability s → s.isFixed = true →
      AllowsAll a y moves → (∀ c, .restart c ∉ moves) →
      let z := steerAll a y moves
      (∃ t, z.recorder.sampler = .probability t ∧ ∀ now, t.probability now = s.fallback) ∧
      z.state = y.state ∧ z.files.readAt? a = y.files.readAt? a ∧
      z.restoreProbability.files = z.files ∧
      ∀ q, z.updateProbability q = z) := by
  refine ⟨fun y c moves hmoves => ?_, fun y s moves hs hfixed hmoves hstays => ?_⟩
  · have hstart := follows_startSampler y a c
    obtain ⟨v, hend⟩ := hstart.steerAll hmoves
    refine ⟨?_, hend.restoreProbability_eq,
      fun q hq => updateProbability_eq (accepted?_of_not_inUnitInterval _ hq)⟩
    rintro before p later rfl hp hlater
    obtain ⟨hbefore, hupdate, hrest⟩ := hmoves.append
    obtain ⟨w, hold⟩ := hstart.steerAll hbefore
    have htaken := (hold.holds_updateProbability hp hupdate).steerAll hrest hlater
    have hexpiry := ProbabilitySampler.toInt_expiryAfter
      (steerAll a (y.startSampler a c.sampler) before).recorder.clock.wallMillis_nonneg
      (c.after before).expireAfter
    have hstands := htaken.stands hp hexpiry
    rw [steerAll_append, ProbabilitySettings.after_append]
    exact hstands
  · have hkept := IsFixedAt.steerAll ⟨s, hs, hfixed, rfl⟩ hmoves hstays
    obtain ⟨hend, hstate, hread⟩ := hkept
    refine ⟨?_, hstate, hread, hend.restoreProbability.2.2, hend.updateProbability_eq⟩
    obtain ⟨t, ht, htfixed, hfallback⟩ := hend
    refine ⟨t, ht, fun now => ?_⟩
    rw [ProbabilitySampler.probability_of_isFixed htfixed, hfallback]

/-- A half is told after a second and holds for a day, also for the sampler that starts after it
with other settings; one that is fixed at a half does not take a one. -/
theorem stands_steerAll_restarted :
    let remote : Remote := ⟨⟨"key", false, .standard⟩, [], none, false⟩
    let recorder := Recorder.start ⟨0, 1000000000, 0⟩ .standard true .batch .discarding 100 0
    let y := Relay.start recorder .empty (fun _ => 0) 0 remote true .empty []
    let half : Binary64 := .ofRatio false 1 2
    let first : ProbabilitySettings := ⟨.one, Nanos.ofSeconds 86400⟩
    let later : List ProbabilityMove := [.restore, .update .nan, .restart ⟨.zero, 0⟩,
      .aside fun y => { y with recorder := { y.recorder with clock := ⟨5, 2000000000, 0⟩ } }]
    let started := y.startSampler stateAddress first.sampler
    let z := steerAll stateAddress started (.update half :: later)
    let fixed := { y with recorder := { recorder with sampler := .probability (.fixed half) } }
    let x := steerAll stateAddress fixed [.update .one, .restore]
    Stands stateAddress half 86401000 .zero z ∧ z.restoreProbability = z ∧
      z.updateProbability .nan = z ∧ ∃ t, x.recorder.sampler = .probability t ∧
        ∀ now, t.probability now = half := by
  intro remote recorder y half first later started z fixed x
  have hhalf : half.inUnitInterval = true := by decide
  have hback : half.IsReadBack := by decide +kernel
  have hnan : Binary64.nan.inUnitInterval = false := by decide
  have hrejected : ∀ q, .update q ∈ later → q.inUnitInterval = false := by
    simp [later, hnan]
  have hmoves : AllowsAll stateAddress started (.update half :: later) := by
    refine ⟨fun s hs => ⟨hback, ?_⟩, trivial, fun s hs => ?_, trivial, ⟨rfl, rfl, rfl⟩, trivial⟩
    · exact saves_stateAddress FileTree.sound_empty (by decide) (by decide) (by decide) _
    · rw [accepted?_of_not_inUnitInterval _ hnan] at hs
      contradiction
  have hfixed : AllowsAll stateAddress fixed [.update .one, .restore] := by
    refine ⟨fun s hs => ?_, trivial, trivial⟩
    contradiction
  obtain ⟨hstands, hrestore, hupdate⟩ :=
    (stands_steerAll stateAddress).1 y first (.update half :: later) hmoves
  have hkept :=
    (stands_steerAll stateAddress).2 fixed (.fixed half) [.update .one, .restore] rfl rfl hfixed
      (by simp)
  have hfallback : ProbabilitySampler.clampProbability
      (first.after (.update half :: later)).fallback = .zero := by decide
  have hlast : started.recorder.clock.wallMillis.toInt + (first.expireAfter / 1000000 : ℕ) =
      86401000 := by decide +kernel
  refine ⟨?_, hrestore, hupdate .nan hnan, hkept.1⟩
  rw [← hfallback, ← hlast]
  exact hstands [] half later rfl hhalf hrejected

end Relay
end SpanRelay
