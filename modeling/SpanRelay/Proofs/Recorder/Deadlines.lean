import SpanRelay.Proofs.Recorder.Scheduling

/-!
Every pending hold has exactly one deadline in the queue, it leaves in exactly one way, and the
deadlines that fire do so in their order. How a hold leaves is read off what the calls answer.
-/
namespace SpanRelay.Recorder

open DeadlineQueue

/-- The timers of the pending holds of all spans. -/
def pendingTimers (r : Recorder) : List Timer := r.spans.toList.flatMap Span.pending

/-- How a hold leaves its span. -/
inductive Exit where
  | closed
  | cancelled
  | timedOut
  | discarded
  deriving DecidableEq, Repr

/-- The exits of a hold in a move: by calls that answer that they released it, by its deadlines that
fire, and by a discard that finds it pending on the span. -/
def exitsBy (r : Recorder) (id : HoldId) : Move → List Exit
  | .closeHold thread other time =>
    if other = id ∧ (r.closeHold thread other time).1 = true then [.closed] else []
  | .cancelHold thread other =>
    if other = id ∧ (r.cancelHold thread other).1 = true then [.cancelled] else []
  | .expire thread count =>
    ((fired count thread r).filter fun a => a.hold = id).map fun _ => .timedOut
  | .discard thread ref =>
    if (r.discard thread ref).1 = true ∧ ∃ a ∈ r.pendingOf ref, a.hold = id then [.discarded]
    else []
  | _ => []

/-- The exits of a hold in a run. -/
def exits (r : Recorder) (id : HoldId) : List Move → List Exit
  | [] => []
  | m :: moves => r.exitsBy id m ++ (r.move m).exits id moves

/-- The timers of the deadlines that fire in a move. -/
def firedBy (r : Recorder) : Move → List Timer
  | .expire thread count => fired count thread r
  | _ => []

/-- The timers of the deadlines that fire in a run, in their order. -/
def firedIn (r : Recorder) : List Move → List Timer
  | [] => []
  | m :: moves => r.firedBy m ++ (r.move m).firedIn moves

/-- The ticks of a clock that is set in the course of a run never go back. -/
def Forward (now : Ticks) : List Move → Prop
  | [] => True
  | .setClock clock :: moves => now ≤ clock.ticks ∧ Forward clock.ticks moves
  | _ :: moves => Forward now moves

variable {r t : Recorder} {ref : SpanRef} {id : HoldId} {gone : List Timer} {a b timer : Timer}

/-! ## Pending timers -/

theorem mem_pendingTimers : a ∈ r.pendingTimers ↔ ∃ ref, a ∈ r.pendingOf ref := by
  unfold pendingTimers pendingOf span?
  rw [List.mem_flatMap]
  constructor
  · rintro ⟨s, hs, ha⟩
    obtain ⟨ref, hs⟩ := Array.mem_iff_getElem?.mp (Array.mem_toList_iff.mp hs)
    exact ⟨ref, by rwa [hs]⟩
  · rintro ⟨ref, ha⟩
    cases hs : r.spans[ref]? with
    | none => simp [hs] at ha
    | some s =>
      rw [hs] at ha
      exact ⟨s, Array.mem_toList_iff.mpr (Array.mem_of_getElem? hs), ha⟩

theorem Scheduled.nodup_pendingTimers (h : r.Scheduled) : r.pendingTimers.Nodup := by
  have hat : ∀ (i : Nat) (hi : i < r.spans.toList.length),
      (r.spans.toList[i]).pending = r.pendingOf i := by
    intro i hi
    have hs : r.span? i = some r.spans.toList[i] := by
      unfold span?
      rw [← Array.getElem?_toList]
      exact List.getElem?_eq_getElem hi
    exact (pendingOf_of_span? hs).symm
  apply List.nodup_flatMap.mpr
  constructor
  · intro s hs
    obtain ⟨i, hi, rfl⟩ := List.getElem_of_mem hs
    rw [hat i hi]
    exact h.nodup i
  · apply List.pairwise_iff_getElem.mpr
    intro i j hi hj hlt a ha hb
    rw [hat i hi] at ha
    rw [hat j hj] at hb
    exact Nat.ne_of_lt hlt (h.unique ha hb rfl).2

theorem Scheduled.nodup_holds (h : r.Scheduled) : (r.pendingTimers.map Timer.hold).Nodup := by
  apply List.Nodup.map_on _ h.nodup_pendingTimers
  intro a ha b hb hid
  obtain ⟨ref, ha⟩ := mem_pendingTimers.mp ha
  obtain ⟨other, hb⟩ := mem_pendingTimers.mp hb
  exact (h.unique ha hb hid).1

theorem Scheduled.perm_pendingTimers (h : r.Scheduled) :
    r.deadlines.timers.Perm r.pendingTimers := by
  apply (List.perm_ext_iff_of_nodup h.inOrder.nodup h.nodup_pendingTimers).mpr
  intro a
  rw [h.mem_iff, mem_pendingTimers]

/-! ## Exits -/

/-- How often a hold has left: once if it was taken and is not active now. -/
def departures (r : Recorder) (id : HoldId) : Nat :=
  if id < r.holds.size ∧ r.isActive id = false then 1 else 0

theorem departures_le_one (r : Recorder) (id : HoldId) : r.departures id ≤ 1 := by
  unfold departures
  split <;> omega

theorem departures_congr (hsize : t.holds.size = r.holds.size)
    (hactive : t.isActive id = r.isActive id) : t.departures id = r.departures id := by
  unfold departures
  rw [hsize, hactive]

/-- The holds whose timers are taken out leave, and no others do. -/
theorem Scheduled.departures_drops (h : r.Scheduled) (d : Drops gone r t)
    (hg : ∀ a ∈ gone, a ∈ r.deadlines.timers) (id : HoldId) :
    t.departures id = r.departures id + if ∃ a ∈ gone, a.hold = id then 1 else 0 := by
  by_cases hex : ∃ a ∈ gone, a.hold = id
  · obtain ⟨a, ha, rfl⟩ := hex
    have hbefore : r.isActive a.hold = true := h.isActive_iff_mem.mpr ⟨a, hg a ha, rfl⟩
    have hafter : t.isActive a.hold = false := by
      rw [Bool.eq_false_iff, ne_eq, (h.drops d).isActive_iff_mem]
      rintro ⟨b, hb, hid⟩
      obtain ⟨hb, hnot⟩ := d.mem_timers.mp hb
      exact hnot (h.eq_of_hold_eq hb (hg a ha) hid ▸ ha)
    have hlt : a.hold < t.holds.size := d.holds ▸ h.hold_lt (hg a ha)
    unfold departures
    rw [if_pos ⟨hlt, hafter⟩, if_neg (by simp [hbefore]), if_pos ⟨a, ha, rfl⟩]
  · rw [if_neg hex]
    apply departures_congr
    · rw [d.holds]
    · rw [Bool.eq_iff_iff, (h.drops d).isActive_iff_mem, h.isActive_iff_mem]
      constructor
      · rintro ⟨a, ha, hid⟩
        exact ⟨a, (d.mem_timers.mp ha).1, hid⟩
      · rintro ⟨a, ha, hid⟩
        exact ⟨a, d.mem_timers.mpr ⟨ha, fun hm => hex ⟨a, hm, hid⟩⟩, hid⟩

theorem Scheduled.departures_release (h : r.Scheduled) (thread : Nat) (other id : HoldId)
    (time : Option Ticks) :
    (r.release thread other time).2.departures id =
      r.departures id + if other = id ∧ (r.release thread other time).1 = true then 1 else 0 := by
  rcases h.release_cases thread other time with ⟨-, heq⟩ | ⟨timer, hm, rfl, hanswer, d⟩
  · rw [heq]
    simp
  · rw [h.departures_drops d (by simpa using hm), hanswer]
    simp

/-- A new hold is active, so that none has left. -/
theorem Scheduled.departures_adds (h : r.Scheduled) (d : Adds ref timer r t) (id : HoldId) :
    t.departures id = r.departures id := by
  have hsize : t.holds.size = r.holds.size + 1 := by
    rw [d.holds, Array.size_push]
  have hmem : ∀ a, a ∈ t.deadlines.timers ↔ a = timer ∨ a ∈ r.deadlines.timers := by
    intro a
    rw [h.timers_of_adds d]
    exact mem_insertTimer timer a r.deadlines.timers
  by_cases hnew : id = r.holds.size
  · have hnow : t.isActive id = true :=
      (h.adds d).isActive_iff_mem.mpr ⟨timer, (hmem timer).mpr (.inl rfl), d.isNew.trans hnew.symm⟩
    unfold departures
    rw [if_neg (by simp [hnow]), if_neg (by simp [hnew])]
  · have hsame : t.isActive id = r.isActive id := by
      rw [Bool.eq_iff_iff, (h.adds d).isActive_iff_mem, h.isActive_iff_mem]
      constructor
      · rintro ⟨a, ha, hid⟩
        rcases (hmem a).mp ha with rfl | ha
        · exact absurd (hid.symm.trans d.isNew) hnew
        · exact ⟨a, ha, hid⟩
      · rintro ⟨a, ha, hid⟩
        exact ⟨a, (hmem a).mpr (.inr ha), hid⟩
    unfold departures
    rw [hsame, hsize]
    simp only [Nat.lt_succ_iff_lt_or_eq, hnew, or_false]

theorem isActive_upgrade (r : Recorder) (other id : HoldId) :
    (r.upgrade other).2.holds.size = r.holds.size ∧
      (r.upgrade other).2.isActive id = r.isActive id := by
  unfold upgrade
  split
  · exact ⟨rfl, rfl⟩
  next h hh =>
    split
    · apply And.intro (by simp)
      unfold isActive
      dsimp only
      rw [Array.getElem?_setIfInBounds]
      by_cases hid : other = id
      · rw [if_pos hid, if_pos (Array.getElem?_eq_some_iff.mp hh).1, ← hid, hh]
        rfl
      · rw [if_neg hid]
        rfl
    · exact ⟨rfl, rfl⟩

theorem Scheduled.departures_fireUpTo (h : r.Scheduled) (count thread : Nat) (id : HoldId) :
    (Recorder.fireUpTo count thread r).departures id =
      r.departures id + ((fired count thread r).filter fun a => a.hold = id).length := by
  induction count generalizing r with
  | zero => rfl
  | succ count ih =>
    unfold Recorder.fireUpTo fired
    cases hp : r.deadlines.popDue? r.clock.ticks.toNat with
    | none => rfl
    | some found =>
      obtain ⟨timer, q⟩ := found
      have hmem : timer ∈ r.deadlines.timers := by simp [(popDue?_eq_some hp).1]
      have hanswer : (r.closeHold thread timer.hold timer.ticks).1 = true :=
        (h.release_of_mem hmem thread _).1
      have hstep := h.departures_release thread timer.hold id (r.countedTime timer.hold timer.ticks)
      rw [← closeHold, hanswer] at hstep
      have hnext : (r.closeHold thread timer.hold timer.ticks).2.Scheduled :=
        h.release thread timer.hold _
      dsimp only
      rw [h.timeOut_eq hp, ih hnext, hstep, List.filter_cons]
      by_cases hid : timer.hold = id
      · simp only [hid, and_self, if_true, decide_true, List.length_cons]
        omega
      · simp [hid]

theorem Scheduled.departures_move (h : r.Scheduled) (m : Move) (id : HoldId) :
    (r.move m).departures id = r.departures id + (r.exitsBy id m).length := by
  have hexit : ∀ (p : Prop) [Decidable p] (e : Exit),
      (if p then [e] else []).length = if p then 1 else 0 := by
    intro p _ e
    split <;> rfl
  cases hm : m.concernsHolds with
  | false =>
    have hnone : r.exitsBy id m = [] := by
      cases m <;> first | rfl | contradiction
    rw [hnone, h.departures_drops (sameHolds_move r hm).drops (by simp)]
    simp
  | true =>
    cases m with
    | discard thread ref =>
      simp only [exitsBy, hexit]
      show (r.discard thread ref).2.departures id = _
      rcases h.discard_cases thread ref with heq | ⟨hanswer, d⟩
      · rw [heq]
        simp
      · rw [h.departures_drops d fun a ha => (h.mem_iff a).mpr ⟨ref, ha⟩, hanswer]
        simp
    | hold ref timeout =>
      show (r.hold ref timeout).2.departures id = _
      rcases hold_cases r ref timeout with heq | ⟨timer, d⟩
      · rw [heq]
        rfl
      · exact h.departures_adds d id
    | upgrade other =>
      exact departures_congr (isActive_upgrade r other id).1 (isActive_upgrade r other id).2
    | closeHold thread other time =>
      simp only [exitsBy, hexit]
      exact h.departures_release thread other id _
    | cancelHold thread other =>
      simp only [exitsBy, hexit]
      exact h.departures_release thread other id none
    | expire thread count =>
      simp only [exitsBy, List.length_map]
      exact h.departures_fireUpTo count thread id
    | setClock clock => rfl
    | _ => contradiction

theorem Scheduled.departures_play (h : r.Scheduled) (moves : List Move) (id : HoldId) :
    (r.play moves).departures id = r.departures id + (r.exits id moves).length := by
  induction moves generalizing r with
  | nil => rfl
  | cons m moves ih =>
    show ((r.move m).play moves).departures id = _
    rw [ih (h.move m), h.departures_move, exits, List.length_append]
    omega

/-- A deadline that fires is an exit of its hold. -/
theorem exits_ne_nil_of_firedIn {moves : List Move} (ha : a ∈ r.firedIn moves) :
    r.exits a.hold moves ≠ [] := by
  induction moves generalizing r with
  | nil => contradiction
  | cons m moves ih =>
    rw [exits, ne_eq, List.append_eq_nil_iff]
    rintro ⟨hnow, hlater⟩
    rcases List.mem_append.mp ha with ha | ha
    · cases m with
      | expire thread count =>
        simp only [exitsBy, List.map_eq_nil_iff, List.filter_eq_nil_iff] at hnow
        exact hnow a ha (by simp)
      | _ => contradiction
    · exact ih ha hlater

/-! ## The order in which deadlines fire -/

/-- The timer has fired: its time has come, and all that are in the queue fire after it. -/
structure Past (r : Recorder) (a : Timer) : Prop where
  due : a.deadline ≤ r.clock.ticks.toNat
  taken : a.hold < r.holds.size
  first : ∀ b ∈ r.deadlines.timers, a.before b = true

theorem Past.drops (h : r.Past a) (d : Drops gone r t) : t.Past a := by
  constructor
  · rw [d.clock]
    exact h.due
  · rw [d.holds]
    exact h.taken
  · intro b hb
    exact h.first b (d.mem_timers.mp hb).1

theorem Past.release (h : r.Past a) (hr : r.Scheduled) (thread : Nat) (id : HoldId)
    (time : Option Ticks) : (r.release thread id time).2.Past a := by
  rcases hr.release_cases thread id time with ⟨-, heq⟩ | ⟨timer, -, -, -, d⟩
  · rwa [heq]
  · exact h.drops d

theorem Past.adds (h : r.Past a) (hr : r.Scheduled) (d : Adds ref timer r t) : t.Past a := by
  constructor
  · rw [d.clock]
    exact h.due
  · rw [d.holds, Array.size_push]
    exact Nat.lt_succ_of_lt h.taken
  · intro b hb
    rw [hr.timers_of_adds d, mem_insertTimer] at hb
    rcases hb with rfl | hb
    · rw [Timer.before_iff]
      have hhold : a.hold < b.hold := d.isNew ▸ h.taken
      rcases Nat.lt_or_eq_of_le (Nat.le_trans h.due d.due) with hlt | heq
      · exact .inl hlt
      · exact .inr ⟨heq, hhold⟩
    · exact h.first b hb

theorem Past.fireUpTo (h : r.Past a) (hr : r.Scheduled) (count thread : Nat) :
    (Recorder.fireUpTo count thread r).Past a ∧ ∀ b ∈ fired count thread r, a.before b = true := by
  induction count generalizing r with
  | zero =>
    constructor
    · exact h
    · intro b hb
      contradiction
  | succ count ih =>
    unfold Recorder.fireUpTo fired
    cases hp : r.deadlines.popDue? r.clock.ticks.toNat with
    | none =>
      constructor
      · exact h
      · intro b hb
        contradiction
    | some found =>
      obtain ⟨timer, q⟩ := found
      dsimp only
      rw [hr.timeOut_eq hp]
      obtain ⟨hlast, hlater⟩ := ih (h.release hr thread timer.hold _) (hr.release thread timer.hold _)
      constructor
      · exact hlast
      · intro b hb
        rcases List.mem_cons.mp hb with rfl | hb
        · exact h.first b (by simp [(popDue?_eq_some hp).1])
        · exact hlater b hb

theorem Past.move (h : r.Past a) (hr : r.Scheduled) {m : Move}
    (hm : ∀ clock, m = .setClock clock → r.clock.ticks ≤ clock.ticks) : (r.move m).Past a := by
  cases hc : m.concernsHolds with
  | false => exact h.drops (sameHolds_move r hc).drops
  | true =>
    cases m with
    | discard thread ref =>
      rcases hr.discard_cases thread ref with heq | ⟨-, d⟩
      · show (r.discard thread ref).2.Past a
        rwa [heq]
      · exact h.drops d
    | hold ref timeout =>
      show (r.hold ref timeout).2.Past a
      rcases hold_cases r ref timeout with heq | ⟨timer, d⟩
      · rwa [heq]
      · exact h.adds hr d
    | upgrade id =>
      have hsize := (isActive_upgrade r id id).1
      have hsame : (r.upgrade id).2.clock = r.clock ∧ (r.upgrade id).2.deadlines = r.deadlines := by
        unfold Recorder.upgrade
        split
        · exact ⟨rfl, rfl⟩
        · split <;> exact ⟨rfl, rfl⟩
      constructor
      · exact hsame.1 ▸ h.due
      · exact hsize ▸ h.taken
      · exact hsame.2 ▸ h.first
    | closeHold thread id time => exact h.release hr thread id _
    | cancelHold thread id => exact h.release hr thread id none
    | expire thread count => exact (h.fireUpTo hr count thread).1
    | setClock clock =>
      have hforward : r.clock.ticks.toNat ≤ clock.ticks.toNat := UInt64.le_iff_toNat_le.mp (hm clock rfl)
      exact ⟨Nat.le_trans h.due hforward, h.taken, h.first⟩
    | _ => contradiction

/-- The deadlines that fire at once do so in their order, and are past then. -/
theorem Scheduled.pairwise_fired (h : r.Scheduled) (count thread : Nat) :
    (fired count thread r).Pairwise (fun a b => a.before b = true) ∧
      ∀ a ∈ fired count thread r, (Recorder.fireUpTo count thread r).Past a := by
  induction count generalizing r with
  | zero => exact ⟨.nil, fun a ha => by contradiction⟩
  | succ count ih =>
    unfold Recorder.fireUpTo fired
    cases hp : r.deadlines.popDue? r.clock.ticks.toNat with
    | none => exact ⟨.nil, fun a ha => by contradiction⟩
    | some found =>
      obtain ⟨timer, q⟩ := found
      obtain ⟨hq, hdue, -⟩ := popDue?_eq_some hp
      have hmem : timer ∈ r.deadlines.timers := by simp [hq]
      have hnext := h.release thread timer.hold (r.countedTime timer.hold timer.ticks)
      have d : Drops [timer] r (r.closeHold thread timer.hold timer.ticks).2 :=
        (h.release_of_mem hmem thread _).2
      have hpast : (r.closeHold thread timer.hold timer.ticks).2.Past timer := by
        constructor
        · exact d.clock ▸ hdue
        · exact d.holds ▸ h.hold_lt hmem
        · intro b hb
          obtain ⟨hb, hnot⟩ := d.mem_timers.mp hb
          have horder := h.inOrder
          rw [hq] at hb horder
          rcases List.mem_cons.mp hb with rfl | hb
          · simp at hnot
          · exact (List.pairwise_cons.mp horder).1 b hb
      dsimp only
      rw [h.timeOut_eq hp]
      obtain ⟨hsorted, hall⟩ := ih hnext
      obtain ⟨hlast, hlater⟩ := hpast.fireUpTo hnext count thread
      constructor
      · exact List.pairwise_cons.mpr ⟨hlater, hsorted⟩
      · intro b hb
        rcases List.mem_cons.mp hb with rfl | hb
        · exact hlast
        · exact hall b hb

/-- A move sets the clock, or leaves it alone. -/
theorem Scheduled.clock_move (h : r.Scheduled) (m : Move) :
    (∃ clock, m = .setClock clock) ∨ (r.move m).clock = r.clock := by
  have hrelease : ∀ (t : Recorder), t.Scheduled → ∀ (thread : Nat) id time,
      (t.release thread id time).2.clock = t.clock := by
    intro t ht thread id time
    rcases ht.release_cases thread id time with ⟨-, heq⟩ | ⟨timer, -, -, -, d⟩
    · rw [heq]
    · exact d.clock
  cases hc : m.concernsHolds with
  | false => exact .inr (sameHolds_move r hc).clock
  | true =>
    cases m with
    | setClock clock => exact .inl ⟨clock, rfl⟩
    | discard thread ref =>
      right
      show (r.discard thread ref).2.clock = r.clock
      rcases h.discard_cases thread ref with heq | ⟨-, d⟩
      · rw [heq]
      · exact d.clock
    | hold ref timeout =>
      right
      show (r.hold ref timeout).2.clock = r.clock
      rcases hold_cases r ref timeout with heq | ⟨timer, d⟩
      · rw [heq]
      · exact d.clock
    | upgrade id =>
      right
      show (r.upgrade id).2.clock = r.clock
      unfold Recorder.upgrade
      split
      · rfl
      · split <;> rfl
    | closeHold thread id time => exact .inr (hrelease r h thread id _)
    | cancelHold thread id => exact .inr (hrelease r h thread id none)
    | expire thread count =>
      right
      show (Recorder.fireUpTo count thread r).clock = r.clock
      rw [h.fireUpTo_eq]
      generalize fired count thread r = timers
      induction timers generalizing r with
      | nil => rfl
      | cons a timers ih =>
        exact (ih (h.release thread a.hold _)).trans (hrelease r h thread a.hold _)
    | _ => contradiction

theorem Scheduled.forward_move (h : r.Scheduled) {m : Move} {moves : List Move}
    (hf : Forward r.clock.ticks (m :: moves)) :
    (∀ clock, m = .setClock clock → r.clock.ticks ≤ clock.ticks) ∧
      Forward (r.move m).clock.ticks moves := by
  rcases h.clock_move m with ⟨clock, rfl⟩ | hsame
  · constructor
    · intro other heq
      obtain rfl := Move.setClock.inj heq
      exact hf.1
    · exact hf.2
  · constructor
    · intro clock heq
      subst heq
      exact hf.1
    · rw [hsame]
      cases m with
      | setClock clock =>
        rw [← hsame]
        exact hf.2
      | _ => exact hf

theorem Past.firedIn (h : r.Past a) (hr : r.Scheduled) {moves : List Move}
    (hf : Forward r.clock.ticks moves) : ∀ b ∈ r.firedIn moves, a.before b = true := by
  induction moves generalizing r with
  | nil => simp [Recorder.firedIn]
  | cons m moves ih =>
    obtain ⟨hclock, hrest⟩ := hr.forward_move hf
    intro b hb
    rcases List.mem_append.mp hb with hb | hb
    · cases m with
      | expire thread count => exact (h.fireUpTo hr count thread).2 b hb
      | _ => contradiction
    · exact ih (h.move hr hclock) (hr.move m) hrest b hb

theorem Scheduled.pairwise_firedIn (h : r.Scheduled) {moves : List Move}
    (hf : Forward r.clock.ticks moves) :
    (r.firedIn moves).Pairwise fun a b => a.before b = true := by
  induction moves generalizing r with
  | nil => exact .nil
  | cons m moves ih =>
    obtain ⟨-, hrest⟩ := h.forward_move hf
    have hnow : (r.firedBy m).Pairwise (fun a b => a.before b = true) ∧
        ∀ a ∈ r.firedBy m, (r.move m).Past a := by
      cases m with
      | expire thread count => exact h.pairwise_fired count thread
      | _ => exact ⟨.nil, fun a ha => by contradiction⟩
    apply List.pairwise_append.mpr
    constructor
    · exact hnow.1
    · exact ⟨ih (h.move m) hrest, fun a ha b hb => (hnow.2 a ha).firedIn (h.move m) hrest b hb⟩

/-! ## Runs -/

/-- After any run the pending holds of all spans are distinct, and the queue of deadlines holds
exactly their timers. A hold has left in exactly one way, or is active still; once it has left it
stays inactive, is upgraded no more, and its deadline never fires. If the clock never goes back,
deadlines fire in the order of their times, and of their holds where the times are equal. -/
theorem deadlines_play (clock : Clock) (limits : AttributeLimits) (timed : Bool) (sink : Sink)
    (sampler : Sampler) (trigger : Nat) (timeout : Nanos) (moves : List Move) :
    let first := start clock limits timed sink sampler trigger timeout
    let r := first.play moves
    (r.pendingTimers.map Timer.hold).Nodup ∧
      r.deadlines.timers.Perm r.pendingTimers ∧
      (∀ id, (first.exits id moves).length =
        if id < r.holds.size ∧ r.isActive id = false then 1 else 0) ∧
      (∀ id, id < r.holds.size → r.isActive id = false → ∀ more : List Move,
        (r.play more).isActive id = false ∧ ((r.play more).upgrade id).1 = none ∧
          r.exits id more = [] ∧ ∀ timer ∈ r.firedIn more, timer.hold ≠ id) ∧
      (Forward clock.ticks moves →
        (first.firedIn moves).Pairwise fun a b => a.before b = true) := by
  intro first r
  have hfirst : first.Scheduled := scheduled_start clock limits timed sink sampler trigger timeout
  have h : r.Scheduled := hfirst.play moves
  refine ⟨h.nodup_holds, h.perm_pendingTimers, ?_, ?_, hfirst.pairwise_firedIn⟩
  · intro id
    have hcount := hfirst.departures_play moves id
    have hnone : first.departures id = 0 := if_neg (by simp [first, start])
    rw [hnone, Nat.zero_add] at hcount
    exact hcount.symm
  · intro id hlt hinactive more
    have hcount := h.departures_play more id
    have hone : r.departures id = 1 := if_pos ⟨hlt, hinactive⟩
    have hle := (r.play more).departures_le_one id
    have hexits : r.exits id more = [] := List.length_eq_zero_iff.mp (by omega)
    have hlater : (r.play more).isActive id = false := by
      by_contra hactive
      have hzero : (r.play more).departures id = 0 := if_neg fun hp => hactive hp.2
      omega
    refine ⟨hlater, ?_, hexits, ?_⟩
    · unfold Recorder.upgrade
      split
      · rfl
      · rw [if_neg (by simp [hlater])]
    · rintro timer hm rfl
      exact exits_ne_nil_of_firedIn hm hexits

/-- Two of three holds time out, the one that was taken last first. -/
theorem deadlines_play_two_fired :
    let first := start default .standard true .batch .discarding 100 0
    let moves : List Move := [.create 0 (.ofNumbers 1 1) (.named ""), .hold 0 9, .hold 0 4,
      .hold 0 2, .closeHold 0 1 3, .setClock ⟨20, 0, 0⟩, .expire 0 5]
    Forward (default : Clock).ticks moves ∧
      (first.firedIn moves).Pairwise (fun a b => a.before b = true) ∧
      first.firedIn moves = [⟨2, 2⟩, ⟨9, 0⟩] := by
  intro first moves
  have hf : Forward (default : Clock).ticks moves := ⟨by decide, trivial⟩
  obtain ⟨-, -, -, -, horder⟩ := deadlines_play default .standard true .batch .discarding 100 0 moves
  exact ⟨hf, horder hf, by decide +kernel⟩

end SpanRelay.Recorder
