import SpanRelay.Proofs.Span.Contest

/-!
How many calls on a span are at which points. The state of the span tells how many calls have begun
the end and not completed it, how many have won the race for it, and whether one has discarded the
span; a span that is due is with one call that hands it over, or was handed over. Each step of a
call keeps that, whatever the other calls count.
-/
namespace SpanRelay

namespace CallPoint

/-- The call has begun the end and not completed it. -/
def isEnding : CallPoint → Bool
  | loading .finishEnd | swapping .finishEnd _ | recordingEnd => true
  | _ => false

/-- The call is to hand the span over. -/
def isHandingOver : CallPoint → Bool
  | handingOver | unlocking handingOver => true
  | _ => false

def isClaiming : CallPoint → Bool
  | loading .process | swapping .process _ => true
  | _ => false

end CallPoint

namespace SpanCall

/-- The call has won the race for the end. -/
def hasWon : SpanCall × CallPoint → Bool
  | (finish _, .loading .beginEnd) | (finish _, .swapping .beginEnd _)
  | (finish _, .returned false) => false
  | (finish _, _) => true
  | _ => false

/-- The call has discarded the span, or found it so. -/
def hasDiscarded : SpanCall × CallPoint → Bool
  | (discard, .clearingHolds) | (discard, .unlocking .sealing) | (discard, .sealing)
  | (discard, .returned true) => true
  | _ => false

end SpanCall

namespace SpanState

/-- The end has begun and is not complete. -/
def isEnding : SpanState → Bool
  | ending | endingHeld => true
  | _ => false

/-- How many calls are between the beginning and the completion of the end. -/
def Awaits : SpanState → Nat → Prop
  | ending, n | endingHeld, n => n = 1
  | discarded, n => n ≤ 1
  | _, n => n = 0

/-- How many calls have won the race for the end. -/
def Grants : SpanState → Nat → Prop
  | opened, n | openedHeld, n => n = 0
  | discarded, n => n ≤ 1
  | _, n => n = 1

end SpanState

namespace SpanContest

variable {c d t : SpanContest} {i : Nat} {call : SpanCall} {point next : CallPoint}
  {move : StateMove}

/-! ## What calls have answered -/

/-- A call has answered that it ended the span. -/
def EndReported (c : SpanContest) : Prop := ∃ time, (.finish time, .returned true) ∈ c.calls

/-- A call has answered that it discarded the span. -/
def DiscardReported (c : SpanContest) : Prop := (.discard, .returned true) ∈ c.calls

theorem endReported_iff (hidle : c.IsIdle) :
    c.EndReported ↔ 1 ≤ c.calls.countP SpanCall.hasWon := by
  rw [Nat.succ_le_iff, List.countP_pos_iff]
  constructor
  · rintro ⟨time, hmem⟩
    exact ⟨_, hmem, rfl⟩
  · rintro ⟨⟨call, point⟩, hmem, hwon⟩
    have hreturned := hidle _ hmem
    cases point with
    | returned won =>
      cases call <;> cases won <;> first
        | contradiction
        | exact ⟨_, hmem⟩
    | _ => contradiction

theorem discardReported_iff (hidle : c.IsIdle) :
    c.DiscardReported ↔ 1 ≤ c.calls.countP SpanCall.hasDiscarded := by
  rw [Nat.succ_le_iff, List.countP_pos_iff]
  constructor
  · exact fun hmem => ⟨_, hmem, rfl⟩
  · rintro ⟨⟨call, point⟩, hmem, hdiscarded⟩
    have hreturned := hidle _ hmem
    cases point with
    | returned won =>
      cases call <;> cases won <;> first
        | contradiction
        | exact hmem
    | _ => contradiction

/-! ## How many calls are where -/

/-- The state of the span tells how many calls are on the way, and what became of it. -/
structure Counted (c : SpanContest) : Prop where
  canBeAt : ∀ {i : Nat} {e}, c.calls[i]? = some e → e.1.CanBeAt e.2
  ending : c.span.state.Awaits (c.calls.countP fun e => e.2.isEnding)
  handOvers : c.handOvers + (c.calls.countP fun e => e.2.isHandingOver) = c.span.state.isDue.toNat
  claiming : ∀ {i : Nat} {e}, c.calls[i]? = some e → e.2.isClaiming = true → 1 ≤ c.handOvers
  won : c.span.state.Grants (c.calls.countP SpanCall.hasWon)
  discarded : 1 ≤ c.calls.countP SpanCall.hasDiscarded ↔ c.span.state = .discarded

/-- A step keeps what the state tells, whatever the other calls count. -/
structure Tallies (c : SpanContest) (call : SpanCall) (point : CallPoint) (t : SpanContest)
    (next : CallPoint) : Prop where
  ending : ∀ n, c.span.state.Awaits (n + point.isEnding.toNat) →
    t.span.state.Awaits (n + next.isEnding.toNat)
  handOvers : t.handOvers + next.isHandingOver.toNat + c.span.state.isDue.toNat =
    c.handOvers + point.isHandingOver.toNat + t.span.state.isDue.toNat
  claiming : next.isClaiming = true → 1 ≤ t.handOvers
  won : ∀ n, c.span.state.Grants (n + (SpanCall.hasWon (call, point)).toNat) →
    t.span.state.Grants (n + (SpanCall.hasWon (call, next)).toNat)
  discarded : ∀ n, (1 ≤ n + (SpanCall.hasDiscarded (call, point)).toNat ↔
      c.span.state = .discarded) →
    (1 ≤ n + (SpanCall.hasDiscarded (call, next)).toNat ↔ t.span.state = .discarded)
  more : c.handOvers ≤ t.handOvers

theorem Counted.isDue_of_pos (h : c.Counted) (hpos : 1 ≤ c.handOvers) :
    c.span.state.isDue = true := by
  have hcount := h.handOvers
  cases hdue : c.span.state.isDue with
  | true => rfl
  | false =>
    rw [hdue, Bool.toNat_false] at hcount
    omega

/-- A step that changes no count. -/
theorem tallies_of_same (hstate : t.span.state = c.span.state) (hmore : t.handOvers = c.handOvers)
    (hending : next.isEnding = point.isEnding) (hover : next.isHandingOver = point.isHandingOver)
    (hclaim : next.isClaiming = true → 1 ≤ c.handOvers)
    (hwon : SpanCall.hasWon (call, next) = SpanCall.hasWon (call, point))
    (hdiscarded : SpanCall.hasDiscarded (call, next) = SpanCall.hasDiscarded (call, point)) :
    c.Tallies call point t next where
  ending n h := by rwa [hstate, hending]
  handOvers := by rw [hstate, hover, hmore]
  claiming hnext := hmore ▸ hclaim hnext
  won n h := by rwa [hstate, hwon]
  discarded n h := by rwa [hstate, hdiscarded]
  more := hmore ▸ Nat.le_refl _

/-- A call counts alike while it looks at the state and while it is to swap it. -/
theorem Tallies.of_move? (h : c.Tallies call (.loading move) t next)
    (hmove : point.move? = some move) : c.Tallies call point t next := by
  cases point <;> cases hmove
  · exact h
  · cases call <;> cases move <;>
      exact ⟨h.ending, h.handOvers, h.claiming, h.won, h.discarded, h.more⟩

theorem tallies_aim (hmem : move ∈ call.moves) (seen : SpanState)
    (hclaim : move = .process → 1 ≤ c.handOvers) :
    c.Tallies call (.loading move) c (.swapping move seen) := by
  cases call <;> cases move <;> simp [SpanCall.moves] at hmem <;>
    exact tallies_of_same rfl rfl rfl rfl (fun h => by first | exact hclaim rfl | cases h) rfl rfl

theorem tallies_refuse (hmem : move ∈ call.moves) (hnone : move.target? c.span.state = none) :
    c.Tallies call (.loading move) c move.refused := by
  cases move with
  | finishEnd =>
    cases call <;> simp [SpanCall.moves] at hmem
    refine ⟨fun n hn => ?_, rfl, fun h => (by cases h), fun n hn => hn, fun n hn => hn,
      Nat.le_refl _⟩
    change SpanState.Awaits _ (n + 1) at hn
    change SpanState.Awaits _ n
    cases hstate : c.span.state <;>
      simp_all [SpanState.Awaits, StateMove.target?, SpanState.finishEnd?]
  | _ =>
    cases call <;> simp [SpanCall.moves] at hmem <;>
      exact tallies_of_same rfl rfl rfl rfl (fun h => by cases h) rfl rfl

theorem tallies_keep (hmem : move ∈ call.moves)
    (hsame : move.target? c.span.state = some c.span.state) :
    c.Tallies call (.loading move) c (move.taken c.span.state) := by
  rcases StateMove.eq_of_target?_self hsame with rfl | ⟨rfl, hstate⟩
  · cases call <;> simp [SpanCall.moves] at hmem
    exact tallies_of_same rfl rfl rfl rfl (fun h => by cases h) rfl rfl
  · cases call <;> simp [SpanCall.moves] at hmem
    refine ⟨fun n hn => hn, rfl, fun h => (by cases h), fun n hn => hn, fun n _ => ?_,
      Nat.le_refl _⟩
    simp [hstate, SpanCall.hasDiscarded, StateMove.taken]

theorem tallies_swap (hmem : move ∈ call.moves) {state : SpanState}
    (htarget : move.target? c.span.state = some state) (hne : state ≠ c.span.state)
    (hclaim : move = .process → c.span.state.isDue = true) :
    c.Tallies call (.loading move) (c.setState state) (move.taken c.span.state) := by
  -- one case a move of a call and a state that allows it
  cases call <;> cases move <;> simp [SpanCall.moves] at hmem <;>
    cases hstate : c.span.state <;> simp [hstate, StateMove.target?, SpanState.beginEnd?,
      SpanState.finishEnd?, SpanState.discard?, SpanState.process?, SpanState.hold?,
      SpanState.release?, SpanState.isDue] at htarget hclaim hne <;>
    subst htarget <;> try contradiction
  all_goals
    constructor <;> simp [hstate, setState, SpanState.Awaits, SpanState.Grants, SpanState.isDue,
      StateMove.taken, CallPoint.isEnding, CallPoint.isHandingOver, CallPoint.isClaiming,
      SpanCall.hasWon, SpanCall.hasDiscarded]

theorem tallies_unlock (hat : call.CanBeAt (.unlocking next)) :
    c.Tallies call (.unlocking next) { c with lock := none } next := by
  cases next with
  | sealing | handingOver =>
    cases call <;> exact tallies_of_same rfl rfl rfl rfl (fun h => by cases h) rfl rfl
  | returned won =>
    cases call <;> cases won <;> first
      | exact tallies_of_same rfl rfl rfl rfl (fun h => by cases h) rfl rfl
      | simp [SpanCall.CanBeAt, SpanCall.points] at hat
  | _ => cases call <;> simp [SpanCall.CanBeAt, SpanCall.points] at hat

theorem tallies_handOver (hat : call.CanBeAt .handingOver) :
    c.Tallies call .handingOver { c with handOvers := c.handOvers + 1 }
      (if c.claims then .loading .process else .returned true) := by
  cases call with
  | discard | hold => simp [SpanCall.CanBeAt, SpanCall.points] at hat
  | _ =>
    split <;>
      exact ⟨fun n h => h, by simp [CallPoint.isHandingOver], fun _ => Nat.le_add_left ..,
        fun n h => h, fun n h => h, Nat.le_add_right ..⟩

theorem isClaiming_of_move? (hmove : point.move? = some .process) : point.isClaiming = true := by
  cases point <;> cases hmove <;> rfl

theorem Step.tallies (hs : c.Step i call point t next) (h : c.Counted)
    (hi : c.calls[i]? = some (call, point)) : c.Tallies call point t next := by
  have hat := h.canBeAt hi
  have hclaims {move : StateMove} (hmove : point.move? = some move) (hp : move = .process) :
      1 ≤ c.handOvers := by
    subst hp
    exact h.claiming hi (isClaiming_of_move? hmove)
  cases hs with
  | refuse hmove hnone => exact (tallies_refuse (mem_moves hat hmove) hnone).of_move? hmove
  | keep hmove hsame => exact (tallies_keep (mem_moves hat hmove) hsame).of_move? hmove
  | aim hmove => exact (tallies_aim (mem_moves hat hmove) _ (hclaims hmove)).of_move? hmove
  | swap htarget hne =>
    exact (tallies_swap hat.1 htarget hne fun hp => h.isDue_of_pos (hclaims rfl hp)).of_move? rfl
  | free hfree | freeLast hfree =>
    exact tallies_of_same (Span.free?_eq_some hfree).2.2 rfl rfl rfl (fun h => by cases h) rfl rfl
  | lock | clear | freeze =>
    cases call <;> first
      | exact tallies_of_same rfl rfl rfl rfl (fun h => by cases h) rfl rfl
      | simp [SpanCall.CanBeAt, SpanCall.points] at hat
  | unlock => exact tallies_unlock hat
  | handOver => exact tallies_handOver hat
  | _ => exact tallies_of_same rfl rfl rfl rfl (fun h => by cases h) rfl rfl

namespace Counted

theorem step (h : c.Counted) (hi : c.calls[i]? = some (call, point))
    (hs : c.Step i call point t next) :
    Counted { t with calls := t.calls.set i (call, next) } := by
  have htallies := hs.tallies h hi
  have hentry {j : Nat} {e} (hj : (c.calls.set i (call, next))[j]? = some e) :
      e = (call, next) ∨ c.calls[j]? = some e := by
    rw [getElem?_set_of_some hi] at hj
    split at hj
    · exact .inl (Option.some.inj hj).symm
    · exact .inr hj
  rw [hs.calls_eq]
  exact {
    canBeAt := fun hj => by
      rcases hentry hj with rfl | hj
      · exact hs.canBeAt (h.canBeAt hi)
      · exact h.canBeAt hj
    ending := by
      obtain ⟨n, hcount, hset⟩ := exists_countP_eq hi fun e => e.2.isEnding
      have hending := h.ending
      rw [hcount] at hending
      rw [hset]
      exact htallies.ending n hending
    handOvers := by
      obtain ⟨n, hcount, hset⟩ := exists_countP_eq hi fun e => e.2.isHandingOver
      have hover := h.handOvers
      have hmoved := htallies.handOvers
      rw [hcount] at hover
      rw [hset]
      dsimp only at hover ⊢
      omega
    claiming := fun hj hclaim => by
      rcases hentry hj with rfl | hj
      · exact htallies.claiming hclaim
      · exact Nat.le_trans (h.claiming hj hclaim) htallies.more
    won := by
      obtain ⟨n, hcount, hset⟩ := exists_countP_eq hi SpanCall.hasWon
      have hwon := h.won
      rw [hcount] at hwon
      rw [hset]
      exact htallies.won n hwon
    discarded := by
      obtain ⟨n, hcount, hset⟩ := exists_countP_eq hi SpanCall.hasDiscarded
      have hdiscarded := h.discarded
      rw [hcount] at hdiscarded
      rw [hset]
      exact htallies.discarded n hdiscarded }

theorem begins (h : c.Counted) (call : SpanCall) :
    Counted { c with calls := c.calls ++ [(call, call.firstPoint)] } where
  canBeAt hj := by
    rcases getElem?_concat_eq_some_iff.mp hj with hj | ⟨-, rfl⟩
    · exact h.canBeAt hj
    · exact call.canBeAt_firstPoint
  ending := by
    have hnew : call.firstPoint.isEnding = false := by cases call <;> rfl
    simpa [hnew] using h.ending
  handOvers := by
    have hnew : call.firstPoint.isHandingOver = false := by cases call <;> rfl
    simpa [hnew] using h.handOvers
  claiming hj hclaim := by
    rcases getElem?_concat_eq_some_iff.mp hj with hj | ⟨-, rfl⟩
    · exact h.claiming hj hclaim
    · cases call <;> contradiction
  won := by
    have hnew : SpanCall.hasWon (call, call.firstPoint) = false := by cases call <;> rfl
    simpa [hnew] using h.won
  discarded := by
    have hnew : SpanCall.hasDiscarded (call, call.firstPoint) = false := by cases call <;> rfl
    simpa [hnew] using h.discarded

theorem event? (h : c.Counted) {event : SpanEvent} (he : c.event? event = some d) : d.Counted := by
  rcases event?_cases h.canBeAt he with
    ⟨call, -, rfl⟩ | ⟨i, -, call, point, t, next, -, hi, hs, rfl⟩
  · exact h.begins call
  · exact h.step hi hs

theorem run? (h : c.Counted) {events : List SpanEvent} (hr : c.run? events = some d) :
    d.Counted :=
  run?_keeps (fun h he => h.event? he) hr h

/-! A final state is never left. -/

theorem state_of_isFinal_of_event? (h : c.Counted) {event : SpanEvent}
    (he : c.event? event = some d) (hf : c.span.state.isFinal = true) :
    d.span.state = c.span.state := by
  rcases event?_cases h.canBeAt he with
    ⟨call, -, rfl⟩ | ⟨i, -, call, point, t, next, -, -, hs, rfl⟩
  · rfl
  · exact hs.state_of_isFinal hf

theorem state_of_isFinal_of_run? (h : c.Counted) {events : List SpanEvent}
    (hr : c.run? events = some d) (hf : c.span.state.isFinal = true) :
    d.span.state = c.span.state := by
  refine (run?_keeps (P := fun x => x.Counted ∧ x.span.state = c.span.state) ?_ hr ⟨h, rfl⟩).2
  rintro x y event ⟨hx, hstate⟩ he
  exact ⟨hx.event? he, (hx.state_of_isFinal_of_event? he (hstate ▸ hf)).trans hstate⟩

/-! When no call is in progress, answers are all that is left of the counts. -/

theorem not_isEnding_of_isIdle (h : c.Counted) (hidle : c.IsIdle) :
    c.span.state.isEnding = false := by
  have hcount : (c.calls.countP fun e => e.2.isEnding) = 0 := by
    refine List.countP_eq_zero.mpr fun e he => ?_
    have hreturned := hidle e he
    cases hp : e.2 <;> simp_all [CallPoint.isEnding, CallPoint.hasReturned]
  have hending := h.ending
  rw [hcount] at hending
  cases hstate : c.span.state <;> simp_all [SpanState.Awaits, SpanState.isEnding]

theorem handOvers_of_isIdle (h : c.Counted) (hidle : c.IsIdle) :
    c.handOvers = c.span.state.isDue.toNat := by
  have hcount : (c.calls.countP fun e => e.2.isHandingOver) = 0 := by
    refine List.countP_eq_zero.mpr fun e he => ?_
    have hreturned := hidle e he
    cases hp : e.2 <;> simp_all [CallPoint.isHandingOver, CallPoint.hasReturned]
  have hover := h.handOvers
  omega

/-- The span has ended exactly if a call says so and none has discarded it. -/
theorem hasEnded_iff (h : c.Counted) (hidle : c.IsIdle) :
    c.span.state.hasEnded = true ↔ c.EndReported ∧ c.span.state ≠ .discarded := by
  rw [endReported_iff hidle]
  have hwon := h.won
  have hending := h.not_isEnding_of_isIdle hidle
  cases hstate : c.span.state <;>
    simp_all [SpanState.Grants, SpanState.hasEnded, SpanState.isEnding]

end Counted

theorem counted_start {span : Span} (h : span.state = .opened) (claims : Bool) :
    (start span claims).Counted where
  canBeAt hj := by simp [start] at hj
  ending := by simp [start, h, SpanState.Awaits]
  handOvers := by simp [start, h, SpanState.isDue]
  claiming hj := by simp [start] at hj
  won := by simp [start, h, SpanState.Grants]
  discarded := by simp [start, h]

end SpanContest
end SpanRelay
