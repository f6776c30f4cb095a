import SpanRelay.Proofs.Calls
import SpanRelay.Proofs.Span
import SpanRelay.Span.Contention

/-!
What a step of a call on a span can do while other calls are in progress. A call stays with its own
moves and points, and it swaps the state only for another one that its move leads to.
-/
namespace SpanRelay

/-! ## Points of a call -/

/-- The moves that are made under the lock. -/
def StateMove.isLocked : StateMove → Bool
  | discard | hold | release => true
  | beginEnd | finishEnd | process => false

namespace CallPoint

def move? : CallPoint → Option StateMove
  | loading move | swapping move _ => some move
  | _ => none

def isLocked : CallPoint → Bool
  | loading move | swapping move _ => move.isLocked
  | freeing | addingHold | clearingHolds | unlocking _ => true
  | _ => false

def hasReturned : CallPoint → Bool
  | returned _ => true
  | _ => false

end CallPoint

namespace SpanCall

def moves : SpanCall → List StateMove
  | finish _ => [.beginEnd, .finishEnd, .process]
  | discard => [.discard]
  | hold _ => [.hold]
  | release _ _ => [.release, .process]

/-- The points at which a call neither makes a move nor has returned. -/
def points : SpanCall → List CallPoint
  | finish _ => [.recordingEnd, .handingOver]
  | discard =>
    [.locking, .clearingHolds, .unlocking (.returned false), .unlocking .sealing, .sealing]
  | hold _ =>
    [.locking, .addingHold, .unlocking (.returned false), .unlocking (.returned true)]
  | release _ _ =>
    [.locking, .freeing, .unlocking (.returned false), .unlocking (.returned true),
      .unlocking .handingOver, .handingOver]

/-- A call stays with its own moves and points, and swaps a state for another one only. -/
def CanBeAt (call : SpanCall) : CallPoint → Prop
  | .returned _ => True
  | .loading move => move ∈ call.moves
  | .swapping move seen => move ∈ call.moves ∧ ∃ next, move.target? seen = some next ∧ next ≠ seen
  | point => point ∈ call.points

theorem canBeAt_firstPoint (call : SpanCall) : call.CanBeAt call.firstPoint := by
  cases call <;> simp [firstPoint, CanBeAt, moves, points]

theorem canBeAt_refused {call : SpanCall} {move : StateMove} (h : move ∈ call.moves) :
    call.CanBeAt move.refused := by
  cases call <;> cases move <;> simp_all [moves, points, StateMove.refused, CanBeAt]

theorem canBeAt_taken {call : SpanCall} {move : StateMove} (h : move ∈ call.moves)
    (origin : SpanState) : call.CanBeAt (move.taken origin) := by
  cases call <;> cases move <;> simp [moves] at h <;> dsimp only [StateMove.taken]
  case finish.finishEnd | release.release => split <;> simp [CanBeAt, points]
  all_goals simp [CanBeAt, points]

end SpanCall

namespace StateMove

variable {move : StateMove} {s t : SpanState}

/-- A final state allows no move to another one. -/
theorem not_isFinal (h : move.target? s = some t) (hne : t ≠ s) : s.isFinal = false := by
  cases move <;> cases s <;> simp_all [target?, SpanState.beginEnd?, SpanState.finishEnd?,
    SpanState.discard?, SpanState.process?, SpanState.hold?, SpanState.release?, SpanState.isFinal]

/-- A move onto the same state holds a span that is held, or discards one that is discarded. -/
theorem eq_of_target?_self (h : move.target? s = some s) :
    move = .hold ∨ move = .discard ∧ s = .discarded := by
  cases move <;> cases s <;> simp_all [target?, SpanState.beginEnd?, SpanState.finishEnd?,
    SpanState.discard?, SpanState.process?, SpanState.hold?, SpanState.release?]

end StateMove

namespace SpanContest

/-- No call is in progress. -/
def IsIdle (c : SpanContest) : Prop := ∀ e ∈ c.calls, e.2.hasReturned = true

/-! ## Steps of a call -/

/-- The state of the span is another one. -/
def setState (c : SpanContest) (state : SpanState) : SpanContest :=
  { c with span := { c.span with state } }

/-- What the next step of a call can be. -/
inductive Step (c : SpanContest) (index : Nat) :
    SpanCall → CallPoint → SpanContest → CallPoint → Prop where
  | lock {call : SpanCall} :
      c.lock = none → Step c index call .locking { c with lock := some index } call.lockedPoint
  | refuse {call : SpanCall} {point : CallPoint} {move : StateMove} :
      point.move? = some move → move.target? c.span.state = none →
        Step c index call point c move.refused
  | keep {call : SpanCall} {point : CallPoint} {move : StateMove} :
      point.move? = some move → move.target? c.span.state = some c.span.state →
        Step c index call point c (move.taken c.span.state)
  | aim {call : SpanCall} {point : CallPoint} {move : StateMove} {next : SpanState} :
      point.move? = some move → move.target? c.span.state = some next → next ≠ c.span.state →
        Step c index call point c (.swapping move c.span.state)
  | swap {call : SpanCall} {move : StateMove} {next : SpanState} :
      move.target? c.span.state = some next → next ≠ c.span.state →
        Step c index call (.swapping move c.span.state) (c.setState next) (move.taken c.span.state)
  | recordEnd {time : Ticks} :
      Step c index (.finish time) .recordingEnd { c with span := c.span.recordEnd time }
        (.loading .finishEnd)
  | missing {hold : HoldId} {closeTime : Option Ticks} :
      c.span.free? hold closeTime = none →
        Step c index (.release hold closeTime) .freeing c (.unlocking (.returned false))
  | free {hold : HoldId} {closeTime : Option Ticks} {timer : Timer} {span : Span} :
      c.span.free? hold closeTime = some (timer, span) → span.pending ≠ [] →
        Step c index (.release hold closeTime) .freeing { c with span }
          (.unlocking (.returned true))
  | freeLast {hold : HoldId} {closeTime : Option Ticks} {timer : Timer} {span : Span} :
      c.span.free? hold closeTime = some (timer, span) → span.pending = [] →
        Step c index (.release hold closeTime) .freeing { c with span } (.loading .release)
  | addHold {deadline : Nanos} :
      Step c index (.hold deadline) .addingHold
        { c with span := c.span.addTimer ⟨deadline, c.nextHold⟩, nextHold := c.nextHold + 1 }
        (.unlocking (.returned true))
  | clear {call : SpanCall} :
      Step c index call .clearingHolds { c with span := c.span.dropTimers } (.unlocking .sealing)
  | unlock {call : SpanCall} {after : CallPoint} :
      Step c index call (.unlocking after) { c with lock := none } after
  | freeze {call : SpanCall} :
      Step c index call .sealing { c with span := c.span.freeze } (.returned true)
  | handOver {call : SpanCall} :
      Step c index call .handingOver { c with handOvers := c.handOvers + 1 }
        (if c.claims then .loading .process else .returned true)

variable {c d t : SpanContest} {i : Nat} {call : SpanCall} {point next : CallPoint}
  {move : StateMove} {spurious : Bool}

/-- A call that looks at the state tries its move. -/
theorem step_seen (h : point.move? = some move) :
    c.Step i call point c (move.seen c.span.state) := by
  unfold StateMove.seen
  split
  next hnone => exact .refuse h hnone
  next next hnext =>
    split
    next heq =>
      subst heq
      exact .keep h hnext
    next hne => exact .aim h hnext hne

theorem step_of_advance? (ha : call.CanBeAt point)
    (h : c.advance? i call spurious point = some (d, next)) : c.Step i call point d next := by
  unfold advance? at h
  split at h
  · split at h
    next hlock =>
      obtain ⟨rfl, rfl⟩ := Prod.mk.inj (Option.some.inj h)
      exact .lock hlock
    next => contradiction
  · obtain ⟨rfl, rfl⟩ := Prod.mk.inj (Option.some.inj h)
    exact step_seen rfl
  next move seen =>
    split at h
    next hseen =>
      obtain ⟨rfl, -⟩ := hseen
      obtain ⟨-, next, htarget, hne⟩ := ha
      obtain ⟨rfl, rfl⟩ := Prod.mk.inj (Option.some.inj h)
      have hspan : (c.span.move? move.target?).getD c.span = { c.span with state := next } := by
        simp [Span.move?, htarget]
      rw [hspan]
      exact .swap htarget hne
    next =>
      obtain ⟨rfl, rfl⟩ := Prod.mk.inj (Option.some.inj h)
      exact step_seen rfl
  · split at h
    · obtain ⟨rfl, rfl⟩ := Prod.mk.inj (Option.some.inj h)
      exact .recordEnd
    · contradiction
  · split at h
    · split at h
      next hfree =>
        obtain ⟨rfl, rfl⟩ := Prod.mk.inj (Option.some.inj h)
        exact .missing hfree
      next timer span hfree =>
        obtain ⟨rfl, rfl⟩ := Prod.mk.inj (Option.some.inj h)
        split
        next hempty => exact .freeLast hfree (List.isEmpty_iff.mp hempty)
        next hempty => exact .free hfree (mt List.isEmpty_iff.mpr hempty)
    · contradiction
  · split at h
    · obtain ⟨rfl, rfl⟩ := Prod.mk.inj (Option.some.inj h)
      exact .addHold
    · contradiction
  · obtain ⟨rfl, rfl⟩ := Prod.mk.inj (Option.some.inj h)
    exact .clear
  · obtain ⟨rfl, rfl⟩ := Prod.mk.inj (Option.some.inj h)
    exact .unlock
  · obtain ⟨rfl, rfl⟩ := Prod.mk.inj (Option.some.inj h)
    exact .freeze
  · obtain ⟨rfl, rfl⟩ := Prod.mk.inj (Option.some.inj h)
    exact .handOver
  · contradiction

theorem Step.calls_eq (hs : c.Step i call point d next) : d.calls = c.calls := by
  cases hs <;> rfl

theorem mem_moves (h : call.CanBeAt point) (hmove : point.move? = some move) :
    move ∈ call.moves := by
  cases point <;> cases hmove
  · exact h
  · exact h.1

theorem Step.canBeAt (hs : c.Step i call point d next) (h : call.CanBeAt point) :
    call.CanBeAt next := by
  cases hs with
  | lock => 
    cases call <;>
      simp_all [SpanCall.CanBeAt, SpanCall.points, SpanCall.lockedPoint, SpanCall.moves]
  | refuse hmove _ => exact SpanCall.canBeAt_refused (mem_moves h hmove)
  | keep hmove _ => exact SpanCall.canBeAt_taken (mem_moves h hmove) _
  | aim hmove htarget hne => exact ⟨mem_moves h hmove, _, htarget, hne⟩
  | swap => exact SpanCall.canBeAt_taken h.1 _
  | recordEnd | freeLast => simp [SpanCall.CanBeAt, SpanCall.moves]
  | missing | free | addHold => simp [SpanCall.CanBeAt, SpanCall.points]
  | freeze => trivial
  | clear => cases call <;> simp_all [SpanCall.CanBeAt, SpanCall.points]
  | unlock => cases call <;> cases next <;> simp_all [SpanCall.CanBeAt, SpanCall.points]
  | handOver =>
    split
    · cases call <;> simp_all [SpanCall.CanBeAt, SpanCall.points, SpanCall.moves]
    · trivial

theorem Step.state_of_isFinal (hs : c.Step i call point t next)
    (hf : c.span.state.isFinal = true) : t.span.state = c.span.state := by
  cases hs with
  | swap htarget hne => simp [StateMove.not_isFinal htarget hne] at hf
  | free hfree | freeLast hfree => exact (Span.free?_eq_some hfree).2.2
  | _ => rfl

/-- An event is a new call or a step of a call in progress. -/
theorem event?_cases {event : SpanEvent}
    (hat : ∀ {i : Nat} {e}, c.calls[i]? = some e → e.1.CanBeAt e.2) (h : c.event? event = some d) :
    (∃ call, event = .call call ∧ d = { c with calls := c.calls ++ [(call, call.firstPoint)] }) ∨
    ∃ i spurious call point t next, event = .step i spurious ∧ c.calls[i]? = some (call, point) ∧
      c.Step i call point t next ∧ d = { t with calls := t.calls.set i (call, next) } := by
  cases event with
  | call call => exact .inl ⟨call, rfl, (Option.some.inj h).symm⟩
  | step i spurious =>
    unfold event? at h
    dsimp only at h
    split at h
    · contradiction
    next call point hi =>
      obtain ⟨⟨t, next⟩, hnext, rfl⟩ := Option.map_eq_some_iff.mp h
      exact .inr ⟨i, spurious, call, point, t, next, rfl, hi, step_of_advance? (hat hi) hnext, rfl⟩

/-- What each event keeps is kept by every run. -/
theorem run?_keeps {P : SpanContest → Prop}
    (hevent : ∀ {x y event}, P x → event? x event = some y → P y) {events : List SpanEvent}
    (hr : c.run? events = some d) (h : P c) : P d := by
  induction events generalizing c with
  | nil =>
    obtain rfl := Option.some.inj hr
    exact h
  | cons event rest ih =>
    obtain ⟨e, he, hrest⟩ := Option.bind_eq_some_iff.mp hr
    exact ih hrest (hevent h he)

theorem run?_append (c : SpanContest) (events rest : List SpanEvent) :
    c.run? (events ++ rest) = (c.run? events).bind (run? · rest) := by
  induction events generalizing c with
  | nil => rfl
  | cons event events ih =>
    simp only [List.cons_append, run?, Option.bind_assoc]
    exact congrArg _ (funext fun d => ih d)

end SpanContest
end SpanRelay
