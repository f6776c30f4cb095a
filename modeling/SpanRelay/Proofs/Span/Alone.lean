import SpanRelay.Proofs.Span.Contest

/-!
A call on a span that no other call comes between is the operation: its steps make and refuse the
same moves, change the span alike and hand it over under the same condition.
-/
namespace SpanRelay.SpanContest

variable {c d t : SpanContest} {i : Nat} {call : SpanCall} {point next : CallPoint}

/-- A call takes some steps, and no other call takes one in between. -/
def Proceeds (i : Nat) (c d : SpanContest) : Prop :=
  ∃ n, c.run? (List.replicate n (.step i false)) = some d

/-- The newest call is at this point. -/
def withCall (c : SpanContest) (call : SpanCall) (point : CallPoint) : SpanContest :=
  { c with calls := c.calls ++ [(call, point)] }

/-- The newest call is at this point and has the lock. -/
def locked (c : SpanContest) (call : SpanCall) (point : CallPoint) : SpanContest :=
  { c with lock := some c.calls.length }.withCall call point

/-- What a call leaves that has returned: its answer, and the span, which the receiver has claimed
if it was handed over. -/
def settled (c : SpanContest) (call : SpanCall) (won ready : Bool) (span : Span) : SpanContest :=
  { c with
    span := if ready && c.claims then span.process?.getD span else span
    handOvers := c.handOvers + ready.toNat }.withCall call (.returned won)

/-! ## Steps -/

theorem Proceeds.trans (h : Proceeds i c d) (g : Proceeds i d t) : Proceeds i c t := by
  obtain ⟨n, hn⟩ := h
  obtain ⟨m, hm⟩ := g
  refine ⟨n + m, ?_⟩
  rw [List.replicate_add, run?_append, hn, Option.bind_some, hm]

theorem proceeds_step (h : (c.withCall call point).advance? c.calls.length call false point =
      some (t.withCall call point, next)) (hcalls : t.calls = c.calls) :
    Proceeds c.calls.length (c.withCall call point) (t.withCall call next) := by
  refine ⟨1, ?_⟩
  have hcall : (c.withCall call point).calls[c.calls.length]? = some (call, point) := by
    simp [withCall]
  simp only [List.replicate_one, run?, event?, hcall, h, Option.map_some, Option.bind_some]
  simp [withCall, hcalls]

theorem proceeds_refuse (call : SpanCall) (move : StateMove)
    (hnone : move.target? c.span.state = none) :
    Proceeds c.calls.length (c.withCall call (.loading move)) (c.withCall call move.refused) := by
  refine proceeds_step ?_ rfl
  change some (_, move.seen c.span.state) = _
  simp only [StateMove.seen, hnone]

theorem proceeds_take (call : SpanCall) (move : StateMove) {state : SpanState}
    (htarget : move.target? c.span.state = some state) :
    Proceeds c.calls.length (c.withCall call (.loading move))
      ((c.setState state).withCall call (move.taken c.span.state)) := by
  have hload : Proceeds c.calls.length (c.withCall call (.loading move))
      (c.withCall call (move.seen c.span.state)) := proceeds_step rfl rfl
  simp only [StateMove.seen, htarget] at hload
  by_cases hsame : state = c.span.state
  · subst hsame
    rwa [if_pos rfl] at hload
  · rw [if_neg hsame] at hload
    refine hload.trans (proceeds_step ?_ rfl)
    simp [advance?, Span.move?, withCall, setState, htarget]

theorem proceeds_lock (call : SpanCall) (hlock : c.lock = none) :
    Proceeds c.calls.length (c.withCall call .locking) (c.locked call call.lockedPoint) :=
  proceeds_step (if_pos hlock) rfl

theorem proceeds_unlock (call : SpanCall) (after : CallPoint) (hlock : c.lock = none) :
    Proceeds c.calls.length (c.locked call (.unlocking after)) (c.withCall call after) := by
  obtain ⟨span, claims, lock, nextHold, handOvers, calls⟩ := c
  obtain rfl : lock = none := hlock
  let t : SpanContest := ⟨span, claims, some calls.length, nextHold, handOvers, calls⟩
  exact proceeds_step (c := t) rfl rfl

theorem proceeds_handOver (c : SpanContest) (call : SpanCall) :
    Proceeds c.calls.length (c.withCall call .handingOver) (c.settled call true true c.span) := by
  let t : SpanContest := { c with handOvers := c.handOvers + 1 }
  have hstep : Proceeds c.calls.length (c.withCall call .handingOver)
      (t.withCall call (if c.claims then .loading .process else .returned true)) :=
    proceeds_step rfl rfl
  cases hclaims : c.claims with
  | false => simpa [hclaims, t, settled] using hstep
  | true =>
    have hsettled : c.settled call true true c.span =
        { t with span := c.span.process?.getD c.span }.withCall call (.returned true) := by
      simp [settled, hclaims, t]
    rw [hclaims] at hstep
    rw [hsettled]
    refine hstep.trans ?_
    unfold Span.process? Span.move?
    cases hprocess : c.span.state.process? with
    | none => exact proceeds_refuse call .process (c := t) hprocess
    | some state => exact proceeds_take call .process (c := t) hprocess

/-- A call hands the span over if it is ready, and returns. -/
theorem proceeds_settled (c : SpanContest) (call : SpanCall) (ready : Prop) [Decidable ready] :
    Proceeds c.calls.length (c.withCall call (if ready then .handingOver else .returned true))
      (c.settled call true ready c.span) := by
  by_cases h : ready
  · rw [if_pos h, decide_eq_true h]
    exact proceeds_handOver c call
  · rw [if_neg h, decide_eq_false h]
    exact ⟨0, rfl⟩

/-! ## Calls -/

theorem finish_alone (c : SpanContest) (time : Ticks) :
    Proceeds c.calls.length (c.withCall (.finish time) (SpanCall.finish time).firstPoint)
      (match c.span.beginEnd? with
      | none => c.settled (.finish time) false false c.span
      | some begun =>
        let (ready, finished) := (begun.recordEnd time).finishEnd
        c.settled (.finish time) true ready finished) := by
  unfold Span.beginEnd? Span.move?
  cases hbegin : c.span.state.beginEnd? with
  | none => exact proceeds_refuse _ .beginEnd hbegin
  | some begun =>
    let t : SpanContest := { c with span := { c.span with state := begun, endMark := time } }
    have hrecorded : Proceeds c.calls.length
        ((c.setState begun).withCall (.finish time) .recordingEnd)
        (t.withCall (.finish time) (.loading .finishEnd)) :=
      proceeds_step (c := c.setState begun) rfl rfl
    refine (proceeds_take _ .beginEnd hbegin).trans (hrecorded.trans ?_)
    change Proceeds t.calls.length _
      (t.settled (.finish time) true t.span.finishEnd.1 t.span.finishEnd.2)
    unfold Span.finishEnd Span.move?
    cases hfinish : t.span.state.finishEnd? with
    | none => exact proceeds_refuse _ .finishEnd hfinish
    | some state =>
      refine (proceeds_take _ .finishEnd hfinish).trans ?_
      exact proceeds_settled (t.setState state) _ _

theorem discard_alone (hlock : c.lock = none) :
    Proceeds c.calls.length (c.withCall .discard SpanCall.discard.firstPoint)
      (match c.span.discard? with
      | none => c.settled .discard false false c.span
      | some (_, discarded) => c.settled .discard true false discarded.freeze) := by
  let t : SpanContest := { c with lock := some c.calls.length }
  refine (proceeds_lock _ hlock).trans ?_
  unfold Span.discard? Span.move?
  cases hdiscard : c.span.state.discard? with
  | none =>
    exact (proceeds_refuse _ .discard (c := t) hdiscard).trans (proceeds_unlock _ _ hlock)
  | some state =>
    let u : SpanContest := { c with span := { c.span with state, pending := [] } }
    have hcleared : Proceeds c.calls.length ((t.setState state).withCall .discard .clearingHolds)
        (u.locked .discard (.unlocking .sealing)) := proceeds_step (c := t.setState state) rfl rfl
    have hsealed : Proceeds c.calls.length (u.withCall .discard .sealing)
        (c.settled .discard true false u.span.freeze) := proceeds_step (c := u) rfl rfl
    refine (proceeds_take _ .discard (c := t) hdiscard).trans ?_
    exact hcleared.trans ((proceeds_unlock (c := u) _ _ hlock).trans hsealed)

theorem hold_alone (deadline : Nanos) (hlock : c.lock = none) :
    Proceeds c.calls.length (c.withCall (.hold deadline) (SpanCall.hold deadline).firstPoint)
      (match c.span.hold? ⟨deadline, c.nextHold⟩ with
      | none => c.settled (.hold deadline) false false c.span
      | some held =>
        { c with nextHold := c.nextHold + 1 }.settled (.hold deadline) true false held) := by
  let t : SpanContest := { c with lock := some c.calls.length }
  refine (proceeds_lock _ hlock).trans ?_
  unfold Span.hold? Span.move?
  cases hhold : c.span.state.hold? with
  | none => exact (proceeds_refuse _ .hold (c := t) hhold).trans (proceeds_unlock _ _ hlock)
  | some state =>
    let u : SpanContest := { c with
      span := { c.span with state }.addTimer ⟨deadline, c.nextHold⟩
      nextHold := c.nextHold + 1 }
    have hadded : Proceeds c.calls.length
        ((t.setState state).withCall (.hold deadline) .addingHold)
        (u.locked (.hold deadline) (.unlocking (.returned true))) :=
      proceeds_step (c := t.setState state) rfl rfl
    refine (proceeds_take _ .hold (c := t) hhold).trans ?_
    exact hadded.trans (proceeds_unlock (c := u) _ _ hlock)

theorem release_alone (hold : HoldId) (closeTime : Option Ticks) (hlock : c.lock = none) :
    Proceeds c.calls.length
      (c.withCall (.release hold closeTime) (SpanCall.release hold closeTime).firstPoint)
      (match c.span.release? hold closeTime with
      | none => c.settled (.release hold closeTime) false false c.span
      | some freed => c.settled (.release hold closeTime) true freed.handOver freed.span) := by
  let t : SpanContest := { c with lock := some c.calls.length }
  refine (proceeds_lock _ hlock).trans ?_
  unfold Span.release?
  cases hfree : c.span.free? hold closeTime with
  | none =>
    have hmissing : Proceeds c.calls.length (t.withCall (.release hold closeTime) .freeing)
        (c.locked (.release hold closeTime) (.unlocking (.returned false))) :=
      proceeds_step (c := t) (by simp [advance?, withCall, t, hfree]) rfl
    exact hmissing.trans (proceeds_unlock _ _ hlock)
  | some found =>
    obtain ⟨timer, freed⟩ := found
    have hstate := (Span.free?_eq_some hfree).2.2
    let u : SpanContest := { c with span := freed }
    let v : SpanContest := { u with lock := some c.calls.length }
    have hfreed : Proceeds c.calls.length (t.withCall (.release hold closeTime) .freeing)
        (u.locked (.release hold closeTime)
          (if freed.pending.isEmpty then .loading .release else .unlocking (.returned true))) :=
      proceeds_step (c := t) (by simp [advance?, withCall, t, u, hfree]) rfl
    refine hfreed.trans ?_
    by_cases hlast : freed.pending.isEmpty = true
    · simp only [Option.map_some, hlast, if_true]
      unfold Span.move?
      cases hrelease : freed.state.release? with
      | none =>
        refine (proceeds_refuse _ .release (c := v) hrelease).trans ?_
        exact proceeds_unlock (c := u) _ _ hlock
      | some state =>
        refine (proceeds_take _ .release (c := v) hrelease).trans ?_
        refine (proceeds_unlock (c := u.setState state) _ _ hlock).trans ?_
        change Proceeds _ (withCall _ _ (if freed.state = .endedHeld then _ else _)) _
        rw [hstate]
        exact proceeds_settled (u.setState state) _ _
    · simp only [Option.map_some, hlast]
      exact proceeds_unlock (c := u) _ _ hlock

end SpanRelay.SpanContest
