import SpanRelay.Proofs.Span.Counts

/-!
Ends against discards of one span. At most one call ends it, and after a discard no call can begin
the end. But a discard may come in between the two moves of an end: then the call that had begun the
end answers that it ended the span although the span is discarded. Main statement: this is the only
way in which an end and a discard both succeed.
-/
namespace SpanRelay.SpanContest

variable {c d t : SpanContest} {i j : Nat} {call : SpanCall} {point next : CallPoint}
  {event : SpanEvent} {events : List SpanEvent}

/-- A discard comes in between the two moves of an end. -/
def Strikes (c : SpanContest) (events : List SpanEvent) : Prop :=
  ∃ before event after b d, events = before ++ event :: after ∧ c.run? before = some b ∧
    b.event? event = some d ∧ b.span.state.isEnding = true ∧ d.span.state = .discarded

/-! ## The moment of a discard -/

theorem hasWon_swapping (call : SpanCall) (move : StateMove) (seen : SpanState) :
    SpanCall.hasWon (call, .swapping move seen) = SpanCall.hasWon (call, .loading move) := by
  cases call <;> cases move <;> rfl

theorem hasWon_of_move? {move : StateMove} (hmove : point.move? = some move) :
    SpanCall.hasWon (call, point) = SpanCall.hasWon (call, .loading move) := by
  cases point <;> cases hmove
  · rfl
  · exact hasWon_swapping ..

/-- Only the move that begins the end makes a call its winner. -/
theorem hasWon_taken {move : StateMove} (hmem : move ∈ call.moves) (hmove : move ≠ .beginEnd)
    (origin : SpanState) :
    SpanCall.hasWon (call, move.taken origin) = SpanCall.hasWon (call, .loading move) := by
  cases call with
  | finish =>
    cases move with
    | beginEnd => contradiction
    | finishEnd =>
      dsimp only [StateMove.taken]
      split <;> rfl
    | process => rfl
    | _ => simp [SpanCall.moves] at hmem
  | _ => rfl

theorem hasWon_refused {move : StateMove} (hmem : move ∈ call.moves) :
    SpanCall.hasWon (call, move.refused) = SpanCall.hasWon (call, .loading move) := by
  cases call <;> cases move <;> simp [SpanCall.moves] at hmem <;> rfl

/-- A call becomes the winner in a step that leaves the span ending. -/
theorem Step.hasWon_eq (hs : c.Step i call point t next) (hat : call.CanBeAt point)
    (ht : t.span.state.isEnding = false) :
    SpanCall.hasWon (call, next) = SpanCall.hasWon (call, point) := by
  have hbegin {s : SpanState} (htarget : s.beginEnd? = some t.span.state) : False := by
    cases s <;> simp [SpanState.beginEnd?] at htarget <;>
      simp [← htarget, SpanState.isEnding] at ht
  cases call with
  | finish time =>
    cases hs with
    | refuse hmove _ => rw [hasWon_of_move? hmove, hasWon_refused (mem_moves hat hmove)]
    | keep hmove hsame =>
      rw [hasWon_of_move? hmove, hasWon_taken (mem_moves hat hmove)]
      rintro rfl
      exact hbegin hsame
    | aim hmove => rw [hasWon_of_move? hmove, hasWon_swapping]
    | swap htarget =>
      rw [hasWon_swapping, hasWon_taken hat.1]
      rintro rfl
      exact hbegin htarget
    | lock | clear | freeze | unlock => simp [SpanCall.CanBeAt, SpanCall.points] at hat
    | recordEnd => rfl
    | handOver => split <;> rfl
  | _ => rfl

/-- The move to discarded comes from a span whose end is not complete. -/
theorem Step.isOpen_or_isEnding (hs : c.Step i call point t next)
    (hc : c.span.state ≠ .discarded) (ht : t.span.state = .discarded) :
    c.span.state.isOpen = true ∨ c.span.state.isEnding = true := by
  cases hs with
  | @swap _ move next htarget _ =>
    obtain rfl : next = .discarded := ht
    cases move <;> cases hstate : c.span.state <;>
      simp_all [StateMove.target?, SpanState.beginEnd?, SpanState.finishEnd?, SpanState.discard?,
        SpanState.process?, SpanState.hold?, SpanState.release?, SpanState.isOpen,
        SpanState.isEnding]
  | free hfree | freeLast hfree => exact absurd ((Span.free?_eq_some hfree).2.2 ▸ ht) hc
  | _ => exact absurd ht hc

/-- The winners stay the same in an event after which the span is discarded. -/
theorem countP_hasWon_of_event? (hc : c.Counted) (he : c.event? event = some d)
    (hd : d.span.state = .discarded) :
    d.calls.countP SpanCall.hasWon = c.calls.countP SpanCall.hasWon := by
  rcases event?_cases hc.canBeAt he with
    ⟨call, -, rfl⟩ | ⟨i, -, call, point, t, next, -, hi, hs, rfl⟩
  · have hnew : SpanCall.hasWon (call, call.firstPoint) = false := by cases call <;> rfl
    simp [hnew]
  · obtain ⟨n, hcount, hset⟩ := exists_countP_eq hi SpanCall.hasWon
    have hsame := hs.hasWon_eq (hc.canBeAt hi) (by rw [hd]; rfl)
    rw [hs.calls_eq, hset, hcount, hsame]

theorem countP_hasWon_of_run? (hc : c.Counted) (hr : c.run? events = some d)
    (hd : c.span.state = .discarded) :
    d.calls.countP SpanCall.hasWon = c.calls.countP SpanCall.hasWon := by
  refine (run?_keeps (P := fun x => x.Counted ∧ x.span.state = .discarded ∧
    x.calls.countP SpanCall.hasWon = c.calls.countP SpanCall.hasWon) ?_ hr ⟨hc, hd, rfl⟩).2.2
  rintro x y event ⟨hx, hstate, hsame⟩ he
  have hnext : y.span.state = .discarded := by
    rw [hx.state_of_isFinal_of_event? he (by rw [hstate]; rfl), hstate]
  exact ⟨hx.event? he, hnext, (countP_hasWon_of_event? hx he hnext).trans hsame⟩

/-- A run that discards the span has a moment at which it does. -/
theorem exists_discard (hr : c.run? events = some d) (hc : c.span.state ≠ .discarded)
    (hd : d.span.state = .discarded) :
    ∃ before event after b t, events = before ++ event :: after ∧ c.run? before = some b ∧
      b.event? event = some t ∧ t.run? after = some d ∧ b.span.state ≠ .discarded ∧
      t.span.state = .discarded := by
  induction events generalizing c with
  | nil =>
    obtain rfl := Option.some.inj hr
    contradiction
  | cons event rest ih =>
    obtain ⟨e, he, hrest⟩ := Option.bind_eq_some_iff.mp hr
    by_cases hstate : e.span.state = .discarded
    · exact ⟨[], event, rest, c, e, rfl, rfl, he, hrest, hc, hstate⟩
    · obtain ⟨before, event', after, b, t, rfl, hb, ht, hafter, hne, hdiscarded⟩ := ih hrest hstate
      refine ⟨event :: before, event', after, b, t, rfl, ?_, ht, hafter, hne, hdiscarded⟩
      rw [run?, he]
      exact hb

theorem isOpen_or_isEnding_of_event? (hc : c.Counted) (he : c.event? event = some d)
    (hne : c.span.state ≠ .discarded) (hd : d.span.state = .discarded) :
    c.span.state.isOpen = true ∨ c.span.state.isEnding = true := by
  rcases event?_cases hc.canBeAt he with
    ⟨call, -, rfl⟩ | ⟨i, -, call, point, t, next, -, -, hs, rfl⟩
  · exact absurd hd hne
  · exact hs.isOpen_or_isEnding hne hd

/-- A call has won the race for the end of a discarded span exactly if the discard came in between.
-/
theorem hasWon_iff_strikes (hc : c.Counted) (hne : c.span.state ≠ .discarded)
    (hr : c.run? events = some d) (hd : d.span.state = .discarded) :
    1 ≤ d.calls.countP SpanCall.hasWon ↔ c.Strikes events := by
  constructor
  · intro hwon
    obtain ⟨before, event, after, b, t, hsplit, hb, ht, hafter, hopen, hdiscarded⟩ :=
      exists_discard hr hne hd
    have hcounted := hc.run? hb
    rw [countP_hasWon_of_run? (hcounted.event? ht) hafter hdiscarded,
      countP_hasWon_of_event? hcounted ht hdiscarded] at hwon
    refine ⟨before, event, after, b, t, hsplit, hb, ht, ?_, hdiscarded⟩
    refine (isOpen_or_isEnding_of_event? hcounted ht hopen hdiscarded).resolve_left fun hstate => ?_
    have hgrants := hcounted.won
    generalize b.calls.countP SpanCall.hasWon = n at hwon hgrants
    cases hb : b.span.state <;> simp_all [SpanState.isOpen, SpanState.Grants]
  · rintro ⟨before, event, after, b, t, rfl, hb, ht, hending, hdiscarded⟩
    have hcounted := hc.run? hb
    have hafter : t.run? after = some d := by
      rwa [run?_append, hb, Option.bind_some, run?, ht, Option.bind_some] at hr
    rw [countP_hasWon_of_run? (hcounted.event? ht) hafter hdiscarded,
      countP_hasWon_of_event? hcounted ht hdiscarded]
    have hgrants := hcounted.won
    generalize b.calls.countP SpanCall.hasWon = n at hgrants
    cases hb : b.span.state <;> simp_all [SpanState.isEnding, SpanState.Grants]

/-! ## Whole runs -/

/-- At any moment one call at most has answered that it ended the span, and a call that has answered
that it discarded the span is right. Both have answered only if a discard came in between the two
moves of the end. When no call is in progress, that is the only way; and the span has ended exactly
if a call has answered so and none has answered that it discarded it. -/
theorem exclusion_run? {span : Span} {claims : Bool} (hstate : span.state = .opened)
    (hr : (start span claims).run? events = some c) :
    (∀ (i j : Nat) (time time' : Ticks), c.calls[i]? = some (.finish time, .returned true) →
      c.calls[j]? = some (.finish time', .returned true) → i = j) ∧
    (c.DiscardReported → c.span.state = .discarded) ∧
    (c.EndReported → c.DiscardReported → (start span claims).Strikes events) ∧
    (c.IsIdle →
      ((start span claims).Strikes events ↔ c.EndReported ∧ c.DiscardReported) ∧
      (c.span.state.hasEnded = true ↔ c.EndReported ∧ ¬c.DiscardReported)) := by
  have hbegin := counted_start hstate claims
  have hcounted := hbegin.run? hr
  have hopen : (start span claims).span.state ≠ .discarded := by simp [start, hstate]
  have hdiscarded : c.DiscardReported → c.span.state = .discarded := fun h =>
    hcounted.discarded.mp (List.countP_pos_iff.mpr ⟨_, h, rfl⟩)
  have hended : c.EndReported → 1 ≤ c.calls.countP SpanCall.hasWon := by
    rintro ⟨_, h⟩
    exact List.countP_pos_iff.mpr ⟨_, h, rfl⟩
  have hboth (hend : c.EndReported) (hdiscard : c.DiscardReported) :
      (start span claims).Strikes events :=
    (hasWon_iff_strikes hbegin hopen hr (hdiscarded hdiscard)).mp (hended hend)
  refine ⟨fun i j _ _ hi hj => ?_, hdiscarded, hboth, fun hidle => ⟨⟨fun hstrikes => ?_, ?_⟩, ?_⟩⟩
  · have hwon : c.calls.countP SpanCall.hasWon ≤ 1 := by
      have hgrants := hcounted.won
      generalize c.calls.countP SpanCall.hasWon = n at hgrants ⊢
      cases hs : c.span.state <;> simp_all [SpanState.Grants]
    exact index_eq_of_countP_le_one hwon hi hj rfl rfl
  · have hlast : c.span.state = .discarded := by
      obtain ⟨before, event, after, b, t, rfl, hb, ht, -, hstruck⟩ := hstrikes
      have hafter : t.run? after = some c := by
        rwa [run?_append, hb, Option.bind_some, run?, ht, Option.bind_some] at hr
      have hfinal : t.span.state.isFinal = true := by rw [hstruck]; rfl
      rw [((hbegin.run? hb).event? ht).state_of_isFinal_of_run? hafter hfinal, hstruck]
    exact ⟨(endReported_iff hidle).mpr
      ((hasWon_iff_strikes hbegin hopen hr hlast).mpr hstrikes),
      (discardReported_iff hidle).mpr (hcounted.discarded.mpr hlast)⟩
  · rintro ⟨hend, hdiscard⟩
    exact hboth hend hdiscard
  · rw [hcounted.hasEnded_iff hidle, discardReported_iff hidle, hcounted.discarded]

/-- A discard waits for its turn while the end is complete, so it is refused. -/
theorem exclusion_run?_end_first :
    ∃ c,
      (start (.create ⟨7, 9⟩ 0 .internal .custom 5 false none .standard "a") true).run?
        [.call (.finish 9), .call .discard, .step 1 false, .step 1 false, .step 0 false,
          .step 0 false, .step 0 false, .step 0 false, .step 0 false, .step 1 false, .step 1 false,
          .step 0 false, .step 0 false, .step 0 false] = some c ∧
      c.EndReported ∧ ¬c.DiscardReported ∧ c.span.state.hasEnded = true := by
  let span : Span := .create ⟨7, 9⟩ 0 .internal .custom 5 false none .standard "a"
  let events : List SpanEvent :=
    [.call (.finish 9), .call .discard, .step 1 false, .step 1 false, .step 0 false,
      .step 0 false, .step 0 false, .step 0 false, .step 0 false, .step 1 false, .step 1 false,
      .step 0 false, .step 0 false, .step 0 false]
  have hrun : ((start span true).run? events).map (fun c =>
      (c.span.state, c.calls.all fun e => e.2.hasReturned)) = some (.processed, true) := by
    decide +kernel
  obtain ⟨c, hc, hrun⟩ := Option.map_eq_some_iff.mp hrun
  obtain ⟨hstate, hidle⟩ := Prod.mk.inj hrun
  obtain ⟨-, -, -, hsettled⟩ := exclusion_run? (Span.fresh_create ..).state hc
  have hended : c.span.state.hasEnded = true := by rw [hstate]; rfl
  obtain ⟨hend, hdiscard⟩ := (hsettled (List.all_eq_true.mp hidle)).2.mp hended
  exact ⟨c, hc, hend, hdiscard, hended⟩

/-- A discard comes in after the first move of an end: both answer that they have succeeded,
although the span has not ended. And a span that was claimed while it was open counts as ended
although no call has ended it. -/
theorem both_reported :
    (∃ c,
      (start (.create ⟨7, 9⟩ 0 .internal .custom 5 false none .standard "a") true).run?
        [.call (.finish 9), .call .discard, .step 0 false, .step 0 false, .step 1 false,
          .step 1 false, .step 1 false, .step 1 false, .step 1 false, .step 1 false, .step 0 false,
          .step 0 false] = some c ∧
      c.IsIdle ∧ c.EndReported ∧ c.DiscardReported ∧ c.span.isDiscarded = true ∧
      c.span.state.hasEnded = false) ∧
    ∃ s c,
      (Span.create ⟨7, 9⟩ 0 .internal .custom 5 false none .standard "a").process? = some s ∧
      (start s true).run?
        [.call (.finish 100), .call (.finish 101), .call .discard, .step 0 false, .step 1 false,
          .step 2 false, .step 2 false, .step 2 false] = some c ∧
      c.IsIdle ∧ ¬c.EndReported ∧ c.span.isDiscarded = false ∧ c.span.isEnded = true ∧
      c.span.state.hasEnded = true := by
  let span : Span := .create ⟨7, 9⟩ 0 .internal .custom 5 false none .standard "a"
  let struck : List SpanEvent :=
    [.call (.finish 9), .call .discard, .step 0 false, .step 0 false, .step 1 false,
      .step 1 false, .step 1 false, .step 1 false, .step 1 false, .step 1 false, .step 0 false,
      .step 0 false]
  let late : List SpanEvent :=
    [.call (.finish 100), .call (.finish 101), .call .discard, .step 0 false, .step 1 false,
      .step 2 false, .step 2 false, .step 2 false]
  have hstruck : ((start span true).run? struck).map (fun c => (c.span.state, c.calls)) =
      some (.discarded, [(.finish 9, .returned true), (.discard, .returned true)]) := by
    decide +kernel
  have hlate : (span.process?.bind fun s => (start s true).run? late).map
      (fun c => (c.span.state, c.calls)) =
        some (.processed, [(.finish 100, .returned false), (.finish 101, .returned false),
          (.discard, .returned false)]) := by
    decide +kernel
  constructor
  · obtain ⟨c, hc, hend⟩ := Option.map_eq_some_iff.mp hstruck
    obtain ⟨hstate, hcalls⟩ := Prod.mk.inj hend
    refine ⟨c, hc, ?_, ⟨9, ?_⟩, ?_, ?_, ?_⟩
    · simp [IsIdle, hcalls, CallPoint.hasReturned]
    · simp [hcalls]
    · simp [DiscardReported, hcalls]
    · simp [Span.isDiscarded, hstate]
    · simp [hstate, SpanState.hasEnded]
  · obtain ⟨c, hc, hend⟩ := Option.map_eq_some_iff.mp hlate
    obtain ⟨s, hs, hc⟩ := Option.bind_eq_some_iff.mp hc
    obtain ⟨hstate, hcalls⟩ := Prod.mk.inj hend
    refine ⟨s, c, hs, hc, ?_, ?_, ?_, ?_, ?_⟩
    · simp [IsIdle, hcalls, CallPoint.hasReturned]
    · simp [EndReported, hcalls]
    · simp [Span.isDiscarded, hstate]
    · simp [Span.isEnded, hstate, SpanState.isOpen]
    · simp [hstate, SpanState.hasEnded]

end SpanRelay.SpanContest
