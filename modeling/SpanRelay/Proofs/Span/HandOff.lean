import SpanRelay.Proofs.Span.Counts

/-!
The hand-off of a span while several calls work on it. Under the lock a call may have the state and
the holds apart; once the lock is free, a span is held exactly if it has holds. So an ended span is
handed over once and not before its last hold is released, whichever call completes what.
-/
namespace SpanRelay

/-- The state says that the span is held exactly if there are holds. -/
def Span.HeldByTimers (s : Span) : Prop := s.state.isHeld = true ↔ s.pending ≠ []

/-- A change that the calls under the lock do not see. -/
structure Span.Alike (s t : Span) : Prop where
  held : t.state.isHeld = s.state.isHeld
  pending : t.pending = s.pending
  discarded : s.state = .discarded → t.state = .discarded

/-- What a call under the lock knows of the state and the holds. -/
def CallPoint.Guards (s : Span) : CallPoint → Prop
  | loading .release | swapping .release _ => s.state.isHeld = true ∧ s.pending = []
  | addingHold => s.state.isHeld = true
  | clearingHolds => s.state = .discarded
  | _ => s.HeldByTimers

namespace Span

variable {s t : Span} {point : CallPoint}

theorem Alike.refl (s : Span) : s.Alike s := ⟨rfl, rfl, id⟩

theorem Alike.heldByTimers (h : s.Alike t) (hs : s.HeldByTimers) : t.HeldByTimers := by
  unfold HeldByTimers
  rw [h.held, h.pending]
  exact hs

theorem Alike.guards (h : s.Alike t) (hs : point.Guards s) : point.Guards t := by
  unfold CallPoint.Guards at hs ⊢
  split at hs
  · rwa [h.held, h.pending]
  · rwa [h.held, h.pending]
  · rwa [h.held]
  · exact h.discarded hs
  · exact h.heldByTimers hs

end Span

namespace SpanContest

variable {c d t : SpanContest} {i : Nat} {call : SpanCall} {point next : CallPoint}
  {move : StateMove} {state : SpanState}

/-- The lock is with the call that is at a point under it, and what that call knows is so. -/
structure Guarded (c : SpanContest) : Prop where
  locked : ∀ i : Nat, c.lock = some i ↔ ∃ e, c.calls[i]? = some e ∧ e.2.isLocked = true
  free : c.lock = none → c.span.HeldByTimers
  guards : ∀ {i : Nat} {e}, c.lock = some i → c.calls[i]? = some e → e.2.Guards c.span

/-- What a step of a call is for the lock. -/
inductive Passes (c : SpanContest) (i : Nat) (point : CallPoint) (t : SpanContest)
    (next : CallPoint) : Prop where
  | outside : point.isLocked = false → next.isLocked = false → t.lock = c.lock →
      c.span.Alike t.span → Passes c i point t next
  | inside : point.isLocked = true → next.isLocked = true → t.lock = c.lock →
      (point.Guards c.span → next.Guards t.span) → Passes c i point t next
  | enter : point.isLocked = false → next.isLocked = true → c.lock = none → t.lock = some i →
      (c.span.HeldByTimers → next.Guards t.span) → Passes c i point t next
  | leave : point.isLocked = true → next.isLocked = false → t.lock = none →
      (point.Guards c.span → t.span.HeldByTimers) → Passes c i point t next

/-- A call knows the same while it looks at the state and while it is to swap it. -/
theorem Passes.of_move? (h : c.Passes i (.loading move) t next)
    (hmove : point.move? = some move) : c.Passes i point t next := by
  cases point <;> cases hmove
  · exact h
  · cases move <;> cases h with
    | outside hpoint hnext hlock halike => exact .outside hpoint hnext hlock halike
    | inside hpoint hnext hlock hguards => exact .inside hpoint hnext hlock hguards
    | enter hpoint hnext hfree hlock hguards => exact .enter hpoint hnext hfree hlock hguards
    | leave hpoint hnext hlock hheld => exact .leave hpoint hnext hlock hheld

theorem passes_refuse (hnone : move.target? c.span.state = none) :
    c.Passes i (.loading move) c move.refused := by
  cases move with
  | discard | hold => exact .inside rfl rfl rfl id
  | release =>
    refine .inside rfl rfl rfl fun hguards => ?_
    have hheld := hguards.1
    cases hstate : c.span.state <;>
      simp_all [StateMove.target?, SpanState.release?, SpanState.isHeld]
  | _ => exact .outside rfl rfl rfl (.refl _)

theorem passes_keep (hsame : move.target? c.span.state = some c.span.state) :
    c.Passes i (.loading move) c (move.taken c.span.state) := by
  rcases StateMove.eq_of_target?_self hsame with rfl | ⟨rfl, hstate⟩
  · exact .inside rfl rfl rfl fun _ => SpanState.isHeld_of_hold? hsame
  · exact .inside rfl rfl rfl fun _ => hstate

theorem passes_aim (seen : SpanState) :
    c.Passes i (.loading move) c (.swapping move seen) := by
  cases move with
  | discard | hold | release => exact .inside rfl rfl rfl id
  | _ => exact .outside rfl rfl rfl (.refl _)

theorem passes_swap (htarget : move.target? c.span.state = some state)
    (hclaim : move = .process → c.span.state.isDue = true) :
    c.Passes i (.loading move) (c.setState state) (move.taken c.span.state) := by
  cases move with
  | beginEnd | finishEnd =>
    -- ending does not look at the holds, so it leaves them to the lock
    refine .outside rfl ?_ rfl ⟨?_, rfl, ?_⟩ <;>
      cases hstate : c.span.state <;>
      simp_all [StateMove.target?, SpanState.beginEnd?, SpanState.finishEnd?, StateMove.taken,
        CallPoint.isLocked, setState]
    all_goals subst htarget; rfl
  | process =>
    have hdue := hclaim rfl
    refine .outside rfl rfl rfl ⟨?_, rfl, ?_⟩ <;>
      cases hstate : c.span.state <;>
      simp_all [StateMove.target?, SpanState.process?, SpanState.isDue, setState]
    all_goals subst htarget; rfl
  | discard =>
    refine .inside rfl rfl rfl fun _ => ?_
    change state = .discarded
    cases hstate : c.span.state <;> simp_all [StateMove.target?, SpanState.discard?]
  | hold => exact .inside rfl rfl rfl fun _ => SpanState.isHeld_of_hold? htarget
  | release =>
    refine .inside rfl rfl rfl fun hguards => ?_
    have hpending := hguards.2
    change Span.HeldByTimers _
    cases hstate : c.span.state <;>
      simp_all [StateMove.target?, SpanState.release?, Span.HeldByTimers, setState]
    all_goals subst htarget; rfl

theorem passes_unlock (hat : call.CanBeAt (.unlocking next)) :
    c.Passes i (.unlocking next) { c with lock := none } next := by
  refine .leave rfl ?_ rfl id
  cases next with
  | returned | sealing | handingOver => rfl
  | _ => cases call <;> simp [SpanCall.CanBeAt, SpanCall.points] at hat

theorem Step.passes (hs : c.Step i call point t next) (h : c.Counted)
    (hi : c.calls[i]? = some (call, point)) : c.Passes i point t next := by
  have hat := h.canBeAt hi
  cases hs with
  | lock hfree =>
    cases call with
    | finish => simp [SpanCall.CanBeAt, SpanCall.points] at hat
    | discard | hold | release => exact .enter rfl rfl hfree rfl id
  | refuse hmove hnone => exact (passes_refuse hnone).of_move? hmove
  | keep hmove hsame => exact (passes_keep hsame).of_move? hmove
  | aim hmove => exact (passes_aim _).of_move? hmove
  | swap htarget _ =>
    refine (passes_swap htarget fun hp => ?_).of_move? rfl
    subst hp
    exact h.isDue_of_pos (h.claiming hi rfl)
  | recordEnd => exact .outside rfl rfl rfl ⟨rfl, rfl, id⟩
  | missing => exact .inside rfl rfl rfl id
  | free hfree hrest =>
    obtain ⟨hmem, -, hstate⟩ := Span.free?_eq_some hfree
    refine .inside rfl rfl rfl fun hheld => ?_
    have hheld : c.span.state.isHeld = true := hheld.mpr (List.ne_nil_of_mem hmem)
    exact ⟨fun _ => hrest, fun _ => hstate ▸ hheld⟩
  | freeLast hfree hlast =>
    obtain ⟨hmem, -, hstate⟩ := Span.free?_eq_some hfree
    refine .inside rfl rfl rfl fun hheld => ?_
    have hheld : c.span.state.isHeld = true := hheld.mpr (List.ne_nil_of_mem hmem)
    exact ⟨hstate ▸ hheld, hlast⟩
  | addHold =>
    refine .inside rfl rfl rfl fun hheld => ⟨fun _ => ?_, fun _ => hheld⟩
    simp [Span.addTimer]
  | clear =>
    refine .inside rfl rfl rfl fun hstate => ?_
    have hstate : c.span.state = .discarded := hstate
    simp [CallPoint.Guards, Span.HeldByTimers, Span.dropTimers, hstate, SpanState.isHeld]
  | unlock => exact passes_unlock hat
  | freeze => exact .outside rfl rfl rfl ⟨rfl, rfl, id⟩
  | handOver =>
    split
    · exact .outside rfl rfl rfl (.refl _)
    · exact .outside rfl rfl rfl (.refl _)

namespace Guarded

/-- Only the call that has the lock is at a point under it. -/
theorem lock_eq (h : c.Guarded) (hi : c.calls[i]? = some (call, point))
    (hpoint : point.isLocked = true) : c.lock = some i :=
  (h.locked i).mpr ⟨_, hi, hpoint⟩

theorem lock_ne (h : c.Guarded) (hi : c.calls[i]? = some (call, point))
    (hpoint : point.isLocked = false) : c.lock ≠ some i := by
  intro hlock
  obtain ⟨e, he, hlocked⟩ := (h.locked i).mp hlock
  obtain rfl := Option.some.inj (hi.symm.trans he)
  simp [hpoint] at hlocked

/-- A call is at another point, and what all know stays so. -/
theorem set (h : c.Guarded) (hi : c.calls[i]? = some (call, point))
    (hself : t.lock = some i ↔ next.isLocked = true)
    (hothers : ∀ j, j ≠ i → (t.lock = some j ↔ c.lock = some j))
    (hfree : t.lock = none → t.span.HeldByTimers)
    (hguards : t.lock = some i → next.Guards t.span)
    (hrest : ∀ {j : Nat} {e : SpanCall × CallPoint}, j ≠ i → c.lock = some j →
      e.2.Guards c.span → e.2.Guards t.span) :
    Guarded { t with calls := c.calls.set i (call, next) } where
  locked j := by
    dsimp only
    rw [getElem?_set_of_some hi]
    by_cases hij : i = j
    · subst hij
      simp [hself]
    · rw [if_neg hij, hothers j (Ne.symm hij)]
      exact h.locked j
  free := hfree
  guards {j e} hlock hj := by
    dsimp only at hlock hj
    rw [getElem?_set_of_some hi] at hj
    split at hj
    next hij =>
      subst hij
      obtain rfl := Option.some.inj hj
      exact hguards hlock
    next hij =>
      have hlock := (hothers j (Ne.symm hij)).mp hlock
      exact hrest (Ne.symm hij) hlock (h.guards hlock hj)

theorem step (h : c.Guarded) (hc : c.Counted) (hi : c.calls[i]? = some (call, point))
    (hs : c.Step i call point t next) :
    Guarded { t with calls := t.calls.set i (call, next) } := by
  have hpasses := hs.passes hc hi
  rw [hs.calls_eq]
  cases hpasses with
  | outside hpoint hnext hlock halike =>
    have hne := h.lock_ne hi hpoint
    refine h.set hi ?_ (fun j _ => by rw [hlock]) (fun hfree => ?_) (fun hown => ?_)
      (fun _ _ hguards => halike.guards hguards)
    · simp [hlock, hnext, hne]
    · exact halike.heldByTimers (h.free (hlock ▸ hfree))
    · exact absurd (hlock ▸ hown) hne
  | inside hpoint hnext hlock hguards =>
    have hown := h.lock_eq hi hpoint
    refine h.set hi ?_ (fun j _ => by rw [hlock]) (fun hfree => ?_) (fun _ => ?_)
      (fun hne hother => ?_)
    · simp [hlock, hnext, hown]
    · simp [hlock, hown] at hfree
    · exact hguards (h.guards hown hi)
    · exact absurd (Option.some.inj (hother.symm.trans hown)) hne
  | enter hpoint hnext hfree hlock hguards =>
    refine h.set hi ?_ (fun j hne => ?_) (fun hnone => ?_) (fun _ => ?_) (fun _ hother => ?_)
    · simp [hlock, hnext]
    · simp [hlock, hfree, Ne.symm hne]
    · simp [hlock] at hnone
    · exact hguards (h.free hfree)
    · simp [hfree] at hother
  | leave hpoint hnext hlock hheld =>
    have hown := h.lock_eq hi hpoint
    refine h.set hi ?_ (fun j hne => ?_) (fun _ => ?_) (fun hsome => ?_) (fun hne hother => ?_)
    · simp [hlock, hnext]
    · simp [hlock, hown, Ne.symm hne]
    · exact hheld (h.guards hown hi)
    · simp [hlock] at hsome
    · exact absurd (Option.some.inj (hother.symm.trans hown)) hne

theorem begins (h : c.Guarded) (call : SpanCall) :
    Guarded { c with calls := c.calls ++ [(call, call.firstPoint)] } := by
  have hnew : call.firstPoint.isLocked = false := by cases call <;> rfl
  have hown : ∀ {i : Nat} {e}, c.lock = some i →
      (c.calls ++ [(call, call.firstPoint)])[i]? = some e → c.calls[i]? = some e := by
    intro i e hlock hi
    obtain ⟨e', he', -⟩ := (h.locked i).mp hlock
    have hlt := (List.getElem?_eq_some_iff.mp he').1
    rwa [List.getElem?_append_left hlt] at hi
  refine ⟨fun i => ?_, h.free, fun hlock hi => h.guards hlock (hown hlock hi)⟩
  rw [h.locked i]
  refine exists_congr fun e => ?_
  rw [getElem?_concat_eq_some_iff]
  refine ⟨fun ⟨hi, he⟩ => ⟨.inl hi, he⟩, fun ⟨hi, he⟩ => ⟨hi.resolve_right ?_, he⟩⟩
  rintro ⟨-, rfl⟩
  simp [hnew] at he

theorem event? (h : c.Guarded) (hc : c.Counted) {event : SpanEvent}
    (he : c.event? event = some d) : d.Guarded := by
  rcases event?_cases hc.canBeAt he with
    ⟨call, -, rfl⟩ | ⟨i, -, call, point, t, next, -, hi, hs, rfl⟩
  · exact h.begins call
  · exact h.step hc hi hs

theorem run? (h : c.Guarded) (hc : c.Counted) {events : List SpanEvent}
    (hr : c.run? events = some d) : d.Guarded := by
  refine (run?_keeps (P := fun x => x.Counted ∧ x.Guarded) ?_ hr ⟨hc, h⟩).2
  rintro x y event ⟨hx, hguarded⟩ he
  exact ⟨hx.event? he, hguarded.event? hx he⟩

/-- When no call is in progress, the lock is free. -/
theorem lock_of_isIdle (h : c.Guarded) (hidle : c.IsIdle) : c.lock = none := by
  cases hlock : c.lock with
  | none => rfl
  | some i =>
    obtain ⟨⟨call, point⟩, he, hlocked⟩ := (h.locked i).mp hlock
    have hreturned := hidle _ (List.mem_of_getElem? he)
    cases point <;> contradiction

end Guarded

theorem guarded_start {span : Span} (h : span.Fresh) (claims : Bool) :
    (start span claims).Guarded where
  locked i := by simp [start]
  free _ := by simp [start, Span.HeldByTimers, h.state, h.pending, SpanState.isHeld]
  guards hlock := by simp [start] at hlock

/-! ## Whole runs -/

theorem handOvers_le_of_event? (hc : c.Counted) {event : SpanEvent}
    (he : c.event? event = some d) : c.handOvers ≤ d.handOvers := by
  rcases event?_cases hc.canBeAt he with
    ⟨call, -, rfl⟩ | ⟨i, -, call, point, t, next, -, hi, hs, rfl⟩
  · exact Nat.le_refl _
  · exact (hs.tallies hc hi).more

theorem handOvers_le_of_run? (hc : c.Counted) {events : List SpanEvent}
    (hr : c.run? events = some d) : c.handOvers ≤ d.handOvers := by
  refine (run?_keeps (P := fun x => x.Counted ∧ c.handOvers ≤ x.handOvers) ?_ hr
    ⟨hc, Nat.le_refl _⟩).2
  rintro x y event ⟨hx, hmore⟩ he
  exact ⟨hx.event? he, Nat.le_trans hmore (handOvers_le_of_event? hx he)⟩

/-- A discarded span was never handed over, an other one once at most. -/
theorem Counted.handOvers_le (h : c.Counted) :
    c.handOvers ≤ 1 ∧ (c.span.state = .discarded → c.handOvers = 0) := by
  have hover := h.handOvers
  constructor
  · have hdue := Bool.toNat_le c.span.state.isDue
    omega
  · intro hstate
    rw [hstate] at hover
    exact Nat.eq_zero_of_add_eq_zero_right hover

/-- Whatever steps of any calls have come between one another: a span is handed over at most once,
never if it is discarded at any moment, and a final state stays. While no call has the lock, a held
span has holds. When no call is in progress, the span was handed over exactly if a call has ended
it, none has discarded it, and no hold is left. -/
theorem handOff_run? {span : Span} {claims : Bool} {before after : List SpanEvent}
    {b c : SpanContest} (hfresh : span.Fresh) (hb : (start span claims).run? before = some b)
    (hc : b.run? after = some c) :
    c.handOvers ≤ 1 ∧
    (b.span.state = .discarded ∨ c.span.state = .discarded → b.handOvers = 0 ∧ c.handOvers = 0) ∧
    (b.span.state.isFinal = true → c.span.state = b.span.state) ∧
    (c.lock = none → c.span.state.isHeld = true → c.span.pending ≠ []) ∧
    (c.IsIdle →
      (c.span.state.hasEnded = true ↔ c.EndReported ∧ c.span.state ≠ .discarded) ∧
      c.handOvers = if c.span.state.hasEnded = true ∧ c.span.pending = [] then 1 else 0) := by
  have hbegin := counted_start hfresh.state claims
  have hcounted := hbegin.run? hb
  have hcounted' := hcounted.run? hc
  have hguarded := ((guarded_start hfresh claims).run? hbegin hb).run? hcounted hc
  have hfinal := hcounted.state_of_isFinal_of_run? hc
  have hmore := handOvers_le_of_run? hcounted hc
  refine ⟨hcounted'.handOvers_le.1, fun hdiscarded => ?_, hfinal,
    fun hlock => (hguarded.free hlock).mp, fun hidle => ⟨hcounted'.hasEnded_iff hidle, ?_⟩⟩
  · have hstate : c.span.state = .discarded := by
      rcases hdiscarded with hdiscarded | hdiscarded
      · rw [hfinal (by rw [hdiscarded]; rfl), hdiscarded]
      · exact hdiscarded
    have hnone := hcounted'.handOvers_le.2 hstate
    exact ⟨Nat.le_zero.mp (hnone ▸ hmore), hnone⟩
  · have hheld : c.span.HeldByTimers := hguarded.free (hguarded.lock_of_isIdle hidle)
    rw [hcounted'.handOvers_of_isIdle hidle]
    cases hstate : c.span.state <;>
      simp_all [Span.HeldByTimers, SpanState.isHeld, SpanState.hasEnded, SpanState.isDue]

/-- A span is held between the two moves of its end, so the release hands it over. -/
theorem handOff_run?_held_in_between :
    ∃ b c,
      (start (.create ⟨7, 9⟩ 0 .internal .custom 5 false none .standard "a") true).run?
        [.call (.finish 9), .call (.hold 3), .step 0 false, .step 1 false, .step 1 false,
          .step 0 false, .step 1 false, .step 0 false, .step 0 false, .step 1 false,
          .step 0 false] = some b ∧
      b.run?
        [.call (.finish 8), .step 2 false, .step 1 false, .step 1 false, .step 0 false,
          .call (.release 0 none), .step 3 false, .step 3 false, .step 3 false, .step 3 true,
          .step 3 false, .step 3 false, .call .discard, .step 4 false, .step 4 false,
          .step 3 false, .step 4 false, .step 3 false, .step 3 false] = some c ∧
      b.span.state = .endingHeld ∧ b.handOvers = 0 ∧ c.span.state = .processed ∧
      c.span.pending = [] ∧ c.EndReported ∧ c.handOvers = 1 := by
  let span : Span := .create ⟨7, 9⟩ 0 .internal .custom 5 false none .standard "a"
  let before : List SpanEvent :=
    [.call (.finish 9), .call (.hold 3), .step 0 false, .step 1 false, .step 1 false,
      .step 0 false, .step 1 false, .step 0 false, .step 0 false, .step 1 false, .step 0 false]
  let after : List SpanEvent :=
    [.call (.finish 8), .step 2 false, .step 1 false, .step 1 false, .step 0 false,
      .call (.release 0 none), .step 3 false, .step 3 false, .step 3 false, .step 3 true,
      .step 3 false, .step 3 false, .call .discard, .step 4 false, .step 4 false,
      .step 3 false, .step 4 false, .step 3 false, .step 3 false]
  have hrun : (((start span true).run? before).bind fun b => (b.run? after).map fun c =>
      (b.span.state, b.handOvers, c.span.state, c.span.pending,
        c.calls.all fun e => e.2.hasReturned)) = some (.endingHeld, 0, .processed, [], true) := by
    decide +kernel
  obtain ⟨b, hb, hrun⟩ := Option.bind_eq_some_iff.mp hrun
  obtain ⟨c, hc, hrun⟩ := Option.map_eq_some_iff.mp hrun
  simp only [Prod.mk.injEq] at hrun
  obtain ⟨hbetween, hnone, hstate, hpending, hidle⟩ := hrun
  obtain ⟨-, -, -, -, hsettled⟩ := handOff_run? (Span.fresh_create ..) hb hc
  obtain ⟨hended, hover⟩ := hsettled (List.all_eq_true.mp hidle)
  have hcomplete : c.span.state.hasEnded = true := by rw [hstate]; rfl
  rw [if_pos ⟨hcomplete, hpending⟩] at hover
  exact ⟨b, c, hb, hc, hbetween, hnone, hstate, hpending, (hended.mp hcomplete).1, hover⟩

end SpanContest
end SpanRelay
