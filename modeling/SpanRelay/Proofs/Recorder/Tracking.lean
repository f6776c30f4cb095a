import SpanRelay.Proofs.Recorder.Tokens

/-!
What becomes of the spans while one is bound to a token, whatever the code does that creates it.
That code may use the tokens, and bind the token itself; then the span it has bound wins, and the
one that it returns is discarded, also where it is the winner.
-/
namespace SpanRelay.Recorder

variable {r : Recorder} {ref : SpanRef} {token : String}

/-! ## Discarding -/

theorem tokens_discard (r : Recorder) (thread : Nat) (ref : SpanRef) :
    (r.discard thread ref).2.tokens = r.tokens := tokens_move r (.discard thread ref)

theorem span?_discard_of_ne {other : SpanRef} (h : other ≠ ref) (r : Recorder) (thread : Nat) :
    (r.discard thread ref).2.span? other = r.span? other := by
  unfold discard
  split
  · rfl
  next timers t hd =>
    obtain ⟨s, hs, -⟩ := Option.bind_eq_some_iff.mp hd
    have hput : ((r.put ref t.freeze).cancelTimers timers).span? other = r.span? other := by
      rw [span?_cancelTimers, span?_put hs, if_neg (Ne.symm h)]
    dsimp only
    split
    · rw [span?_detach, hput]
    · exact hput

/-- An open span can be discarded. -/
theorem IsOpen.discard (h : r.IsOpen ref) (thread : Nat) :
    ∃ t, (r.discard thread ref).2.span? ref = some t ∧ t.state = .discarded := by
  obtain ⟨s, hs, hopen⟩ := h
  refine exists_discarded r thread ref ?_
  have hd : ∃ found, (r.span? ref).bind Span.discard? = some found := by
    rw [hs, Option.bind_some, Span.discard?, Span.move?]
    cases hstate : s.state <;> simp [hstate, SpanState.isOpen, SpanState.discard?] at hopen ⊢
  obtain ⟨found, hd⟩ := hd
  simp only [Recorder.discard, hd]

/-! ## Binding -/

variable {make : Recorder → SpanRef × Recorder}

/-- A token that is still free when the span is made is bound to it. -/
theorem track_of_unbound (h : r.tracked? token = none) (hm : (make r).2.tracked? token = none)
    (thread : Nat) :
    r.track thread token make = ((make r).1,
      { (make r).2 with tokens := (make r).2.tokens.insert token ⟨(make r).1, none⟩ }) := by
  unfold track
  simp only [h, hm]

/-- A token that was bound meanwhile stays bound as it is. -/
theorem track_of_lost {winner : SpanRef} (h : r.tracked? token = none)
    (hm : (make r).2.tracked? token = some winner) (thread : Nat) :
    r.track thread token make = (winner, ((make r).2.discard thread (make r).1).2) := by
  unfold track
  simp only [h, hm]

/-- Code that returns the span it has bound loses to itself. -/
theorem not_isOpen_track_of_lost (h : r.tracked? token = none)
    (hm : (make r).2.tracked? token = some (make r).1) (thread : Nat) :
    ¬ (r.track thread token make).2.IsOpen (r.track thread token make).1 := by
  rw [track_of_lost h hm]
  exact not_isOpen_discard _ thread _

theorem tracked?_track (r : Recorder) (thread : Nat) (token : String)
    (make : Recorder → SpanRef × Recorder) :
    (r.track thread token make).2.tracked? token = some (r.track thread token make).1 := by
  cases h : r.tracked? token with
  | some bound => rw [track_of_bound h, h]
  | none =>
    cases hm : (make r).2.tracked? token with
    | none =>
      rw [track_of_unbound h hm]
      simp [tracked?, Dictionary.get?_insert]
    | some winner =>
      rw [track_of_lost h hm]
      unfold tracked? at hm ⊢
      rw [tokens_discard, hm]

/-- So does code that tracks the token itself, if it returns the span that it gets. -/
theorem not_isOpen_track_track (h : r.tracked? token = none) (thread : Nat)
    (make : Recorder → SpanRef × Recorder) :
    ¬ (r.track thread token (·.track thread token make)).2.IsOpen
      (r.track thread token (·.track thread token make)).1 :=
  not_isOpen_track_of_lost h (tracked?_track r thread token make) thread

/-- Whatever the code does that creates the span, afterwards the token is bound to the span that is
answered, and no other binding has changed since the code returned. If the token was bound before
the code is not run. Otherwise no span but the one that the code returns changes, and that one only
if the code has bound the token, when it is discarded if it was open. So the span that is answered
stays open unless the code returns the very span to which it has bound the token. -/
theorem keeps_track (r : Recorder) (thread : Nat) (token : String)
    (make : Recorder → SpanRef × Recorder) :
    (r.track thread token make).2.tracked? token = some (r.track thread token make).1 ∧
    (∀ bound, r.tracked? token = some bound → r.track thread token make = (bound, r)) ∧
    (r.tracked? token = none →
      (∀ other, other ≠ token →
        (r.track thread token make).2.tokens.get? other = (make r).2.tokens.get? other) ∧
      (∀ ref, ref ≠ (make r).1 →
        (r.track thread token make).2.span? ref = (make r).2.span? ref) ∧
      ((make r).2.tracked? token = none → (r.track thread token make).1 = (make r).1 ∧
        (r.track thread token make).2.span? (make r).1 = (make r).2.span? (make r).1) ∧
      (∀ winner, (make r).2.tracked? token = some winner →
        (r.track thread token make).1 = winner ∧
        ((make r).2.IsOpen (make r).1 → ∃ s,
          (r.track thread token make).2.span? (make r).1 = some s ∧ s.state = .discarded)) ∧
      ((make r).2.IsOpen (r.track thread token make).1 →
        ((r.track thread token make).2.IsOpen (r.track thread token make).1 ↔
          (make r).2.tracked? token ≠ some (make r).1))) := by
  refine ⟨tracked?_track r thread token make, fun bound h => track_of_bound h thread make,
    fun h => ?_⟩
  cases hm : (make r).2.tracked? token with
  | none =>
    rw [track_of_unbound h hm]
    refine ⟨fun other hne => ?_, fun _ _ => rfl, fun _ => ⟨rfl, rfl⟩, nofun, fun hopen => ?_⟩
    · rw [Dictionary.get?_insert, if_neg (Ne.symm hne)]
    · exact ⟨fun _ => nofun, fun _ => hopen⟩
  | some winner =>
    rw [track_of_lost h hm]
    refine ⟨fun other _ => by rw [tokens_discard], fun ref hne => span?_discard_of_ne hne _ thread,
      nofun, ?_, fun hopen => ?_⟩
    · rintro w hw
      obtain rfl := Option.some.inj hw
      exact ⟨rfl, fun hopen => hopen.discard thread⟩
    · by_cases hself : winner = (make r).1
      · rw [hself]
        simp [not_isOpen_discard]
      · have hkept := span?_discard_of_ne hself (make r).2 thread
        have hstays : ((make r).2.discard thread (make r).1).2.IsOpen winner := by
          obtain ⟨s, hs, ho⟩ := hopen
          exact ⟨s, hkept.trans hs, ho⟩
        simp [hself, hstays]

/-- The code binds the token to a new span, which is open, and returns it: it is discarded, and the
token stays bound to it. -/
theorem discarded_by_track :
    let make (r : Recorder) :=
      r.track 0 "page" fun r => r.create 0 (.ofNumbers 1 1) (.named "page")
    let r := start default .standard true .batch .discarding 100 0
    (make r).2.IsOpen (r.track 0 "page" make).1 ∧
      ¬ (r.track 0 "page" make).2.IsOpen (r.track 0 "page" make).1 ∧
      (r.track 0 "page" make).2.tracked? "page" = some (r.track 0 "page" make).1 ∧
      ((r.track 0 "page" make).2.span? (r.track 0 "page" make).1).map Span.state =
        some .discarded := by
  intro make r
  have hstates : ((make r).2.span? (r.track 0 "page" make).1).map Span.state = some .opened ∧
      ((r.track 0 "page" make).2.span? (r.track 0 "page" make).1).map Span.state =
        some .discarded := by decide +kernel
  obtain ⟨hbefore, hafter⟩ := hstates
  obtain ⟨s, hs, hopened⟩ := Option.map_eq_some_iff.mp hbefore
  have hfree : r.tracked? "page" = none := by decide +kernel
  exact ⟨⟨s, hs, by rw [hopened]; rfl⟩, not_isOpen_track_track hfree 0 _,
    tracked?_track r 0 "page" make, hafter⟩

end SpanRelay.Recorder
