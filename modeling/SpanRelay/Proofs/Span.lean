import SpanRelay.Span.Basic

/-!
What becomes of a span in the steps of its operations. A change is what callbacks and hand-overs do
to it; a turn is a change, or what producers and deadlines do.
-/
namespace SpanRelay

namespace SpanState

/-- The end has been completed. -/
def hasEnded : SpanState → Bool
  | ended | endedHeld | processed => true
  | _ => false

/-- Due to have been handed over. -/
def isDue : SpanState → Bool
  | ended | processed => true
  | _ => false

theorem beginEnd?_eq_some {s t : SpanState} (h : s.beginEnd? = some t) :
    s.isOpen = true ∧ t = if s = opened then ending else endingHeld := by
  cases s with
  | opened | openedHeld => exact ⟨rfl, (Option.some.inj h).symm⟩
  | _ => contradiction

theorem exists_beginEnd? {s : SpanState} (h : s.isOpen = true) :
    ∃ t, s.beginEnd? = some t := by
  cases s with
  | opened | openedHeld => exact ⟨_, rfl⟩
  | _ => contradiction

end SpanState

/-! ## New spans -/

/-- A span that has just been made. -/
structure Span.Fresh (s : Span) : Prop where
  state : s.state = .opened
  pending : s.pending = []
  endMark : s.endMark = Span.noEnd
  extension : s.extension = 0
  isSealed : s.isSealed = false

namespace Span

variable {s t : Span}

theorem fresh_create (context : SpanContext) (parent : SpanId) (kind : SpanKind)
    (category : SpanCategory) (start : Ticks) (makesContext : Bool)
    (metrics : Option SpanMetrics) (limits : AttributeLimits) (name : String) :
    (create context parent kind category start makesContext metrics limits name).Fresh := by
  unfold create
  dsimp only
  split <;> exact ⟨rfl, rfl, rfl, rfl, rfl⟩

theorem Fresh.setInternal (h : s.Fresh) (key : String) (value : AttributeValue) :
    (s.setInternal key value).Fresh := ⟨h.state, h.pending, h.endMark, h.extension, h.isSealed⟩

theorem exists_foldl_setInternal (own : List (String × String)) (s : Span) :
    ∃ a, own.foldl (fun s e => s.setInternal e.1 (.text e.2)) s = { s with attributes := a } := by
  induction own generalizing s with
  | nil => exact ⟨s.attributes, rfl⟩
  | cons e own ih =>
    obtain ⟨a, ha⟩ := ih (s.setInternal e.1 (.text e.2))
    exact ⟨a, ha⟩

/-! ## Edits -/

/-- What a producer or a callback changes in a span without moving it on. -/
inductive Edit (s : Span) : Span → Prop where
  | rename (name : String) : Edit s (s.rename name)
  | set (key : String) (value : AttributeValue) : Edit s (s.setAttribute key value)
  | remove (key : String) : Edit s (s.removeAttribute key).2

theorem Edit.state_pending (h : s.Edit t) : t.state = s.state ∧ t.pending = s.pending := by
  cases h with
  | rename name =>
    unfold Span.rename
    split <;> exact ⟨rfl, rfl⟩
  | set key value =>
    unfold setAttribute countDropped
    split <;> exact ⟨rfl, rfl⟩
  | remove key =>
    unfold removeAttribute
    split <;> exact ⟨rfl, rfl⟩

/-! ## Ends -/

/-- The span once its end is complete. -/
def closed (s : Span) (time : Ticks) : Span :=
  { s with endMark := time, state := if s.state = .opened then .ended else .endedHeld }

theorem not_isOpen_closed (s : Span) (time : Ticks) : (s.closed time).state.isOpen = false := by
  unfold closed
  dsimp only
  split <;> rfl

theorem beginEnd?_eq_some (h : s.beginEnd? = some t) :
    s.state.isOpen = true ∧
      t = { s with state := if s.state = .opened then .ending else .endingHeld } := by
  obtain ⟨state, hstate, rfl⟩ := Option.map_eq_some_iff.mp h
  obtain ⟨ho, rfl⟩ := SpanState.beginEnd?_eq_some hstate
  exact ⟨ho, rfl⟩

theorem exists_beginEnd? (h : s.state.isOpen = true) :
    ∃ t, s.beginEnd? = some t := by
  obtain ⟨state, hstate⟩ := SpanState.exists_beginEnd? h
  exact ⟨_, Option.map_eq_some_iff.mpr ⟨state, hstate, rfl⟩⟩

theorem finishEnd_recordEnd (h : s.beginEnd? = some t) (time : Ticks) :
    (t.recordEnd time).finishEnd = (s.state == .opened, s.closed time) := by
  obtain ⟨ho, rfl⟩ := beginEnd?_eq_some h
  unfold finishEnd recordEnd move? closed
  cases hs : s.state with
  | opened | openedHeld => rfl
  | _ => simp [hs, SpanState.isOpen] at ho

/-! ## Holds and discards -/

theorem free?_eq (s : Span) (id : HoldId) (time : Option Ticks) :
    s.free? id time = (s.pending.find? fun t => t.hold = id).map fun timer =>
      (timer,
        { s with
          pending := s.pending.erase timer
          extension := time.elim s.extension (max s.extension) }) := by
  cases time <;> rfl

theorem free?_eq_some {id : HoldId} {time : Option Ticks} {timer : Timer}
    (h : s.free? id time = some (timer, t)) :
    timer ∈ s.pending ∧ t.pending = s.pending.erase timer ∧ t.state = s.state := by
  rw [free?_eq] at h
  obtain ⟨found, hfind, heq⟩ := Option.map_eq_some_iff.mp h
  obtain ⟨rfl, rfl⟩ := Prod.mk.inj heq
  exact ⟨List.mem_of_find?_eq_some hfind, rfl, rfl⟩

/-- Releasing takes out the timer of the hold; the last release moves the span on. -/
theorem release?_eq_some {id : HoldId} {time : Option Ticks} {freed : Release}
    (h : s.release? id time = some freed) :
    freed.timer ∈ s.pending ∧ freed.timer.hold = id ∧
      freed.span =
        { s with
          pending := s.pending.erase freed.timer
          extension := time.elim s.extension (max s.extension)
          state := if (s.pending.erase freed.timer).isEmpty then s.state.release?.getD s.state
            else s.state } ∧
      freed.handOver = ((s.pending.erase freed.timer).isEmpty && s.state == .endedHeld) := by
  unfold release? at h
  rw [free?_eq] at h
  obtain ⟨⟨timer, t⟩, hfree, hrel⟩ := Option.map_eq_some_iff.mp h
  obtain ⟨found, hfind, heq⟩ := Option.map_eq_some_iff.mp hfree
  obtain ⟨rfl, rfl⟩ := Prod.mk.inj heq
  have hmem : found ∈ s.pending := List.mem_of_find?_eq_some hfind
  have hid : found.hold = id := by simpa using List.find?_some hfind
  dsimp only at hrel
  by_cases he : (s.pending.erase found).isEmpty = true
  · rw [if_pos he] at hrel
    unfold move? at hrel
    cases hst : s.state <;> simp only [hst, SpanState.release?] at hrel <;> subst hrel <;>
      exact ⟨hmem, hid, by simp [he, SpanState.release?], by simp [he]⟩
  · rw [if_neg he] at hrel
    subst hrel
    exact ⟨hmem, hid, by simp [he], by simp [he]⟩

theorem state_of_handOver {id : HoldId} {time : Option Ticks} {freed : Release}
    (h : s.release? id time = some freed) (ho : freed.handOver = true) :
    freed.span.state = .ended := by
  obtain ⟨-, -, hspan, hready⟩ := release?_eq_some h
  rw [hready, Bool.and_eq_true, beq_iff_eq] at ho
  rw [hspan]
  simp only [ho.1, ho.2, if_true]
  rfl

theorem hold?_eq_some {timer : Timer} (h : s.hold? timer = some t) :
    ∃ state, s.state.hold? = some state ∧
      t = { s with state, pending := s.pending ++ [timer] } := by
  obtain ⟨moved, hmove, rfl⟩ := Option.map_eq_some_iff.mp h
  obtain ⟨state, hstate, rfl⟩ := Option.map_eq_some_iff.mp hmove
  exact ⟨state, hstate, rfl⟩

theorem discard?_eq_some {timers : List Timer} (h : s.discard? = some (timers, t)) :
    s.state.discard?.isSome = true ∧ timers = s.pending ∧
      t = { s with state := .discarded, pending := [] } := by
  obtain ⟨moved, hmove, heq⟩ := Option.map_eq_some_iff.mp h
  obtain ⟨state, hstate, rfl⟩ := Option.map_eq_some_iff.mp hmove
  obtain ⟨rfl, rfl⟩ := Prod.mk.inj heq
  refine ⟨Option.isSome_of_eq_some hstate, rfl, ?_⟩
  have hdiscarded : state = .discarded := by
    cases hs : s.state <;> simp_all [SpanState.discard?]
  rw [hdiscarded]
  rfl

/-! ## Changes and turns -/

theorem process?_eq_some (h : s.process? = some t) :
    s.state.isFinal = false ∧ t = { s with state := .processed } := by
  obtain ⟨state, hstate, rfl⟩ := Option.map_eq_some_iff.mp h
  cases hs : s.state <;> simp_all [SpanState.process?, SpanState.isFinal]

/-- What becomes of one span in a deed of the recorder. -/
inductive Change (s : Span) : Span → Prop where
  | none : Change s s
  | edit {t : Span} (h : s.Edit t) : Change s t
  | inform (a : Attributes) (p : Binary64) : Change s { s with attributes := a, probability := p }
  | close (ho : s.state.isOpen = true) (time : Ticks) : Change s (s.closed time)
  | process {t : Span} (hp : s.process? = some t) : Change s t
  | freeze : Change s s.freeze

/-- What becomes of one span in a step of the recorder. -/
inductive Turn (s : Span) : Span → Prop where
  | change {t : Span} (h : s.Change t) : Turn s t
  | discard {t : Span} {timers : List Timer} (h : s.discard? = some (timers, t)) : Turn s t.freeze
  | hold {t : Span} {timer : Timer} (h : s.hold? timer = some t) : Turn s t
  | release {freed : Release} {id : HoldId} {time : Option Ticks}
      (h : s.release? id time = some freed) : Turn s freed.span

/-- A span that is final stays in its state. -/
theorem Change.state_of_isFinal (h : s.Change t) (hf : s.state.isFinal = true) :
    t.state = s.state := by
  cases h with
  | none => rfl
  | edit h => exact h.state_pending.1
  | inform => rfl
  | close ho time => cases hs : s.state <;> simp_all [SpanState.isOpen, SpanState.isFinal]
  | process hp => simp [(process?_eq_some hp).1] at hf
  | freeze => rfl

theorem Turn.state_of_isFinal (h : s.Turn t) (hf : s.state.isFinal = true) :
    t.state = s.state := by
  cases h with
  | change h => exact h.state_of_isFinal hf
  | discard h =>
    obtain ⟨hsome, -, rfl⟩ := discard?_eq_some h
    cases hs : s.state <;> simp_all [SpanState.discard?, SpanState.isFinal, freeze]
  | hold h =>
    obtain ⟨state, hstate, rfl⟩ := hold?_eq_some h
    cases hs : s.state <;> simp_all [SpanState.hold?, SpanState.isFinal]
  | release h =>
    obtain ⟨-, -, hspan, -⟩ := release?_eq_some h
    rw [hspan]
    cases hs : s.state <;> simp_all [SpanState.release?, SpanState.isFinal]

/-- No turn opens a span. -/
theorem Turn.isOpen (h : s.Turn t) (ho : t.state.isOpen = true) : s.state.isOpen = true := by
  cases h with
  | change h =>
    cases h with
    | none => exact ho
    | edit h => rwa [← h.state_pending.1]
    | inform => exact ho
    | close hopen time => exact hopen
    | process hp =>
      obtain ⟨-, rfl⟩ := process?_eq_some hp
      contradiction
    | freeze => exact ho
  | discard h =>
    obtain ⟨-, -, rfl⟩ := discard?_eq_some h
    contradiction
  | hold h =>
    obtain ⟨state, hstate, rfl⟩ := hold?_eq_some h
    cases hs : s.state <;> simp_all [SpanState.hold?, SpanState.isOpen] <;> subst hstate <;>
      contradiction
  | release h =>
    obtain ⟨-, -, hspan, -⟩ := release?_eq_some h
    rw [hspan] at ho
    dsimp only at ho
    split at ho
    · cases hs : s.state <;> simp_all [SpanState.release?, SpanState.isOpen]
    · exact ho

end Span
end SpanRelay
