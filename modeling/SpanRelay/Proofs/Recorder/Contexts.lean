import SpanRelay.Proofs.Recorder.Liveness

/-!
The current span of a thread. Stacks hold on to no span: entries die when the last handle is
dropped, or when the span ends, on any thread, and they are taken off only when a look at the stack
passes them. What is live on a stack is always what was attached since it was cleared and still
lives.
-/
namespace SpanRelay

open Recorder

namespace Recorder

variable {r t : Recorder} {ref other : SpanRef} {s v : Span} {thread T : Nat}
  {seen : List SpanRef}

/-! ## What a stack tells -/

/-- The live entries on the stack of a thread are the live ones of those that were attached. -/
structure Tracks (T : Nat) (seen : List SpanRef) (r : Recorder) : Prop where
  borrowed : r.borrowed = []
  entries_lt : ∀ ref ∈ (r.stackOf T).entries, ref < r.spans.size
  seen_lt : ∀ ref ∈ seen, ref < r.spans.size
  live : (r.stackOf T).live r.isLive = seen.filter r.isLive

theorem Tracks.calm (h : Tracks T seen r) (c : r.Calm t) : Tracks T seen t := by
  have hagain : ∀ l : List SpanRef, (∀ ref ∈ l, ref < r.spans.size) →
      (l.filter r.isLive).filter t.isLive = l.filter t.isLive := by
    intro l hl
    rw [List.filter_filter]
    apply List.filter_congr
    intro ref hm
    cases hlive : t.isLive ref with
    | false => rfl
    | true => rw [c.isLive ref (hl ref hm) hlive, Bool.true_and]
  constructor
  · exact c.borrowed.trans h.borrowed
  · intro ref hm
    exact Nat.lt_of_lt_of_le (h.entries_lt ref (c.subset T hm)) c.size
  · intro ref hm
    exact Nat.lt_of_lt_of_le (h.seen_lt ref hm) c.size
  · calc (t.stackOf T).live t.isLive
        = (r.stackOf T).live t.isLive := c.live T
      _ = ((r.stackOf T).live r.isLive).filter t.isLive := (hagain _ h.entries_lt).symm
      _ = (seen.filter r.isLive).filter t.isLive := by rw [h.live]
      _ = seen.filter t.isLive := hagain seen h.seen_lt

theorem Tracks.onStack_of_ne (h : Tracks T seen r) (ht : thread ≠ T)
    (f : ContextStack → ContextStack) : Tracks T seen (r.onStack thread f) := by
  have hstack := stackOf_onStack r thread f T
  have hspans := (alike_onStack r thread f).spans
  rw [if_neg fun hc => ht hc.1] at hstack
  constructor
  · exact (borrowed_onStack r thread f).trans h.borrowed
  · rw [hstack, hspans]
    exact h.entries_lt
  · rw [hspans]
    exact h.seen_lt
  · rw [hstack, isLive_onStack]
    exact h.live

theorem Tracks.onStack_self (h : Tracks T seen r) {f : ContextStack → ContextStack}
    {later : List SpanRef} (hentries : ∀ ref ∈ (f (r.stackOf T)).entries, ref < r.spans.size)
    (hlater : ∀ ref ∈ later, ref < r.spans.size)
    (hlive : (f (r.stackOf T)).live r.isLive = later.filter r.isLive) :
    Tracks T later (r.onStack T f) := by
  have hstack := stackOf_onStack r T f T
  have hspans := (alike_onStack r T f).spans
  rw [if_pos ⟨rfl, by simp [h.borrowed]⟩] at hstack
  constructor
  · exact (borrowed_onStack r T f).trans h.borrowed
  · rw [hstack, hspans]
    exact hentries
  · rw [hspans]
    exact hlater
  · rw [hstack, isLive_onStack]
    exact hlive

end Recorder

variable {r t : Recorder} {ref other : SpanRef} {s v : Span} {thread T : Nat}
  {seen : List SpanRef} {K : SpanRef → Prop}

theorem Stride.tracks (h : Stride K r t) (hr : Tracks T seen r) : Tracks T seen t := by
  cases h with
  | touch h => exact hr.calm h.calm
  | discard hs hd =>
    exact (hr.calm (calm_put hs (Span.Turn.discard hd).isOpen)).calm (calm_cancelTimers ..)
  | upgrade hx => exact hr.calm (calm_upgrade hx)
  | @release ref s id time freed hs hr' =>
    have hput := hr.calm (calm_put hs (Span.Turn.release hr').isOpen)
    have hnote := hput.calm (Touch.emit (K := K) (.released id time)).calm
    exact hnote.calm (calm_cancelTimers ..)
  | @pop timer q now hp =>
    have htimers : q.timers ⊆ r.deadlines.timers := by
      rw [(DeadlineQueue.popDue?_eq_some hp).1]
      exact List.subset_cons_self _ _
    exact hr.calm (calm_deadlines htimers)
  | empty =>
    have hhandles := handles_emptied r
    obtain ⟨handles, heq⟩ := exists_emptied_eq r
    rw [heq] at hhandles ⊢
    exact (hr.calm (calm_handles hhandles)).calm (calm_of_same rfl rfl rfl rfl rfl rfl rfl rfl)
  | adjust => exact hr.calm (calm_of_same rfl rfl rfl rfl rfl rfl rfl rfl)

theorem Strides.tracks (h : Strides K r t) (hr : Tracks T seen r) : Tracks T seen t := by
  induction h with
  | refl => exact hr
  | tail _ hone ih => exact hone.tracks ih

namespace Recorder

/-! ## Creating -/

theorem Tracks.parentFor (h : Tracks T seen r) (thread : Nat) (explicit : Option SpanContext) :
    Tracks T seen (r.parentFor thread explicit).2 := by
  cases explicit with
  | some c => exact h
  | none =>
    unfold Recorder.parentFor currentContext? current?
    dsimp only
    split
    · exact h
    · exact h.calm (calm_prune r thread)

/-- A new span is found behind the others, and somebody holds on to it. -/
theorem Tracks.push (h : Tracks T seen r) (s : Span) :
    Tracks T seen ({ r with spans := r.spans.push s }.addHandle r.spans.size) := by
  let t : Recorder := { r with spans := r.spans.push s }.addHandle r.spans.size
  have hsize : t.spans.size = r.spans.size + 1 := Array.size_push _
  apply h.calm
  apply calm_of_isLive (r := r) (t := t) rfl rfl (by omega)
  intro ref hlt hlive
  obtain ⟨halive, v, hv, hopen⟩ := isLive_iff.mp hlive
  have hold : t.span? ref = r.span? ref :=
    (Array.getElem?_push_lt hlt).trans (Array.getElem?_eq_getElem hlt).symm
  rw [hold] at hv
  have hne : ref ≠ r.spans.size := Nat.ne_of_lt hlt
  exact isLive_iff.mpr ⟨isAlive_of_handle halive hne rfl rfl rfl rfl rfl, v, hv, hopen⟩

theorem Tracks.attach (h : Tracks T seen r) (hlt : ref < r.spans.size)
    (hlive : r.isLive ref = true) (thread : Nat) :
    Tracks T (if thread = T then ref :: seen else seen) (r.attach thread ref) := by
  by_cases ht : thread = T
  · subst ht
    rw [if_pos rfl]
    apply h.onStack_self
    · intro e he
      rcases List.mem_cons.mp he with rfl | he
      · exact hlt
      · exact h.entries_lt e he
    · intro e he
      rcases List.mem_cons.mp he with rfl | he
      · exact hlt
      · exact h.seen_lt e he
    · have hbefore := h.live
      unfold ContextStack.live at hbefore ⊢
      simp [ContextStack.attach, hlive, hbefore]
  · rw [if_neg ht]
    exact h.onStack_of_ne ht _

theorem Tracks.build (h : Tracks T seen r) (thread : Nat) (fresh : FreshIds) (q : SpanRequest) :
    Tracks T (if thread = T ∧ q.makesContext = true then (r.build thread fresh q).1 :: seen else seen)
      (r.build thread fresh q).2 := by
  have hparent := h.parentFor thread q.parent
  rcases hp : r.parentFor thread q.parent with ⟨parent, t⟩
  rw [hp] at hparent
  unfold Recorder.build
  simp only [hp]
  generalize hs : (if q.category.marksFirstClass = true then Span.setInternal _ _ _ else _) = s
  have hfresh : s.Fresh := by
    rw [← hs]
    split
    · exact (Span.fresh_create ..).setInternal _ _
    · exact Span.fresh_create ..
  have hpush := hparent.push s
  by_cases hc : q.makesContext = true
  · simp only [hc, and_true, if_true]
    apply hpush.attach
    · show t.spans.size < (t.spans.push s).size
      rw [Array.size_push]
      exact Nat.lt_succ_self _
    · apply isLive_iff.mpr
      constructor
      · apply isAlive_iff.mpr
        exact .inl (List.mem_cons_self ..)
      · refine ⟨s, Array.getElem?_push_size, ?_⟩
        rw [hfresh.state]
        rfl
  · rw [if_neg hc, if_neg fun h => hc h.2]
    exact hpush

/-! ## Moves -/

theorem Tracks.runStartCallbacks (h : Tracks T seen r) (thread : Nat) (ref : SpanRef)
    (items : List Registration) : Tracks T seen (runStartCallbacks thread ref items r) :=
  (touches_runStartCallbacks (setsAside_none r) thread id items).strides.tracks h

theorem Tracks.create (h : Tracks T seen r) (thread : Nat) (fresh : FreshIds) (q : SpanRequest) :
    Tracks T (if thread = T ∧ q.makesContext = true then (r.create thread fresh q).1 :: seen else seen)
      (r.create thread fresh q).2 :=
  (h.build thread fresh q).runStartCallbacks thread _ _

theorem Tracks.modify (h : Tracks T seen r) {f : Span → Span}
    (hf : ∀ s : Span, (f s).state.isOpen = true → s.state.isOpen = true) (ref : SpanRef) :
    Tracks T seen (r.modify ref f) := by
  cases hs : r.span? ref with
  | none => rwa [modify_of_none hs]
  | some s =>
    rw [modify_of_span? hs]
    exact h.calm (calm_put hs (hf s))

theorem Tracks.edit (h : Tracks T seen r) {f : Span → Span} (hf : ∀ s : Span, s.Edit (f s))
    (ref : SpanRef) : Tracks T seen (r.modify ref f) :=
  h.modify (fun s => (Span.Turn.change (.edit (hf s))).isOpen) ref

theorem Tracks.createWith (h : Tracks T seen r) (thread : Nat) (fresh : FreshIds) (q : SpanRequest)
    (own : List (String × String)) :
    Tracks T (if thread = T ∧ q.makesContext = true then (r.createWith thread fresh q own).1 :: seen
      else seen) (r.createWith thread fresh q own).2 := by
  have hdress : Tracks T
      (if thread = T ∧ q.makesContext = true then (r.build thread fresh q).1 :: seen else seen)
      ((r.build thread fresh q).2.modify (r.build thread fresh q).1
        fun s => own.foldl (fun s e => s.setInternal e.1 (.text e.2)) s) := by
    apply (h.build thread fresh q).modify
    intro s ho
    obtain ⟨a, ha⟩ := Span.exists_foldl_setInternal own s
    rwa [ha] at ho
  exact hdress.runStartCallbacks thread _ _

/-- A hold keeps its span alive, which was alive before. -/
theorem Tracks.hold (h : Tracks T seen r) (hr : r.isAlive ref = true) (timeout : Nanos) :
    Tracks T seen (r.hold ref timeout).2 := by
  unfold Recorder.hold
  split
  · exact h
  · dsimp only
    split
    · exact h
    next v hh =>
      obtain ⟨s, hs, hh⟩ := Option.bind_eq_some_iff.mp hh
      have hput := calm_put hs (Span.Turn.hold hh).isOpen
      apply h.calm
      apply calm_of_isLive
      · rfl
      · rfl
      · exact hput.size
      · intro other hlt hlive
        obtain ⟨halive, u, hu, hopen⟩ := isLive_iff.mp hlive
        have hu : (r.put ref v).span? other = some u := hu
        by_cases hne : ref = other
        · rw [← hne, span?_put_self hs] at hu
          obtain rfl := Option.some.inj hu
          exact hne ▸ isLive_iff.mpr ⟨hr, s, hs, (Span.Turn.hold hh).isOpen hopen⟩
        · apply hput.isLive other hlt
          have hbefore := isAlive_of_hold (r := r) halive rfl rfl hne rfl rfl rfl rfl
          exact isLive_iff.mpr ⟨hbefore, u, hu, hopen⟩

/-! ## Uses -/

theorem Tracks.move (h : Tracks T seen r) {m : Move} (hm : r.Permits (.call m)) :
    Tracks T (r.attaches T seen (.call m)) (r.move m) := by
  cases m with
  | create thread fresh q => exact h.create thread fresh q
  | createWith thread fresh q own => exact h.createWith thread fresh q own
  | rename ref name => exact h.edit (fun _ => .rename name) ref
  | setAttribute ref key value => exact h.edit (fun _ => .set key value) ref
  | removeAttribute ref key => exact h.edit (fun _ => .remove key) ref
  | finish thread ref time =>
    have hend := touches_endWith (touching_handOver _ thread) (setsAside_none r) thread ref time
    exact hend.strides.tracks h
  | discard thread ref => exact (strides_discard (K := fun _ => False) r thread ref).tracks h
  | claim ref => exact (strides_claim (K := fun _ => False) r ref).tracks h
  | present thread ref => exact (touching_handOver _ thread r ref (setsAside_none r)).strides.tracks h
  | hold ref timeout => exact h.hold hm timeout
  | upgrade id => exact (strides_upgrade (K := fun _ => False) r id).tracks h
  | closeHold thread id time => exact (strides_release (setsAside_none r) thread id _).tracks h
  | cancelHold thread id => exact (strides_release (setsAside_none r) thread id none).tracks h
  | expire thread count => exact (strides_fireUpTo (setsAside_none r) count thread).tracks h
  | setClock | setSampler => exact h.calm (calm_of_same rfl rfl rfl rfl rfl rfl rfl rfl)
  | enrol atEnd priority label acts => exact (strides_enrol (K := fun _ => False) r _ priority).tracks h
  | force => exact (touches_forceCurrentBatch (K := fun _ => False) r).strides.tracks h
  | collect => exact (strides_collectNextBatch (K := fun _ => False) r).tracks h

theorem Tracks.keep (h : Tracks T seen r) (hr : r.isAlive ref = true) :
    Tracks T seen (r.addHandle ref) := by
  apply h.calm
  apply calm_of_isLive (r := r) (t := r.addHandle ref) rfl rfl (Nat.le_refl _)
  intro other _ hlive
  obtain ⟨halive, u, hu, hopen⟩ := isLive_iff.mp hlive
  have hbefore : r.isAlive other = true := by
    by_cases hne : other = ref
    · exact hne ▸ hr
    · exact isAlive_of_handle halive hne rfl rfl rfl rfl rfl
  exact isLive_iff.mpr ⟨hbefore, u, hu, hopen⟩

theorem Tracks.clear (h : Tracks T seen r) (thread : Nat) :
    Tracks T (if thread = T then [] else seen) (r.clearStack thread) := by
  by_cases ht : thread = T
  · subst ht
    rw [if_pos rfl]
    apply h.onStack_self
    · intro ref hm
      contradiction
    · intro ref hm
      contradiction
    · rfl
  · rw [if_neg ht]
    exact h.onStack_of_ne ht _

theorem calm_current? (r : Recorder) (thread : Nat) : r.Calm (r.current? thread).2 := by
  unfold current?
  split
  · exact calm_refl r
  · exact calm_prune r thread

theorem calm_findOpen? (r : Recorder) (thread : Nat) (category : SpanCategory) :
    r.Calm (r.findOpen? thread category).2 := by
  unfold findOpen?
  split
  · exact calm_refl r
  · exact calm_prune r thread

theorem Tracks.use (h : Tracks T seen r) {u : Use} (hu : r.Permits u) :
    Tracks T (r.attaches T seen u) (r.use u) := by
  cases u with
  | call m => exact h.move hu
  | keep ref => exact h.keep hu
  | letGo ref => exact h.calm (calm_handles List.erase_subset)
  | letGoHold id => exact h.calm (calm_heldHolds List.erase_subset)
  | look thread => exact h.calm (calm_current? r thread)
  | lookContext thread => exact h.calm (calm_current? r thread)
  | find thread category => exact h.calm (calm_findOpen? r thread category)
  | clear thread => exact h.clear thread

theorem Tracks.uses (h : Tracks T seen r) {uses : List Use} (hu : r.Permitted uses) :
    Tracks T (attached T r seen uses) (uses.foldl Recorder.use r) := by
  induction uses generalizing r seen with
  | nil => exact h
  | cons u rest ih => exact ih (h.use hu.1) hu.2

theorem tracks_start (clock : Clock) (limits : AttributeLimits) (timed : Bool) (sink : Sink)
    (sampler : Sampler) (trigger : Nat) (timeout : Nanos) :
    Tracks T [] (start clock limits timed sink sampler trigger timeout) := by
  constructor
  · rfl
  · intro ref hm
    contradiction
  · intro ref hm
    contradiction
  · rfl

/-! ## Looking -/

theorem Tracks.current?_eq (h : Tracks T seen r) : (r.current? T).1 = seen.find? r.isLive := by
  have hlive := h.live
  unfold current?
  rw [h.borrowed, List.contains_nil, if_neg Bool.false_ne_true]
  dsimp only
  rw [ContextStack.current?_eq, hlive, List.head?_filter]

theorem Tracks.findOpen?_eq (h : Tracks T seen r) (category : SpanCategory) :
    (r.findOpen? T category).1 =
      seen.find? fun ref => r.isLive ref && (r.span? ref).any (·.category == category) := by
  have hlive := h.live
  unfold findOpen?
  rw [h.borrowed, List.contains_nil, if_neg Bool.false_ne_true]
  dsimp only
  rw [ContextStack.find?_eq, hlive, List.find?_filter]
  simp only [Bool.decide_and, Bool.decide_eq_true]

/-- Looking at a stack leaves all spans as they are. -/
theorem contextOf?_current? (r : Recorder) (thread : Nat) :
    (r.current? thread).2.contextOf? = r.contextOf? := by
  unfold current?
  split
  · rfl
  · have hspan := (alike_onStack r thread (·.prune r.isLive)).span?
    funext ref
    unfold contextOf?
    dsimp only
    rw [hspan]

theorem Tracks.currentContext?_eq (h : Tracks T seen r) :
    (r.currentContext? T).1 = (seen.find? r.isLive).bind r.contextOf? := by
  unfold currentContext?
  dsimp only
  rw [h.current?_eq, contextOf?_current?]

/-- After any uses, on whatever threads they were, the current span of a thread is the newest that
was attached on it since its stack was cleared and that is alive and open, and the newest of a
category is found. What is live on the stack is what was attached and is live: nothing that is live
was taken off. -/
theorem current_uses (clock : Clock) (limits : AttributeLimits) (timed : Bool) (sink : Sink)
    (sampler : Sampler) (trigger : Nat) (timeout : Nanos) (T : Nat) {uses : List Use}
    (hu : (start clock limits timed sink sampler trigger timeout).Permitted uses) :
    let r₀ := start clock limits timed sink sampler trigger timeout
    let r := uses.foldl use r₀
    let seen := attached T r₀ [] uses
    let lives := fun ref => r.isAlive ref && (r.span? ref).any (·.state.isOpen)
    (r.current? T).1 = seen.find? lives ∧
      (r.currentContext? T).1 = (seen.find? lives).bind r.contextOf? ∧
      (∀ category, (r.findOpen? T category).1 =
        seen.find? fun ref => lives ref && (r.span? ref).any (·.category == category)) ∧
      (r.stackOf T).entries.filter lives = seen.filter lives := by
  intro r₀ r seen lives
  have h : Tracks T seen r :=
    (tracks_start clock limits timed sink sampler trigger timeout).uses hu
  have hlives : lives = r.isLive := (isLive_eq r).symm
  rw [hlives]
  exact ⟨h.current?_eq, h.currentContext?_eq, h.findOpen?_eq, h.live⟩

/-- A span that only its hold keeps alive is current again once the span above it was ended on
another thread, where a span that nobody holds on to is not current. -/
theorem current_uses_held :
    let uses : List Use := [
      .call (.create 0 (.ofNumbers 1 1) (.named "below")), .call (.hold 0 5), .letGo 0,
      .call (.create 0 (.ofNumbers 2 2) (.named "above")), .call (.finish 1 1 7),
      .call (.create 1 (.ofNumbers 3 3) (.named "dropped")), .letGo 2]
    let r := uses.foldl use (start default .standard true .nowhere .discarding 100 0)
    (r.current? 0).1 = some 0 ∧ (r.current? 1).1 = none := by
  intro uses r
  have hu : (start default .standard true .nowhere .discarding 100 0).Permitted uses := by
    simp only [uses, Permitted, Permits, true_and, and_true]
    decide +kernel
  have hfirst := current_uses default .standard true .nowhere .discarding 100 0 0 hu
  have hsecond := current_uses default .standard true .nowhere .discarding 100 0 1 hu
  constructor
  · exact hfirst.1.trans (by decide +kernel)
  · exact hsecond.1.trans (by decide +kernel)

end Recorder
end SpanRelay
