import SpanRelay.Proofs.Recorder.Contexts

/-!
Where a span stands in its trace. The trace, the number of a span and that of its parent are set
when it is built, and no use of a recorder changes them afterwards.
-/
namespace SpanRelay

open Recorder

namespace Span

/-- The trace of a span, its own number and that of its parent. -/
def descent (s : Span) : SpanContext × SpanId := (s.context, s.parent)

variable {s t : Span}

theorem descent_setProbability (s : Span) (p : Binary64) :
    (s.setProbability p).descent = s.descent := rfl

theorem Edit.descent (h : s.Edit t) : t.descent = s.descent := by
  cases h with
  | rename name =>
    unfold Span.rename
    split <;> rfl
  | set key value =>
    unfold setAttribute countDropped
    split <;> rfl
  | remove key =>
    unfold removeAttribute
    split <;> rfl

theorem Advance.descent (h : s.Advance t) : t.descent = s.descent := by
  cases h with
  | sample p => exact descent_setProbability s p
  | beginEnd h time =>
    obtain ⟨-, rfl⟩ := beginEnd?_eq_some h
    rfl
  | finishEnd =>
    unfold Span.finishEnd move?
    cases s.state <;> rfl
  | process h =>
    obtain ⟨-, rfl⟩ := process?_eq_some h
    rfl
  | freeze => rfl

theorem descent_of_discard? {timers : List Timer} (h : s.discard? = some (timers, t)) :
    t.freeze.descent = s.descent := by
  obtain ⟨-, -, rfl⟩ := discard?_eq_some h
  rfl

theorem descent_of_release? {id : HoldId} {time : Option Ticks} {freed : Release}
    (h : s.release? id time = some freed) : freed.span.descent = s.descent := by
  rw [(release?_eq_some h).2.2.1]
  rfl

theorem descent_of_hold? {timer : Timer} (h : s.hold? timer = some t) :
    t.descent = s.descent := by
  obtain ⟨state, -, rfl⟩ := hold?_eq_some h
  rfl

theorem descent_create (context : SpanContext) (parent : SpanId) (kind : SpanKind)
    (category : SpanCategory) (start : Ticks) (makesContext : Bool)
    (metrics : Option SpanMetrics) (limits : AttributeLimits) (name : String) :
    (create context parent kind category start makesContext metrics limits name).descent =
      (context, parent) := by
  unfold create
  dsimp only
  split <;> rfl

/-- A new span has no attribute but its category. -/
theorem get?_firstClassKey_create (context : SpanContext) (parent : SpanId) (kind : SpanKind)
    (category : SpanCategory) (start : Ticks) (makesContext : Bool)
    (metrics : Option SpanMetrics) (limits : AttributeLimits) (name : String) :
    (create context parent kind category start makesContext metrics limits name).attributes.get?
      firstClassKey = none := by
  unfold create
  dsimp only
  split
  · rw [setInternal, Dictionary.get?_insert, if_neg (by decide), Dictionary.get?_empty]
  · exact Dictionary.get?_empty _

/-- Attributes of the library's own, set before any callback is shown the span. -/
def dress (own : List (String × String)) (s : Span) : Span :=
  own.foldl (fun s e => s.setInternal e.1 (.text e.2)) s

theorem descent_dress (own : List (String × String)) (s : Span) :
    (s.dress own).descent = s.descent := by
  obtain ⟨a, ha⟩ := exists_foldl_setInternal own s
  rw [dress, ha]
  rfl

theorem get?_dress {own : List (String × String)} {key : String} (h : key ∉ own.map Prod.fst)
    (s : Span) : (s.dress own).attributes.get? key = s.attributes.get? key := by
  induction own generalizing s with
  | nil => rfl
  | cons e own ih =>
    rw [List.map_cons, List.mem_cons, not_or] at h
    have hrest := ih h.2 (s.setInternal e.1 (.text e.2))
    rw [dress, List.foldl_cons, ← dress, hrest, setInternal, Dictionary.get?_insert,
      if_neg (Ne.symm h.1)]

end Span

namespace Recorder

variable {r t u : Recorder} {ref : SpanRef} {s v : Span} {thread : Nat}

/-- Every span is where it was in its trace. -/
def SameDescent (r t : Recorder) : Prop :=
  ∀ ref, (t.span? ref).map Span.descent = (r.span? ref).map Span.descent

theorem SameDescent.refl (r : Recorder) : r.SameDescent r := fun _ => rfl

theorem SameDescent.trans (h : r.SameDescent t) (g : t.SameDescent u) : r.SameDescent u :=
  fun ref => (g ref).trans (h ref)

theorem SameDescent.of_spans (h : t.spans = r.spans) : r.SameDescent t := by
  intro ref
  unfold span?
  rw [h]

theorem SameDescent.exists (h : r.SameDescent t) (hs : r.span? ref = some s) :
    ∃ v, t.span? ref = some v ∧ v.descent = s.descent := by
  have hsame := h ref
  rw [hs, Option.map_some] at hsame
  exact Option.map_eq_some_iff.mp hsame

theorem sameDescent_put (hs : r.span? ref = some s) (hv : v.descent = s.descent) :
    r.SameDescent (r.put ref v) := by
  intro other
  rw [span?_put hs]
  split
  next h => rw [← h, hs, Option.map_some, Option.map_some, hv]
  next => rfl

theorem sameDescent_cancelTimers (r : Recorder) (timers : List Timer) :
    r.SameDescent (r.cancelTimers timers) := by
  intro ref
  rw [span?_cancelTimers]

theorem sameDescent_onStack (r : Recorder) (thread : Nat) (f : ContextStack → ContextStack) :
    r.SameDescent (r.onStack thread f) := .of_spans (alike_onStack r thread f).spans

theorem sameDescent_modify {f : Span → Span} (hf : ∀ s : Span, (f s).descent = s.descent)
    (r : Recorder) (ref : SpanRef) : r.SameDescent (r.modify ref f) := by
  cases hs : r.span? ref with
  | none =>
    rw [modify_of_none hs]
    exact .refl r
  | some s =>
    rw [modify_of_span? hs]
    exact sameDescent_put hs (hf s)

end Recorder

variable {K : SpanRef → Prop} {r t : Recorder}

theorem Touch.sameDescent (h : Touch K r t) : r.SameDescent t := by
  cases h with
  | edit hk hs h => exact sameDescent_put hs h.descent
  | inform hk hs key value => exact sameDescent_put hs rfl
  | advance hs h => exact sameDescent_put hs h.descent
  | detach hs ho thread => exact sameDescent_onStack r thread _
  | _ => exact .of_spans rfl

theorem Stride.sameDescent (h : Stride K r t) : r.SameDescent t := by
  cases h with
  | touch h => exact h.sameDescent
  | discard hs hd =>
    exact (sameDescent_put hs (Span.descent_of_discard? hd)).trans (sameDescent_cancelTimers _ _)
  | @release ref s id time freed hs hr =>
    have hput := sameDescent_put hs (Span.descent_of_release? hr)
    have hnote : (r.put ref freed.span).SameDescent
        ((r.put ref freed.span).emit (.released id time)) := .of_spans rfl
    exact (hput.trans hnote).trans (sameDescent_cancelTimers _ _)
  | empty =>
    obtain ⟨handles, heq⟩ := exists_emptied_eq r
    rw [heq]
    exact .of_spans rfl
  | _ => exact .of_spans rfl

theorem Strides.sameDescent (h : Strides K r t) : r.SameDescent t := by
  induction h with
  | refl => exact .refl _
  | tail _ hone ih => exact ih.trans hone.sameDescent

namespace Recorder

variable {r t u : Recorder} {ref : SpanRef} {s v : Span} {thread : Nat}

/-! ## Uses -/

theorem sameDescent_runStartCallbacks (r : Recorder) (thread : Nat) (ref : SpanRef)
    (items : List Registration) : r.SameDescent (runStartCallbacks thread ref items r) :=
  (touches_runStartCallbacks (setsAside_none r) thread id items).strides.sameDescent

/-- Creating a span changes nothing of where spans are in their traces once it is built. -/
theorem sameDescent_use_of_request {x : Use} {fresh : FreshIds} {q : SpanRequest}
    (hx : x.request? = some (thread, fresh, q)) :
    (r.build thread fresh q).2.SameDescent (r.use x) := by
  unfold Use.request? at hx
  split at hx
  · obtain ⟨rfl, rfl, rfl⟩ := by simpa using hx
    exact sameDescent_runStartCallbacks _ _ _ _
  next own =>
    obtain ⟨rfl, rfl, rfl⟩ := by simpa using hx
    exact (sameDescent_modify (Span.descent_dress own) _ _).trans
      (sameDescent_runStartCallbacks _ _ _ _)
  · contradiction

theorem sameDescent_hold (r : Recorder) (ref : SpanRef) (timeout : Nanos) :
    r.SameDescent (r.hold ref timeout).2 := by
  unfold hold
  split
  · exact .refl r
  · dsimp only
    split
    · exact .refl r
    next v hv =>
      obtain ⟨s, hs, hh⟩ := Option.bind_eq_some_iff.mp hv
      exact (sameDescent_put hs (Span.descent_of_hold? hh)).trans (.of_spans rfl)

theorem sameDescent_current? (r : Recorder) (thread : Nat) :
    r.SameDescent (r.current? thread).2 := by
  unfold current?
  split
  · exact .refl r
  · exact sameDescent_onStack r thread _

theorem sameDescent_findOpen? (r : Recorder) (thread : Nat) (category : SpanCategory) :
    r.SameDescent (r.findOpen? thread category).2 := by
  unfold findOpen?
  split
  · exact .refl r
  · exact sameDescent_onStack r thread _

theorem sameDescent_use_of_none {x : Use} (hx : x.request? = none) :
    r.SameDescent (r.use x) := by
  have hedit : ∀ {f : Span → Span}, (∀ s : Span, s.Edit (f s)) → ∀ ref,
      r.SameDescent (r.modify ref f) :=
    fun hf => sameDescent_modify (fun s => (hf s).descent) r
  have hk := setsAside_none r
  cases x with
  | call m =>
    cases m with
    | create | createWith => contradiction
    | rename ref name => exact hedit (fun _ => .rename name) ref
    | setAttribute ref key value => exact hedit (fun _ => .set key value) ref
    | removeAttribute ref key => exact hedit (fun _ => .remove key) ref
    | finish thread ref time =>
      have hend := touches_endWith (touching_handOver _ thread) hk thread ref time
      exact hend.strides.sameDescent
    | discard thread ref => exact (strides_discard (K := fun _ => False) r thread ref).sameDescent
    | claim ref => exact (strides_claim (K := fun _ => False) r ref).sameDescent
    | present thread ref => exact (touching_handOver _ thread r ref hk).strides.sameDescent
    | hold ref timeout => exact sameDescent_hold r ref timeout
    | upgrade id => exact (strides_upgrade (K := fun _ => False) r id).sameDescent
    | closeHold thread id time => exact (strides_release hk thread id _).sameDescent
    | cancelHold thread id => exact (strides_release hk thread id none).sameDescent
    | expire thread count => exact (strides_fireUpTo hk count thread).sameDescent
    | setClock | setSampler => exact .of_spans rfl
    | enrol atEnd priority label acts =>
      exact (strides_enrol (K := fun _ => False) r _ priority).sameDescent
    | force => exact (touches_forceCurrentBatch (K := fun _ => False) r).strides.sameDescent
    | collect => exact (strides_collectNextBatch (K := fun _ => False) r).sameDescent
  | keep | letGo | letGoHold => exact .of_spans rfl
  | look thread | lookContext thread => exact sameDescent_current? r thread
  | find thread category => exact sameDescent_findOpen? r thread category
  | clear thread => exact sameDescent_onStack r thread _

end Recorder
end SpanRelay
