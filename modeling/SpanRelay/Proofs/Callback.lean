import SpanRelay.Callback
import SpanRelay.Proofs.Span

/-!
What end callbacks mean for the span that they are shown, as if nothing else came of them. A
callback answers by what the span is at its turn, after all that the callbacks before it have left
on the span.
-/
namespace SpanRelay

/-! ## Acts -/

namespace Act

def fails : Act → Bool
  | fail => true
  | _ => false

/-- What the act does to the span that it is shown, once the span was claimed. -/
def changes (act : Act) (s : Span) : Span :=
  match act with
  | set key value => s.setAttribute key value
  | copy source target => s.setAttribute target ((s.attributes.get? source).getD (.bool false))
  | remove key => (s.removeAttribute key).2
  | rename name => s.rename name
  | claim | look | veto | vetoNamed _ | vetoHaving _ | fail | enlist _ | finish _ _ => s

/-- Whether the act lets the span pass. -/
def passes (act : Act) (s : Span) : Bool :=
  match act with
  | veto => false
  | vetoNamed name => !(s.name == name)
  | vetoHaving key => !s.attributes.contains key
  | set _ _ | copy _ _ | remove _ | rename _ | claim | look | fail | enlist _ | finish _ _ => true

theorem state_changes (act : Act) (s : Span) : (act.changes s).state = s.state := by
  cases act with
  | set key value => exact (Span.Edit.set key value).state_pending.1
  | copy source target => exact (Span.Edit.set target _).state_pending.1
  | remove key => exact (Span.Edit.remove key).state_pending.1
  | rename name => exact (Span.Edit.rename name).state_pending.1
  | claim | look | veto | vetoNamed | vetoHaving | fail | enlist | finish => rfl

/-- What acts leave of a span, up to the first one that fails. -/
def leave (acts : List Act) (s : Span) : Span :=
  (acts.takeWhile fun act => !act.fails).foldl (fun s act => act.changes s) s

/-- All acts let the span pass, each as it is when its turn comes. -/
def allPass : List Act → Span → Bool
  | [], _ => true
  | act :: rest, s => act.passes s && allPass rest (act.changes s)

theorem leave_cons_of_fails {act : Act} (h : act.fails = true) (rest : List Act) (s : Span) :
    leave (act :: rest) s = s := by
  unfold leave
  rw [List.takeWhile_cons_of_neg (by simp [h])]
  rfl

theorem leave_cons {act : Act} (h : act.fails = false) (rest : List Act) (s : Span) :
    leave (act :: rest) s = leave rest (act.changes s) := by
  unfold leave
  rw [List.takeWhile_cons_of_pos (by simp [h])]
  rfl

theorem state_leave (acts : List Act) (s : Span) : (leave acts s).state = s.state := by
  induction acts generalizing s with
  | nil => rfl
  | cons act rest ih =>
    cases h : act.fails with
    | true => rw [leave_cons_of_fails h]
    | false => rw [leave_cons h, ih, state_changes]

end Act

/-! ## Callbacks -/

namespace Callback

/-- A callback keeps the span if it fails, or if all its acts let the span pass. -/
def keeps (c : Callback) (s : Span) : Bool := c.acts.any Act.fails || Act.allPass c.acts s

def leaves (c : Callback) (s : Span) : Span := Act.leave c.acts s

/-! ### In a row -/

variable {table : CallbackRef → Callback} {items : List Registration} {s : Span}

/-- What these callbacks leave of a span, one after another. -/
def leftBy (table : CallbackRef → Callback) (items : List Registration) (s : Span) : Span :=
  items.foldl (fun s item => (table item.callback).leaves s) s

/-- The callbacks that are called for a span, up to the first veto, with the answer of each. -/
def answered (table : CallbackRef → Callback) :
    List Registration → Span → List (Registration × Bool)
  | [], _ => []
  | item :: rest, s =>
    let keep := (table item.callback).keeps s
    (item, keep) ::
      if keep then answered table rest ((table item.callback).leaves s) else []

/-- They are called in order and none is left out, until the first veto. -/
theorem answered_prefix (items : List Registration) (s : Span) :
    (answered table items s).map Prod.fst <+: items := by
  induction items generalizing s with
  | nil => exact List.prefix_rfl
  | cons item rest ih =>
    unfold answered
    dsimp only
    split
    · exact List.cons_prefix_cons.mpr ⟨rfl, ih _⟩
    · exact List.cons_prefix_cons.mpr ⟨rfl, List.nil_prefix⟩

theorem answered_all (h : ∀ a ∈ answered table items s, a.2 = true) :
    (answered table items s).map Prod.fst = items := by
  induction items generalizing s with
  | nil => rfl
  | cons item rest ih =>
    unfold answered at h ⊢
    dsimp only at h ⊢
    have hkeep := h _ List.mem_cons_self
    rw [if_pos hkeep] at h ⊢
    rw [List.map_cons, ih fun a ha => h a (List.mem_cons_of_mem _ ha)]

/-- Each answers for the span as those before it have left it, and the first veto ends the row. -/
theorem answered_split {front back : List (Registration × Bool)} {a : Registration × Bool}
    (h : answered table items s = front ++ a :: back) :
    a.2 = (table a.1.callback).keeps (leftBy table (front.map Prod.fst) s) ∧
      (a.2 = false → back = []) := by
  induction items generalizing s front with
  | nil => simp [answered] at h
  | cons item rest ih =>
    unfold answered at h
    dsimp only at h
    cases front with
    | nil =>
      obtain ⟨rfl, rfl⟩ := List.cons.inj h
      exact ⟨rfl, fun hveto => if_neg (Bool.not_eq_true _ ▸ hveto)⟩
    | cons b front =>
      obtain ⟨rfl, htail⟩ := List.cons.inj h
      split at htail
      · have hrest := ih htail
        exact hrest
      · simp at htail

end Callback
end SpanRelay
