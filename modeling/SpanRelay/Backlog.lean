import SpanRelay.Backlog.Links

/-!
Spans waiting for a batch. A backlog knows the newest of them, from which links lead to those that
came before, and counts them apart from the links. Main statement: spans that are added once each
come out as one batch, oldest first.
-/
namespace SpanRelay

structure Backlog where
  newest : Option SpanRef
  /-- The spans that wait. Without a bound, but never further from zero than there are spans, which
  is in the range of 63 bits and a sign up to 2 ^ 63 of them. -/
  counter : Int
  deriving DecidableEq, Repr

namespace Backlog

def empty : Backlog := ⟨none, 0⟩

/-- Links a span to the newest one and puts it in its place. -/
def add (b : Backlog) (l : Links) (span : SpanRef) : Backlog × Links :=
  (⟨some span, b.counter + 1⟩, l.set span b.newest)

def size (b : Backlog) : Nat := b.counter.toNat

def isEmpty (b : Backlog) : Bool := b.newest.isNone

/-- Detaches the spans from the newest one on, oldest first. -/
def takeBatch (b : Backlog) (l : Links) : List SpanRef × Backlog × Links :=
  let (batch, l) := l.walk b.newest
  (batch, ⟨none, b.counter - batch.length⟩, l)

/-- The spans that wait, newest first. -/
def Holds (b : Backlog) (l : Links) (spans : List SpanRef) : Prop :=
  l.Chain b.newest spans ∧ spans.Nodup

theorem Holds.add {b : Backlog} {l : Links} {spans : List SpanRef} {span : SpanRef}
    (h : b.Holds l spans) (hs : span ∉ spans) :
    (b.add l span).1.Holds (b.add l span).2 (span :: spans) := by
  refine ⟨.cons ?_, List.nodup_cons.2 ⟨hs, h.2⟩⟩
  show (l.set span b.newest).Chain ((l.set span b.newest).before? span) spans
  rw [Links.before?_set, if_pos rfl]
  exact h.1.set hs

theorem Holds.takeBatch_eq {b : Backlog} {l : Links} {spans : List SpanRef} (h : b.Holds l spans) :
    (b.takeBatch l).1 = spans.reverse := h.1.walk_eq h.2

theorem holds_takeBatch (b : Backlog) (l : Links) :
    (b.takeBatch l).2.1.Holds (b.takeBatch l).2.2 [] := ⟨.nil, .nil⟩

end Backlog
end SpanRelay
