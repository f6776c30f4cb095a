import SpanRelay.Hold

/-!
Links between spans that wait. A span has one link, wherever it waits, and setting it again replaces
it. A walk follows the links from a span on and clears them behind itself, so it ends also where the
links lead in a circle. Main statement: along a chain without repetition a walk passes the whole
chain.
-/
namespace SpanRelay

structure Links where
  /-- What each span is linked to, by its place. -/
  table : Array (Option SpanRef)
  deriving DecidableEq, Repr

namespace Links

def empty : Links := ⟨#[]⟩

/-- The span that came before a waiting span. -/
def before? (l : Links) (span : SpanRef) : Option SpanRef := (l.table[span]?).join

def set (l : Links) (span : SpanRef) (before : Option SpanRef) : Links :=
  if span < l.table.size then ⟨l.table.setIfInBounds span before⟩
  else ⟨(l.table ++ Array.replicate (span - l.table.size) none).push before⟩

/-- How many spans are linked to another one. -/
def count (l : Links) : Nat := l.table.countP Option.isSome

/-- A walk of bounded length; the batch is what was passed, oldest first. -/
def walkUpTo : Nat → Option SpanRef → Links → List SpanRef → List SpanRef × Links
  | _, none, l, batch => (batch, l)
  | 0, some _, l, batch => (batch, l)
  | fuel + 1, some span, l, batch =>
    walkUpTo fuel (l.before? span) (l.set span none) (span :: batch)

/-- Passes along the links from a span on. All spans that are passed but the last give up a link. -/
def walk (l : Links) (first : Option SpanRef) : List SpanRef × Links :=
  walkUpTo (l.count + 1) first l []

/-! ## Setting links -/

@[simp] theorem before?_set (l : Links) (span other : SpanRef) (before : Option SpanRef) :
    (l.set span before).before? other = if span = other then before else l.before? other := by
  unfold before? set
  split <;> grind

/-- Clearing a link leaves one link less. -/
theorem count_set_none {l : Links} {span before : SpanRef} (h : l.before? span = some before) :
    (l.set span none).count + 1 = l.count := by
  have hs : l.table[span]? = some (some before) := Option.join_eq_some_iff.1 h
  obtain ⟨hlt, hget⟩ := Array.getElem?_eq_some_iff.1 hs
  have hpos : 0 < l.table.countP Option.isSome :=
    Array.countP_pos_iff.2 ⟨some before, hget ▸ Array.getElem_mem hlt, rfl⟩
  simp only [count, set, if_pos hlt, Array.setIfInBounds, dif_pos hlt, Array.countP_set, hget]
  simp
  omega

/-! ## Walks -/

/-- The spans that are linked from one on, newest first. -/
inductive Chain (l : Links) : Option SpanRef → List SpanRef → Prop where
  | nil : Chain l none []
  | cons {span : SpanRef} {rest : List SpanRef} :
      Chain l (l.before? span) rest → Chain l (some span) (span :: rest)

/-- A chain stays what it is when a span outside it is linked. -/
theorem Chain.set {l : Links} {first : Option SpanRef} {spans : List SpanRef} {span : SpanRef}
    {before : Option SpanRef} (h : l.Chain first spans) (hs : span ∉ spans) :
    (l.set span before).Chain first spans := by
  induction h with
  | nil => exact .nil
  | @cons other rest _ ih =>
    rw [List.mem_cons, not_or] at hs
    refine .cons ?_
    rw [before?_set, if_neg hs.1]
    exact ih hs.2

theorem Chain.walkUpTo_eq {l : Links} {first : Option SpanRef} {spans : List SpanRef} {fuel : Nat}
    (h : l.Chain first spans) (hn : spans.Nodup) (hf : l.count < fuel) (batch : List SpanRef) :
    (walkUpTo fuel first l batch).1 = spans.reverse ++ batch := by
  induction spans generalizing l first fuel batch with
  | nil =>
    cases h
    cases fuel <;> rfl
  | cons span rest ih =>
    cases h with
    | cons h =>
      obtain ⟨hs, hn⟩ := List.nodup_cons.1 hn
      obtain _ | fuel := fuel
      · omega
      · rw [walkUpTo]
        cases hb : l.before? span with
        | none =>
          rw [hb] at h
          cases h
          cases fuel <;> simp [walkUpTo]
        | some before =>
          have := count_set_none hb
          rw [← hb, ih (h.set hs) hn (by omega)]
          simp

theorem Chain.walk_eq {l : Links} {first : Option SpanRef} {spans : List SpanRef}
    (h : l.Chain first spans) (hn : spans.Nodup) : (l.walk first).1 = spans.reverse := by
  simpa [walk] using h.walkUpTo_eq hn (Nat.lt_succ_self _) []

end Links
end SpanRelay
