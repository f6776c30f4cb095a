import SpanRelay.Backlog.Links

/-!
Trails of links: the spans that a walk from a span on would pass. A chain of links never comes back
to a span, so a trail that ends is without repetition, and a change of a link elsewhere leaves it as
it is.
-/
namespace SpanRelay.Links

/-- The spans linked from one on, oldest first. -/
def trail (l : Links) (first : Option SpanRef) : List SpanRef := (l.walk first).1

/-- The links from here on come to an end. -/
def Ends (l : Links) (first : Option SpanRef) : Prop := ∃ spans, l.Chain first spans

variable {l : Links} {first : Option SpanRef} {span : SpanRef} {spans others : List SpanRef}

theorem Chain.unique (h : l.Chain first spans) (g : l.Chain first others) : spans = others := by
  induction h generalizing others with
  | nil =>
    cases g
    rfl
  | cons _ ih =>
    cases g with
    | cons g => rw [ih g]

theorem Chain.of_mem (h : l.Chain first spans) (hs : span ∈ spans) :
    ∃ rest, l.Chain (some span) (span :: rest) ∧ rest.length < spans.length := by
  induction h with
  | nil => simp at hs
  | @cons other rest hrest ih =>
    rcases List.mem_cons.mp hs with rfl | hs
    · exact ⟨rest, .cons hrest, Nat.lt_succ_self _⟩
    · obtain ⟨after, hafter, hlt⟩ := ih hs
      exact ⟨after, hafter, Nat.lt_succ_of_lt hlt⟩

/-- A chain that came back to a span would have no end. -/
theorem Chain.nodup (h : l.Chain first spans) : spans.Nodup := by
  induction h with
  | nil => exact .nil
  | @cons span rest hrest ih =>
    refine List.nodup_cons.mpr ⟨fun hmem => ?_, ih⟩
    obtain ⟨after, hafter, hlt⟩ := hrest.of_mem hmem
    cases hafter with
    | cons hafter => exact absurd (congrArg List.length (hrest.unique hafter)) (by omega)

theorem Chain.trail_eq (h : l.Chain first spans) : l.trail first = spans.reverse :=
  h.walk_eq h.nodup

theorem ends_none (l : Links) : l.Ends none := ⟨[], .nil⟩

/-- The newest span comes last, behind those that it leads to. -/
theorem Ends.trail_some (h : l.Ends (some span)) :
    l.trail (some span) = l.trail (l.before? span) ++ [span] ∧
      span ∉ l.trail (l.before? span) ∧ l.Ends (l.before? span) := by
  obtain ⟨spans, hchain⟩ := h
  have hnodup := hchain.nodup
  have htrail := hchain.trail_eq
  cases hchain with
  | @cons span rest hrest =>
    rw [htrail, hrest.trail_eq, List.reverse_cons]
    exact ⟨rfl, by simpa using (List.nodup_cons.mp hnodup).1, rest, hrest⟩

/-- A trail does not change with the link of a span outside it. -/
theorem Ends.set (h : l.Ends first) (hs : span ∉ l.trail first) (before : Option SpanRef) :
    (l.set span before).trail first = l.trail first ∧ (l.set span before).Ends first := by
  obtain ⟨spans, hchain⟩ := h
  rw [hchain.trail_eq, List.mem_reverse] at hs
  have hset : (l.set span before).Chain first spans := hchain.set hs
  exact ⟨hset.trail_eq.trans hchain.trail_eq.symm, spans, hset⟩

/-- Linking a new span in front of a trail puts it at the end. -/
theorem Ends.link (h : l.Ends first) (hlink : l.before? span = first) :
    l.trail (some span) = l.trail first ++ [span] ∧ l.Ends (some span) := by
  obtain ⟨spans, hchain⟩ := h
  rw [← hlink] at hchain
  have hnew : l.Chain (some span) (span :: spans) := .cons hchain
  rw [hnew.trail_eq, ← hlink, hchain.trail_eq, List.reverse_cons]
  exact ⟨rfl, _, hnew⟩

end SpanRelay.Links
