import Mathlib.Data.List.Pairwise
import SpanRelay.Backlog.Contention
import SpanRelay.Proofs.Backlog.Links
import SpanRelay.Proofs.Calls

/-!
Where spans are while several calls work on one backlog. A contest is orderly if what the calls have
detached, in the order in which they did, and what waits make up what has arrived, so that each span
is in one place, and each call knows the links that it depends on. The link of a span matters only
to the call or the backlog that has it.
-/
namespace SpanRelay

/-! ## What is where -/

def BacklogCall.span? : BacklogCall → Option SpanRef
  | add span => some span
  | takeBatch => none

def BacklogEvent.span? : BacklogEvent → Option SpanRef
  | call c => c.span?
  | step _ _ => none

namespace BacklogPoint

/-- The span of the call has become the newest one. -/
def hasArrived : BacklogPoint → Bool
  | countingOne | added => true
  | _ => false

def isCounting : BacklogPoint → Bool
  | countingOne => true
  | _ => false

def hasReturned : BacklogPoint → Bool
  | added | taken _ => true
  | _ => false

end BacklogPoint

namespace Links

/-- What a call has detached, oldest first: what is still to be walked, and what was walked. -/
def detached (l : Links) : BacklogCall × BacklogPoint → List SpanRef
  | (.takeBatch, .walking node batch) => l.trail node ++ batch
  | (.takeBatch, .uncounting batch) | (.takeBatch, .taken batch) => batch
  | _ => []

/-- What a call has detached and not yet taken off the counter. -/
def unsettled (l : Links) : BacklogCall × BacklogPoint → List SpanRef
  | (_, .taken _) => []
  | e => l.detached e

/-- A call for a batch is at one of its own points, and a call knows the links that it depends on: a
span that it is to put in front is linked already, and those that it walked past are linked to
none. -/
def Fits (l : Links) : BacklogCall × BacklogPoint → Prop
  | (.add span, .swapping seen) => l.before? span = seen
  | (.add _, _) | (.takeBatch, .detaching) => True
  | (.takeBatch, .walking node batch) => l.Ends node ∧ ∀ span ∈ batch, l.before? span = none
  | (.takeBatch, .uncounting batch) | (.takeBatch, .taken batch) =>
    ∀ span ∈ batch, l.before? span = none
  | (.takeBatch, _) => False

end Links

/-- Where a span can be that has arrived. -/
inductive Place where
  | backlog
  /-- With a call for a batch, which walks along it or has returned it. -/
  | call (index : Nat)
  deriving DecidableEq, Repr

namespace BacklogContest

/-- The spans that wait, oldest first. -/
def waiting (c : BacklogContest) : List SpanRef := c.links.trail c.newest

def detachedBy (c : BacklogContest) (index : Nat) : List SpanRef :=
  match c.calls[index]? with
  | some e => c.links.detached e
  | none => []

def contents (c : BacklogContest) : Place → List SpanRef
  | .backlog => c.waiting
  | .call index => c.detachedBy index

/-- The batch that a call has returned. -/
def returned? (c : BacklogContest) (index : Nat) : Option (List SpanRef) :=
  match c.calls[index]? with
  | some (.takeBatch, .taken batch) => some batch
  | _ => none

/-- The backlog that the calls work on. -/
def backlog (c : BacklogContest) : Backlog := ⟨c.newest, c.counter⟩

/-- No call is in progress. -/
def IsIdle (c : BacklogContest) : Prop := ∀ e ∈ c.calls, e.2.hasReturned = true

/-! ## Steps of a call -/

/-- What the next step of a call can be. -/
inductive Step (c : BacklogContest) (index : Nat) :
    BacklogCall → BacklogPoint → BacklogContest → BacklogPoint → Prop where
  | load {span : SpanRef} : Step c index (.add span) .loading c (.linking c.newest)
  | link {span : SpanRef} {seen : Option SpanRef} :
      Step c index (.add span) (.linking seen) (c.setLink span seen) (.swapping seen)
  | swap {span : SpanRef} :
      Step c index (.add span) (.swapping c.newest)
        { c with newest := some span, arrivals := c.arrivals ++ [span] } .countingOne
  | retry {span : SpanRef} {seen : Option SpanRef} :
      Step c index (.add span) (.swapping seen) c (.linking c.newest)
  | count {span : SpanRef} :
      Step c index (.add span) .countingOne { c with counter := c.counter + 1 } .added
  | detach :
      Step c index .takeBatch .detaching
        { c with newest := none, detachments := c.detachments ++ [index] }
        (.walking c.newest [])
  | arrive {batch : List SpanRef} :
      Step c index .takeBatch (.walking none batch) c (.uncounting batch)
  | walk {span : SpanRef} {batch : List SpanRef} :
      Step c index .takeBatch (.walking (some span) batch) (c.setLink span none)
        (.walking (c.links.before? span) (span :: batch))
  | settle {batch : List SpanRef} :
      Step c index .takeBatch (.uncounting batch)
        { c with counter := c.counter - batch.length } (.taken batch)

variable {c d : BacklogContest} {i j : Nat} {call : BacklogCall} {point next : BacklogPoint}
  {span : SpanRef} {spurious : Bool}

theorem step_of_advance? (h : c.advance? i call spurious point = some (d, next)) :
    c.Step i call point d next := by
  unfold advance? at h
  split at h
  · obtain ⟨rfl, rfl⟩ := Prod.mk.inj (Option.some.inj h)
    exact .load
  · obtain ⟨rfl, rfl⟩ := Prod.mk.inj (Option.some.inj h)
    exact .link
  · split at h
    next hseen =>
      obtain ⟨rfl, rfl⟩ := Prod.mk.inj (Option.some.inj h)
      exact hseen.1 ▸ .swap
    next =>
      obtain ⟨rfl, rfl⟩ := Prod.mk.inj (Option.some.inj h)
      exact .retry
  · obtain ⟨rfl, rfl⟩ := Prod.mk.inj (Option.some.inj h)
    exact .count
  · obtain ⟨rfl, rfl⟩ := Prod.mk.inj (Option.some.inj h)
    exact .detach
  · obtain ⟨rfl, rfl⟩ := Prod.mk.inj (Option.some.inj h)
    exact .arrive
  · obtain ⟨rfl, rfl⟩ := Prod.mk.inj (Option.some.inj h)
    exact .walk
  · obtain ⟨rfl, rfl⟩ := Prod.mk.inj (Option.some.inj h)
    exact .settle
  · contradiction

/-- An event is a new call or a step of a call in progress. -/
theorem event?_cases {event : BacklogEvent} (h : c.event? event = some d) :
    (∃ call, event = .call call ∧ d = { c with calls := c.calls ++ [(call, call.firstPoint)] }) ∨
    ∃ i spurious call point t next, event = .step i spurious ∧ c.calls[i]? = some (call, point) ∧
      c.Step i call point t next ∧ d = { t with calls := t.calls.set i (call, next) } := by
  cases event with
  | call call => exact .inl ⟨call, rfl, (Option.some.inj h).symm⟩
  | step i spurious =>
    unfold event? at h
    dsimp only at h
    split at h
    · contradiction
    next call point hi =>
      obtain ⟨⟨t, next⟩, hnext, rfl⟩ := Option.map_eq_some_iff.mp h
      exact .inr ⟨i, spurious, call, point, t, next, rfl, hi, step_of_advance? hnext, rfl⟩

theorem Step.calls_eq (hs : c.Step i call point d next) : d.calls = c.calls := by
  cases hs <;> rfl

/-! ## A call without others -/

theorem run?_append (c : BacklogContest) (events rest : List BacklogEvent) :
    c.run? (events ++ rest) = (c.run? events).bind (run? · rest) := by
  induction events generalizing c with
  | nil => rfl
  | cons event events ih =>
    simp only [List.cons_append, run?, Option.bind_assoc]
    exact congrArg _ (funext fun d => ih d)

/-- Added without another call in between, a span is added as to a backlog of one thread. -/
theorem add_alone (hi : c.calls[i]? = some (.add span, .loading)) :
    ∃ d, c.run? (List.replicate 4 (.step i false)) = some d ∧
      (d.backlog, d.links) = c.backlog.add c.links span ∧
      d.calls = c.calls.set i (.add span, .added) ∧ d.arrivals = c.arrivals ++ [span] := by
  have hset : ∀ e, (c.calls.set i e)[i]? = some e := fun e => by
    rw [getElem?_set_of_some hi, if_pos rfl]
  refine ⟨{ c.setLink span c.newest with
    newest := some span
    counter := c.counter + 1
    calls := c.calls.set i (.add span, .added)
    arrivals := c.arrivals ++ [span] }, ?_, rfl, rfl, rfl⟩
  simp [List.replicate, run?, event?, advance?, setLink, hi, hset]

/-- A walk without another call in between comes to the same end as the walk of one thread. -/
theorem walk_alone {fuel : Nat} {node : Option SpanRef} {batch : List SpanRef}
    (hfuel : c.links.count < fuel) (hi : c.calls[i]? = some (.takeBatch, .walking node batch)) :
    ∃ n, c.run? (List.replicate n (.step i false)) = some
      { c with
        links := (Links.walkUpTo fuel node c.links batch).2
        calls := c.calls.set i
          (.takeBatch, .walking none (Links.walkUpTo fuel node c.links batch).1) } := by
  induction fuel generalizing c node batch with
  | zero => omega
  | succ fuel ih =>
    have hset : ∀ e, (c.calls.set i e)[i]? = some e := fun e => by
      rw [getElem?_set_of_some hi, if_pos rfl]
    cases node with
    | none =>
      have hsame : c.calls.set i (.takeBatch, .walking none batch) = c.calls := by
        refine List.ext_getElem? fun j => ?_
        rw [getElem?_set_of_some hi]
        split
        next hij => rw [← hij, hi]
        next => rfl
      exact ⟨0, by simp [run?, Links.walkUpTo, hsame]⟩
    | some span =>
      let t : BacklogContest :=
        { c.setLink span none with
          calls := c.calls.set i (.takeBatch, .walking (c.links.before? span) (span :: batch)) }
      have hstep : c.event? (.step i false) = some t := by simp [event?, hi, advance?, t, setLink]
      cases hbefore : c.links.before? span with
      | none =>
        have hend : Links.walkUpTo fuel none (c.links.set span none) (span :: batch) =
            (span :: batch, c.links.set span none) := by cases fuel <;> rfl
        refine ⟨1, ?_⟩
        simp [List.replicate, run?, hstep, t, Links.walkUpTo, hbefore, hend, setLink]
      | some before =>
        have hcount := Links.count_set_none hbefore
        have hfuel : t.links.count < fuel := by
          simp only [t, setLink]
          omega
        obtain ⟨n, hn⟩ := ih hfuel (hset _)
        refine ⟨n + 1, ?_⟩
        rw [List.replicate_succ, run?, hstep]
        refine hn.trans ?_
        simp [t, setLink, Links.walkUpTo]

/-- Without another call in between, a batch is taken as from a backlog of one thread. -/
theorem takeBatch_alone (hi : c.calls[i]? = some (.takeBatch, .detaching)) :
    ∃ n d batch, c.run? (List.replicate n (.step i false)) = some d ∧
      (batch, d.backlog, d.links) = c.backlog.takeBatch c.links ∧ d.returned? i = some batch := by
  have hset : ∀ e, (c.calls.set i e)[i]? = some e := fun e => by
    rw [getElem?_set_of_some hi, if_pos rfl]
  let t : BacklogContest :=
    { c with
      newest := none
      detachments := c.detachments ++ [i]
      calls := c.calls.set i (.takeBatch, .walking c.newest []) }
  have hdetach : c.event? (.step i false) = some t := by simp [event?, hi, advance?, t]
  obtain ⟨n, hwalk⟩ := walk_alone (c := t) (Nat.lt_succ_self _) (hset _)
  let batch := (c.links.walk c.newest).1
  refine ⟨n + 2 + 1,
    { t with
      links := (c.links.walk c.newest).2
      counter := c.counter - batch.length
      calls := c.calls.set i (.takeBatch, .taken batch) }, batch, ?_, rfl, ?_⟩
  · rw [List.replicate_succ, run?, hdetach, Option.bind_some, List.replicate_add, run?_append,
      hwalk, Option.bind_some]
    simp [List.replicate, run?, event?, advance?, t, hset, batch, Links.walk]
  · simp [returned?, hset]

end BacklogContest

/-! ## Changed links -/

namespace Links

variable {l : Links} {e : BacklogCall × BacklogPoint} {span : SpanRef}

theorem unsettled_congr {m : Links} (h : m.detached e = l.detached e) :
    m.unsettled e = l.unsettled e := by
  obtain ⟨call, point⟩ := e
  cases point with
  | taken => rfl
  | _ => exact h

/-- A call is not touched by the link of a span that it has nothing to do with. -/
theorem Fits.set (h : l.Fits e) (hs : span ∉ l.detached e)
    (hadd : ∀ seen, e ≠ (.add span, .swapping seen)) (before : Option SpanRef) :
    (l.set span before).Fits e ∧ (l.set span before).detached e = l.detached e := by
  have hbatch : ∀ {batch : List SpanRef}, span ∉ batch → (∀ s ∈ batch, l.before? s = none) →
      ∀ s ∈ batch, (l.set span before).before? s = none := by
    intro batch hout hnone s hmem
    rw [before?_set, if_neg (ne_of_mem_of_not_mem hmem hout).symm]
    exact hnone s hmem
  obtain ⟨call, point⟩ := e
  cases call with
  | add other =>
    refine ⟨?_, rfl⟩
    cases point with
    | swapping seen =>
      have hne : span ≠ other := by
        rintro rfl
        exact hadd seen rfl
      change (l.set span before).before? other = seen
      rw [before?_set, if_neg hne]
      exact h
    | _ => trivial
  | takeBatch =>
    cases point with
    | walking node batch =>
      obtain ⟨htrail, hwalked⟩ := not_or.mp (mt List.mem_append.mpr hs)
      obtain ⟨hsame, hends⟩ := h.1.set htrail before
      exact ⟨⟨hends, hbatch hwalked h.2⟩, congrArg (· ++ batch) hsame⟩
    | uncounting batch | taken batch => exact ⟨hbatch hs h, rfl⟩
    | _ => exact ⟨h, rfl⟩

end Links

namespace BacklogContest

variable {c d : BacklogContest} {i j : Nat} {call : BacklogCall} {point next : BacklogPoint}
  {span : SpanRef} {spurious : Bool} {l : Links}

/-! ## The order is kept -/

/-- Each span is added by one call at most. -/
def AddsOnce (c : BacklogContest) : Prop := (c.calls.filterMap fun e => e.1.span?).Nodup

theorem AddsOnce.unique {p q : BacklogPoint} (h : c.AddsOnce)
    (hi : c.calls[i]? = some (.add span, p)) (hj : c.calls[j]? = some (.add span, q)) : i = j :=
  index_unique h hi hj rfl rfl

/-- What is detached and what waits is what has arrived. -/
structure Orderly (c : BacklogContest) : Prop where
  order : c.detachments.flatMap c.detachedBy ++ c.waiting = c.arrivals
  nodup : c.arrivals.Nodup
  arrived : ∀ span, span ∈ c.arrivals ↔
    ∃ (i : Nat) (p : BacklogPoint), c.calls[i]? = some (.add span, p) ∧ p.hasArrived = true
  detached : ∀ i : Nat, i ∈ c.detachments ↔
    ∃ p, c.calls[i]? = some (.takeBatch, p) ∧ p ≠ .detaching
  once : c.detachments.Nodup
  ends : c.links.Ends c.newest
  fits : ∀ {i : Nat} {e}, c.calls[i]? = some e → c.links.Fits e
  counted : c.counter + (c.calls.countP fun e => e.2.isCounting) =
    c.waiting.length + (c.calls.flatMap c.links.unsettled).length

/-- With these links nothing changes for the spans that wait, nor for any call but one. -/
structure Spares (c : BacklogContest) (l : Links) (i : Nat) : Prop where
  waiting : l.trail c.newest = c.waiting
  ends : l.Ends c.newest
  others : ∀ {j : Nat} {e}, j ≠ i → c.calls[j]? = some e →
    l.Fits e ∧ l.detached e = c.links.detached e

theorem detachedBy_of_some {e : BacklogCall × BacklogPoint} (hi : c.calls[i]? = some e) :
    c.detachedBy i = c.links.detached e := by
  simp [detachedBy, hi]

theorem detached_walking_newest (c : BacklogContest) :
    c.links.detached (.takeBatch, .walking c.newest []) = c.waiting :=
  List.append_nil _

/-- What each call has detached once one of them is at another point, if the links are changed for
no other. -/
theorem detachedBy_set {e e' : BacklogCall × BacklogPoint} (hi : c.calls[i]? = some e)
    (hcalls : d.calls = c.calls.set i e')
    (hothers : ∀ {j : Nat} {e}, j ≠ i → c.calls[j]? = some e →
      d.links.detached e = c.links.detached e) (j : Nat) :
    d.detachedBy j = if i = j then d.links.detached e' else c.detachedBy j := by
  unfold detachedBy
  rw [hcalls, getElem?_set_of_some hi]
  by_cases hij : i = j
  · rw [if_pos hij, if_pos hij]
  · rw [if_neg hij, if_neg hij]
    cases hj : c.calls[j]? with
    | none => rfl
    | some e => exact hothers (Ne.symm hij) hj

namespace Orderly

/-- Only calls that have detached a batch have one. -/
theorem mem_detachments (h : c.Orderly) (hs : span ∈ c.detachedBy i) : i ∈ c.detachments := by
  unfold detachedBy at hs
  split at hs
  next e hi =>
    obtain ⟨call, point⟩ := e
    cases call with
    | add => simp [Links.detached] at hs
    | takeBatch =>
      refine (h.detached i).mpr ⟨point, hi, ?_⟩
      rintro rfl
      simp [Links.detached] at hs
  next => simp at hs

theorem mem_arrivals (h : c.Orderly) (hs : span ∈ c.detachedBy i) : span ∈ c.arrivals := by
  rw [← h.order]
  exact List.mem_append_left _ (List.mem_flatMap.mpr ⟨i, h.mem_detachments hs, hs⟩)

theorem not_mem_waiting (h : c.Orderly) (hs : span ∉ c.arrivals) : span ∉ c.waiting := by
  intro hmem
  rw [← h.order] at hs
  exact hs (List.mem_append_right _ hmem)

/-- What one call has detached is with no other call, and does not wait. -/
theorem apart (h : c.Orderly) (hs : span ∈ c.detachedBy i) :
    span ∉ c.waiting ∧ ∀ j, j ≠ i → span ∉ c.detachedBy j := by
  have hnodup := h.nodup
  rw [← h.order] at hnodup
  obtain ⟨hflat, -, hdisjoint⟩ := List.nodup_append.mp hnodup
  have hi := h.mem_detachments hs
  refine ⟨fun hw => hdisjoint _ (List.mem_flatMap.mpr ⟨i, hi, hs⟩) _ hw rfl, fun j hne hj => ?_⟩
  have hpairs := (List.nodup_flatMap.mp hflat).2
  have hsymm : Std.Symm (Function.onFun List.Disjoint c.detachedBy) :=
    ⟨fun _ _ hab _ hb ha => hab ha hb⟩
  exact hpairs.forall (h.mem_detachments hj) hi hne hj hs

theorem spares (h : c.Orderly) (i : Nat) : c.Spares c.links i :=
  ⟨rfl, h.ends, fun _ hj => ⟨h.fits hj, rfl⟩⟩

/-- The link of a span may change that only one call has to do with. -/
theorem spares_set (h : c.Orderly) (hw : span ∉ c.waiting)
    (hothers : ∀ j, j ≠ i → span ∉ c.detachedBy j)
    (hadd : ∀ j seen, j ≠ i → c.calls[j]? ≠ some (.add span, .swapping seen))
    (before : Option SpanRef) : c.Spares (c.links.set span before) i where
  waiting := (h.ends.set hw before).1
  ends := (h.ends.set hw before).2
  others {j e} hne hj := by
    have hout := hothers j hne
    rw [detachedBy_of_some hj] at hout
    refine (h.fits hj).set hout ?_ before
    rintro seen rfl
    exact hadd j seen hne hj

/-- A span that is not yet the newest one has not arrived. -/
theorem not_mem_arrivals (h : c.Orderly) (hu : c.AddsOnce)
    (hi : c.calls[i]? = some (.add span, point)) (hp : point.hasArrived = false) :
    span ∉ c.arrivals := by
  intro hmem
  obtain ⟨j, p, hj, harrived⟩ := (h.arrived span).mp hmem
  obtain rfl := hu.unique hi hj
  obtain rfl : point = p := by simpa [hi] using hj
  simp [hp] at harrived

theorem not_mem_detachments (h : c.Orderly) (hi : c.calls[i]? = some (.takeBatch, .detaching)) :
    i ∉ c.detachments := by
  intro hmem
  obtain ⟨p, hp, hne⟩ := (h.detached i).mp hmem
  obtain ⟨-, rfl⟩ := Prod.mk.inj (Option.some.inj (hi.symm.trans hp))
  contradiction

end Orderly
end BacklogContest
end SpanRelay
