import SpanRelay.Proofs.Backlog.Contest

/-!
Calls on one backlog at once. However their steps come between one another, the batches in the order
in which they were detached, followed by the spans that still wait, are the spans in the order in
which they arrived; each of them is in one place, a span in a returned batch is linked to none, and
the counter is right whenever no call is in progress.
-/
namespace SpanRelay.BacklogContest

variable {c d : BacklogContest} {i : Nat} {call : BacklogCall} {point next : BacklogPoint}
  {span : SpanRef} {l : Links}

namespace Orderly

/-! ## One step -/

/-- A call takes a step that moves no span to another place. -/
theorem turn (h : c.Orderly) (hi : c.calls[i]? = some (call, point)) {counter : Int}
    (hl : c.Spares l i) (hfits : l.Fits (call, next))
    (hdetached : l.detached (call, next) = c.links.detached (call, point))
    (harrived : next.hasArrived = point.hasArrived)
    (hdetaching : next = .detaching ↔ point = .detaching)
    (hcounter : counter + next.isCounting.toNat + (c.links.unsettled (call, point)).length =
      c.counter + point.isCounting.toNat + (l.unsettled (call, next)).length) :
    Orderly { c with links := l, counter, calls := c.calls.set i (call, next) } where
  order := by
    have hsame : ∀ j, detachedBy
        { c with links := l, counter, calls := c.calls.set i (call, next) } j = c.detachedBy j := by
      intro j
      rw [detachedBy_set hi rfl fun hne hj => (hl.others hne hj).2]
      split
      next hij =>
        subst hij
        rw [detachedBy_of_some hi]
        exact hdetached
      next => rfl
    rw [funext hsame]
    exact (congrArg _ hl.waiting).trans h.order
  nodup := h.nodup
  arrived span := by
    rw [h.arrived span]
    dsimp only
    simp only [getElem?_set_of_some hi]
    grind
  detached j := by
    rw [h.detached j]
    dsimp only
    simp only [getElem?_set_of_some hi]
    grind
  once := h.once
  ends := hl.ends
  fits {j e} hj := by
    dsimp only at hj
    rw [getElem?_set_of_some hi] at hj
    split at hj
    next =>
      obtain rfl := Option.some.inj hj
      exact hfits
    next hij => exact (hl.others (Ne.symm hij) hj).1
  counted := by
    have hcounted := h.counted
    have hcount := countP_set_of_some hi (fun e => e.2.isCounting) (call, next)
    have hunsettled := length_flatMap_set_of_some (f := l.unsettled) (g := c.links.unsettled) hi
      (fun hne hj => Links.unsettled_congr (hl.others hne hj).2) (call, next)
    change counter + ((c.calls.set i (call, next)).countP _ : Nat) =
      (l.trail c.newest).length + ((c.calls.set i (call, next)).flatMap l.unsettled).length
    rw [hl.waiting]
    dsimp only at hcount
    omega

theorem link (h : c.Orderly) (hu : c.AddsOnce) {seen : Option SpanRef}
    (hi : c.calls[i]? = some (.add span, .linking seen)) :
    Orderly
      { c.setLink span seen with calls := c.calls.set i (.add span, .swapping seen) } := by
  have hout := h.not_mem_arrivals hu hi rfl
  have hspares : c.Spares (c.links.set span seen) i :=
    h.spares_set (h.not_mem_waiting hout) (fun j _ hmem => hout (h.mem_arrivals hmem))
      (fun j other hne hj => hne (hu.unique hj hi)) seen
  have hlink : (c.links.set span seen).before? span = seen := by simp
  exact h.turn hi hspares hlink rfl rfl (by simp) rfl

/-- The span of the call joins those that wait, behind all others. -/
theorem swap (h : c.Orderly) (hu : c.AddsOnce)
    (hi : c.calls[i]? = some (.add span, .swapping c.newest)) :
    Orderly
      { c with
        newest := some span
        arrivals := c.arrivals ++ [span]
        calls := c.calls.set i (.add span, .countingOne) } where
  order := by
    have hsame : ∀ j, detachedBy
        { c with
          newest := some span
          arrivals := c.arrivals ++ [span]
          calls := c.calls.set i (.add span, .countingOne) } j = c.detachedBy j := by
      intro j
      rw [detachedBy_set hi rfl (by intros; rfl)]
      split
      next hij =>
        subst hij
        rw [detachedBy_of_some hi]
        rfl
      next => rfl
    rw [funext hsame]
    change _ ++ c.links.trail (some span) = _
    rw [(h.ends.link (h.fits hi)).1, ← List.append_assoc]
    exact congrArg (· ++ [span]) h.order
  nodup := by
    have hout := h.not_mem_arrivals hu hi rfl
    refine List.nodup_append.mpr ⟨h.nodup, List.nodup_singleton span, ?_⟩
    simpa using fun other hmem => ne_of_mem_of_not_mem hmem hout
  arrived other := by
    have hpoint : ∀ p, c.calls[i]? = some (.add other, p) → p.hasArrived = false := by
      intro p hp
      obtain ⟨-, rfl⟩ := Prod.mk.inj (Option.some.inj (hi.symm.trans hp))
      rfl
    dsimp only
    simp only [List.mem_append, List.mem_singleton, h.arrived other, getElem?_set_of_some hi]
    constructor
    · rintro (⟨j, p, hj, hp⟩ | rfl)
      · have hij : i ≠ j := by
          rintro rfl
          simp [hpoint p hj] at hp
        exact ⟨j, p, (if_neg hij).trans hj, hp⟩
      · exact ⟨i, .countingOne, if_pos rfl, rfl⟩
    · rintro ⟨j, p, hj, hp⟩
      split at hj
      · exact .inr (BacklogCall.add.inj (Prod.mk.inj (Option.some.inj hj)).1).symm
      · exact .inl ⟨j, p, hj, hp⟩
  detached j := by
    rw [h.detached j]
    dsimp only
    simp only [getElem?_set_of_some hi]
    grind
  once := h.once
  ends := (h.ends.link (h.fits hi)).2
  fits {j e} hj := by
    dsimp only at hj
    rw [getElem?_set_of_some hi] at hj
    split at hj
    · obtain rfl := Option.some.inj hj
      trivial
    · exact h.fits hj
  counted := by
    have hcounted := h.counted
    have hcount : _ + 0 = _ + 1 :=
      countP_set_of_some hi (fun e => e.2.isCounting) (.add span, .countingOne)
    have hunsettled : _ + 0 = _ + 0 :=
      length_flatMap_set_of_some (f := c.links.unsettled) (g := c.links.unsettled) hi
        (fun _ _ => rfl) (.add span, .countingOne)
    have hwaiting : (c.links.trail (some span)).length = c.waiting.length + 1 := by
      rw [(h.ends.link (h.fits hi)).1]
      exact List.length_append
    change c.counter + ((c.calls.set i _).countP _ : Nat) =
      (c.links.trail (some span)).length + ((c.calls.set i _).flatMap c.links.unsettled).length
    omega

/-- All spans that wait go to the call. -/
theorem detach (h : c.Orderly) (hi : c.calls[i]? = some (.takeBatch, .detaching)) :
    Orderly
      { c with
        newest := none
        detachments := c.detachments ++ [i]
        calls := c.calls.set i (.takeBatch, .walking c.newest []) } where
  order := by
    have hsplit : ∀ j, detachedBy
        { c with
          newest := none
          detachments := c.detachments ++ [i]
          calls := c.calls.set i (.takeBatch, .walking c.newest []) } j =
        if i = j then c.waiting else c.detachedBy j := by
      intro j
      rw [detachedBy_set hi rfl (by intros; rfl)]
      exact congrArg (if i = j then · else c.detachedBy j) c.detached_walking_newest
    have hothers : c.detachments.flatMap (fun j => if i = j then c.waiting else c.detachedBy j) =
        c.detachments.flatMap c.detachedBy :=
      List.flatMap_congr fun j hj =>
        if_neg (ne_of_mem_of_not_mem hj (h.not_mem_detachments hi)).symm
    rw [funext hsplit, List.flatMap_append, hothers, List.flatMap_singleton, if_pos rfl, h.order]
    exact List.append_nil _
  nodup := h.nodup
  arrived span := by
    rw [h.arrived span]
    dsimp only
    simp only [getElem?_set_of_some hi]
    grind
  detached j := by
    dsimp only
    simp only [List.mem_append, List.mem_singleton, h.detached j, getElem?_set_of_some hi]
    by_cases hij : i = j
    · simp [hij]
    · simp [hij, Ne.symm hij]
  once := by
    have hnew := h.not_mem_detachments hi
    refine List.nodup_append.mpr ⟨h.once, List.nodup_singleton i, ?_⟩
    simpa using fun other hmem => ne_of_mem_of_not_mem hmem hnew
  ends := Links.ends_none _
  fits {j e} hj := by
    dsimp only at hj
    rw [getElem?_set_of_some hi] at hj
    split at hj
    · obtain rfl := Option.some.inj hj
      exact ⟨h.ends, by simp⟩
    · exact h.fits hj
  counted := by
    have hcounted := h.counted
    have hcount : _ + 0 = _ + 0 :=
      countP_set_of_some hi (fun e => e.2.isCounting) (.takeBatch, .walking c.newest [])
    have hunsettled := length_flatMap_set_of_some (f := c.links.unsettled)
      (g := c.links.unsettled) hi (fun _ _ => rfl) (.takeBatch, .walking c.newest [])
    change _ + 0 = _ + (c.links.detached (.takeBatch, .walking c.newest [])).length
      at hunsettled
    rw [c.detached_walking_newest] at hunsettled
    change c.counter + ((c.calls.set i _).countP _ : Nat) =
      0 + ((c.calls.set i _).flatMap c.links.unsettled).length
    omega

/-- A call goes on by one span and clears its link. -/
theorem walk (h : c.Orderly) (hu : c.AddsOnce) {batch : List SpanRef}
    (hi : c.calls[i]? = some (.takeBatch, .walking (some span) batch)) :
    Orderly
      { c.setLink span none with
        calls := c.calls.set i (.takeBatch, .walking (c.links.before? span) (span :: batch)) } := by
  obtain ⟨hends, hcleared⟩ := h.fits hi
  obtain ⟨htrail, hout, hrest⟩ := hends.trail_some
  have hmem : span ∈ c.detachedBy i := by
    rw [detachedBy_of_some hi]
    simp [Links.detached, htrail]
  obtain ⟨hwaiting, hothers⟩ := h.apart hmem
  have hspares : c.Spares (c.links.set span none) i :=
    h.spares_set hwaiting hothers
      (fun j seen _ hj => h.not_mem_arrivals hu hj rfl (h.mem_arrivals hmem)) none
  obtain ⟨hsame, hends'⟩ := hrest.set hout none
  have hcleared' : ∀ other ∈ span :: batch, (c.links.set span none).before? other = none := by
    intro other hother
    rw [Links.before?_set]
    split
    · rfl
    next hne => exact hcleared other ((List.mem_cons.mp hother).resolve_left (Ne.symm hne))
  have hdetached :
      (c.links.set span none).detached (.takeBatch, .walking (c.links.before? span) (span :: batch))
        = c.links.detached (.takeBatch, .walking (some span) batch) := by
    simp [Links.detached, htrail, hsame]
  have hlength := congrArg List.length hdetached
  exact h.turn hi hspares ⟨hends', hcleared'⟩ hdetached rfl (by simp)
    (congrArg (fun n : Nat => c.counter + 0 + n) hlength.symm)

theorem step (h : c.Orderly) (hu : c.AddsOnce) (hi : c.calls[i]? = some (call, point))
    (hs : c.Step i call point d next) :
    Orderly { d with calls := d.calls.set i (call, next) } := by
  cases hs with
  | load | retry => exact h.turn hi (h.spares i) trivial rfl rfl (by simp) rfl
  | link => exact h.link hu hi
  | swap => exact h.swap hu hi
  | count =>
    refine h.turn hi (h.spares i) trivial rfl rfl (by simp) ?_
    simp [BacklogPoint.isCounting, Links.unsettled, Links.detached]
  | detach => exact h.detach hi
  | arrive => exact h.turn hi (h.spares i) (h.fits hi).2 rfl rfl (by simp) rfl
  | walk => exact h.walk hu hi
  | @settle batch =>
    have hcleared : ∀ span ∈ batch, c.links.before? span = none := h.fits hi
    refine h.turn hi (h.spares i) hcleared rfl rfl (by simp) ?_
    simp [BacklogPoint.isCounting, Links.unsettled, Links.detached]

/-- A call that begins has nothing yet. -/
theorem begins (h : c.Orderly) (call : BacklogCall) :
    Orderly { c with calls := c.calls ++ [(call, call.firstPoint)] } where
  order := by
    have hnone : c.links.detached (call, call.firstPoint) = [] := by cases call <;> rfl
    have hsame : ∀ j, detachedBy { c with calls := c.calls ++ [(call, call.firstPoint)] } j =
        c.detachedBy j := by
      intro j
      unfold detachedBy
      rcases Nat.lt_trichotomy j c.calls.length with hlt | rfl | hgt
      · rw [List.getElem?_append_left hlt]
      · simp [hnone]
      · have hout : c.calls.length + 1 ≤ j := hgt
        rw [List.getElem?_eq_none_iff.mpr (Nat.le_of_lt hgt), List.getElem?_eq_none_iff.mpr]
        simpa using hout
    rw [funext hsame]
    exact h.order
  nodup := h.nodup
  arrived span := by
    have hnew : call.firstPoint.hasArrived = false := by cases call <;> rfl
    simp only [h.arrived span, getElem?_concat_eq_some_iff]
    refine exists_congr fun j => exists_congr fun p => ?_
    refine ⟨fun ⟨hj, hp⟩ => ⟨.inl hj, hp⟩, fun ⟨hj, hp⟩ => ⟨hj.resolve_right ?_, hp⟩⟩
    rintro ⟨-, heq⟩
    obtain ⟨-, rfl⟩ := Prod.mk.inj heq
    simp [hnew] at hp
  detached j := by
    simp only [h.detached j, getElem?_concat_eq_some_iff]
    refine exists_congr fun p => ?_
    refine ⟨fun ⟨hj, hp⟩ => ⟨.inl hj, hp⟩, fun ⟨hj, hp⟩ => ⟨hj.resolve_right ?_, hp⟩⟩
    rintro ⟨-, heq⟩
    obtain ⟨rfl, rfl⟩ := Prod.mk.inj heq
    exact hp rfl
  once := h.once
  ends := h.ends
  fits {j e} hj := by
    rcases getElem?_concat_eq_some_iff.mp hj with hj | ⟨-, rfl⟩
    · exact h.fits hj
    · cases call <;> trivial
  counted := by
    have hnew : call.firstPoint.isCounting = false := by cases call <;> rfl
    have hunsettled : c.links.unsettled (call, call.firstPoint) = [] := by cases call <;> rfl
    change c.counter + ((c.calls ++ [(call, call.firstPoint)]).countP _ : Nat) =
      c.waiting.length + ((c.calls ++ [(call, call.firstPoint)]).flatMap c.links.unsettled).length
    rw [List.countP_append, List.flatMap_append, List.flatMap_singleton, hunsettled,
      List.append_nil, List.countP_singleton, hnew]
    exact h.counted

theorem event? (h : c.Orderly) (hu : c.AddsOnce) {event : BacklogEvent}
    (he : c.event? event = some d) : d.Orderly := by
  rcases event?_cases he with ⟨call, -, rfl⟩ | ⟨i, -, call, point, t, next, -, hi, hs, rfl⟩
  · exact h.begins call
  · exact h.step hu hi hs

end Orderly

/-! ## Runs -/

/-- The calls so far are those that were made. -/
theorem spans_of_event? {event : BacklogEvent} (h : c.event? event = some d) :
    (d.calls.filterMap fun e => e.1.span?) =
      (c.calls.filterMap fun e => e.1.span?) ++ event.span?.toList := by
  rcases event?_cases h with ⟨call, rfl, rfl⟩ | ⟨i, -, call, point, t, next, rfl, hi, hs, rfl⟩
  · cases hspan : call.span? <;> simp [BacklogEvent.span?, hspan]
  · obtain ⟨pre, post, hsplit, hset, -⟩ := exists_split_of_some hi
    rw [hs.calls_eq, hset, hsplit]
    cases hspan : call.span? <;> simp [BacklogEvent.span?, hspan]

theorem spans_of_run? {events : List BacklogEvent} (h : c.run? events = some d) :
    (d.calls.filterMap fun e => e.1.span?) =
      (c.calls.filterMap fun e => e.1.span?) ++ events.filterMap BacklogEvent.span? := by
  induction events generalizing c with
  | nil =>
    obtain rfl := Option.some.inj h
    simp
  | cons event rest ih =>
    obtain ⟨e, he, hrest⟩ := Option.bind_eq_some_iff.mp h
    rw [ih hrest, spans_of_event? he]
    cases hspan : event.span? <;> simp [hspan]

theorem Orderly.run? (h : c.Orderly) {events : List BacklogEvent} (hr : c.run? events = some d)
    (hu : d.AddsOnce) : d.Orderly := by
  induction events generalizing c with
  | nil =>
    obtain rfl := Option.some.inj hr
    exact h
  | cons event rest ih =>
    have hadds : c.AddsOnce := by
      unfold AddsOnce at hu ⊢
      rw [spans_of_run? hr] at hu
      exact hu.of_append_left
    obtain ⟨e, he, hrest⟩ := Option.bind_eq_some_iff.mp hr
    exact ih (h.event? hadds he) hrest

/-- Arrivals and detachments go on at the end. -/
theorem Step.extends (hs : c.Step i call point d next) :
    c.arrivals <+: d.arrivals ∧ c.detachments <+: d.detachments := by
  cases hs with
  | swap => exact ⟨List.prefix_append .., List.prefix_rfl⟩
  | detach => exact ⟨List.prefix_rfl, List.prefix_append ..⟩
  | _ => exact ⟨List.prefix_rfl, List.prefix_rfl⟩

theorem extends_of_run? {events : List BacklogEvent} (hr : c.run? events = some d) :
    c.arrivals <+: d.arrivals ∧ c.detachments <+: d.detachments := by
  induction events generalizing c with
  | nil =>
    obtain rfl := Option.some.inj hr
    exact ⟨List.prefix_rfl, List.prefix_rfl⟩
  | cons event rest ih =>
    obtain ⟨e, he, hrest⟩ := Option.bind_eq_some_iff.mp hr
    obtain ⟨harrivals, hdetachments⟩ := ih hrest
    rcases event?_cases he with ⟨call, -, rfl⟩ | ⟨i, -, call, point, t, next, -, -, hs, rfl⟩
    · exact ⟨harrivals, hdetachments⟩
    · exact ⟨hs.extends.1.trans harrivals, hs.extends.2.trans hdetachments⟩

theorem orderly_start : start.Orderly where
  order := rfl
  nodup := .nil
  arrived span := by simp [start]
  detached i := by simp [start]
  once := .nil
  ends := Links.ends_none _
  fits hi := by simp [start] at hi
  counted := rfl

/-! ## What a caller sees -/

namespace Orderly

theorem exists_place (h : c.Orderly) (hs : span ∈ c.arrivals) :
    ∃! place, span ∈ c.contents place := by
  rw [← h.order, List.mem_append, List.mem_flatMap] at hs
  rcases hs with ⟨i, -, hi⟩ | hw
  · obtain ⟨hwaiting, hothers⟩ := h.apart hi
    refine ⟨.call i, hi, fun place hplace => ?_⟩
    cases place with
    | backlog => exact absurd hplace hwaiting
    | call j =>
      by_contra hne
      exact hothers j (fun hj => hne (congrArg _ hj)) hplace
  · refine ⟨.backlog, hw, fun place hplace => ?_⟩
    cases place with
    | backlog => rfl
    | call j => exact absurd hw (h.apart hplace).1

theorem returned (h : c.Orderly) {batch : List SpanRef} (hi : c.returned? i = some batch) :
    i ∈ c.detachments ∧ c.detachedBy i = batch ∧ ∀ span ∈ batch, c.links.before? span = none := by
  unfold returned? at hi
  split at hi
  next b hcall =>
    obtain rfl := Option.some.inj hi
    refine ⟨(h.detached i).mpr ⟨_, hcall, by simp⟩, ?_, h.fits hcall⟩
    rw [detachedBy_of_some hcall]
    rfl
  next => contradiction

/-- When all calls have returned, batches are with those that asked for them. -/
theorem returned_of_isIdle (h : c.Orderly) (hidle : c.IsIdle) (hi : i ∈ c.detachments) :
    c.returned? i = some (c.detachedBy i) := by
  obtain ⟨p, hcall, hp⟩ := (h.detached i).mp hi
  have hreturned := hidle _ (List.mem_of_getElem? hcall)
  have hfits := h.fits hcall
  cases p with
  | taken batch => simp [returned?, detachedBy_of_some hcall, hcall, Links.detached]
  | added => exact hfits.elim
  | _ => contradiction

theorem counter_of_isIdle (h : c.Orderly) (hidle : c.IsIdle) : c.counter = c.waiting.length := by
  have hcounted := h.counted
  have hcounting : (c.calls.countP fun e => e.2.isCounting) = 0 := by
    refine List.countP_eq_zero.mpr fun e he => ?_
    have hreturned := hidle e he
    cases hp : e.2 <;> simp_all [BacklogPoint.isCounting, BacklogPoint.hasReturned]
  have hunsettled : c.calls.flatMap c.links.unsettled = [] := by
    refine List.flatMap_eq_nil_iff.mpr fun e he => ?_
    obtain ⟨call, point⟩ := e
    have hreturned := hidle _ he
    cases point with
    | added => cases call <;> rfl
    | taken => rfl
    | _ => contradiction
  simpa [hcounting, hunsettled] using hcounted

end Orderly

/-! ## The range of the counter -/

/-- Spans are counted by calls that have returned. -/
theorem counter_le_event? {event : BacklogEvent} (he : c.event? event = some d)
    (h : c.counter ≤ (c.calls.countP fun e => e.2 = .added : Nat)) :
    d.counter ≤ (d.calls.countP fun e => e.2 = .added : Nat) := by
  rcases event?_cases he with ⟨call, -, rfl⟩ | ⟨i, -, call, point, t, next, -, hi, hs, rfl⟩
  · dsimp only
    rw [List.countP_append]
    omega
  · have hcount := countP_set_of_some hi (fun e => e.2 = .added) (call, next)
    rw [hs.calls_eq]
    dsimp only at hcount ⊢
    cases hs <;> simp [setLink] at hcount ⊢ <;> omega

theorem counter_le_run? {events : List BacklogEvent} (hr : c.run? events = some d)
    (h : c.counter ≤ (c.calls.countP fun e => e.2 = .added : Nat)) :
    d.counter ≤ (d.calls.countP fun e => e.2 = .added : Nat) := by
  induction events generalizing c with
  | nil => exact Option.some.inj hr ▸ h
  | cons event rest ih =>
    obtain ⟨e, he, hrest⟩ := Option.bind_eq_some_iff.mp hr
    exact ih hrest (counter_le_event? he h)

/-- The counter is never further from zero than there are calls, so that a cell that has room for
their number, above zero and below, never wraps. -/
theorem counter_range {events : List BacklogEvent}
    (honce : (events.filterMap BacklogEvent.span?).Nodup) (hr : start.run? events = some c) :
    -(c.calls.length : Int) ≤ c.counter ∧ c.counter ≤ c.calls.length := by
  have hu : c.AddsOnce := by
    unfold AddsOnce
    rw [spans_of_run? hr]
    exact honce
  have hcounted := (orderly_start.run? hr hu).counted
  have hcounting := List.countP_le_length (p := fun e => e.2.isCounting) (l := c.calls)
  have hadded := List.countP_le_length (p := fun e => e.2 = .added) (l := c.calls)
  have hle := counter_le_run? hr (by simp [start])
  constructor <;> omega

/-! ## The result -/

/-- At any moment of any run: each span that arrived is in one place, and batches in the order in
which they were detached, then the spans that wait, are the arrivals in their order, which only goes
on at the end. A returned batch is what was detached, and its spans are linked to none. When all
calls have returned, the counter says how many spans wait. -/
theorem fifo_run? {before after : List BacklogEvent}
    (honce : ((before ++ after).filterMap BacklogEvent.span?).Nodup)
    (hb : start.run? before = some c) (ha : c.run? after = some d) :
    d.links.Chain d.newest d.waiting.reverse ∧
    (∀ span, span ∈ d.arrivals ↔
      ∃ (i : Nat) (p : BacklogPoint), d.calls[i]? = some (.add span, p) ∧ p.hasArrived = true) ∧
    (∀ span ∈ d.arrivals, ∃! place, span ∈ d.contents place) ∧
    d.detachments.flatMap d.detachedBy ++ d.waiting = d.arrivals ∧
    c.arrivals <+: d.arrivals ∧ c.detachments <+: d.detachments ∧ d.detachments.Nodup ∧
    (∀ i batch, d.returned? i = some batch → i ∈ d.detachments ∧ d.detachedBy i = batch ∧
      ∀ span ∈ batch, d.links.before? span = none) ∧
    (d.IsIdle → (d.detachments.filterMap d.returned?).flatten ++ d.waiting = d.arrivals ∧
      d.counter = d.waiting.length) := by
  have hspans : (d.calls.filterMap fun e => e.1.span?) =
      (before ++ after).filterMap BacklogEvent.span? := by
    rw [spans_of_run? ha, spans_of_run? hb, List.filterMap_append]
    rfl
  have hu : d.AddsOnce := by
    unfold AddsOnce
    rw [hspans]
    exact honce
  have huc : c.AddsOnce := by
    unfold AddsOnce at hu ⊢
    rw [spans_of_run? ha] at hu
    exact hu.of_append_left
  have h : d.Orderly := (orderly_start.run? hb huc).run? ha hu
  obtain ⟨harrivals, hdetachments⟩ := extends_of_run? ha
  refine ⟨?_, h.arrived, fun span => h.exists_place, h.order, harrivals, hdetachments, h.once,
    fun i batch => h.returned, fun hidle => ⟨?_, h.counter_of_isIdle hidle⟩⟩
  · obtain ⟨spans, hchain⟩ := h.ends
    rw [waiting, hchain.trail_eq, List.reverse_reverse]
    exact hchain
  · have hbatches : d.detachments.filterMap d.returned? = d.detachments.map d.detachedBy := by
      rw [← List.filterMap_eq_map]
      exact List.filterMap_congr fun i hi => h.returned_of_isIdle hidle hi
    rw [hbatches]
    exact h.order

/-- Three spans are added and two batches taken over each other. The first span finds another one in
its place, then none, and the third one fails for no reason at first. -/
theorem fifo_run?_two_batches :
    ∃ c d,
      start.run?
        [.call (.add 7), .call (.add 8), .step 0 false, .step 1 false, .step 0 false, .step 1 false,
          .step 1 false, .step 0 false, .call .takeBatch, .step 2 false, .step 0 false] = some c ∧
      c.run?
        [.step 0 false, .step 0 false, .step 0 false, .call (.add 9), .step 3 false, .step 3 false,
          .step 3 true, .call .takeBatch, .step 4 false, .step 2 false, .step 4 false,
          .step 3 false, .step 3 false, .step 3 false, .step 3 false, .step 4 false, .step 4 false,
          .step 2 false, .step 2 false, .step 0 false, .step 1 false, .step 3 false] = some d ∧
      c.arrivals = [8] ∧ d.arrivals = [8, 7, 9] ∧ d.detachments.filterMap d.returned? = [[8], [7]] ∧
      d.waiting = [9] ∧ d.counter = 1 ∧ ∀ span ∈ d.arrivals, ∃! place, span ∈ d.contents place := by
  let before : List BacklogEvent :=
    [.call (.add 7), .call (.add 8), .step 0 false, .step 1 false, .step 0 false, .step 1 false,
      .step 1 false, .step 0 false, .call .takeBatch, .step 2 false, .step 0 false]
  let after : List BacklogEvent :=
    [.step 0 false, .step 0 false, .step 0 false, .call (.add 9), .step 3 false, .step 3 false,
      .step 3 true, .call .takeBatch, .step 4 false, .step 2 false, .step 4 false,
      .step 3 false, .step 3 false, .step 3 false, .step 3 false, .step 4 false, .step 4 false,
      .step 2 false, .step 2 false, .step 0 false, .step 1 false, .step 3 false]
  have hrun : ((start.run? before).bind fun c => (c.run? after).map fun d =>
      (c.arrivals, d.detachments.filterMap d.returned?, d.waiting,
        d.calls.all fun e => e.2.hasReturned)) = some ([8], [[8], [7]], [9], true) := by
    decide +kernel
  obtain ⟨c, hc, hrun⟩ := Option.bind_eq_some_iff.mp hrun
  obtain ⟨d, hd, hrun⟩ := Option.map_eq_some_iff.mp hrun
  simp only [Prod.mk.injEq] at hrun
  obtain ⟨harrivals, hbatches, hwaiting, hidle⟩ := hrun
  obtain ⟨-, -, hplaces, -, -, -, -, -, hsettled⟩ := fifo_run? (by decide) hc hd
  obtain ⟨horder, hcounter⟩ := hsettled (List.all_eq_true.mp hidle)
  rw [hbatches, hwaiting] at horder
  rw [hwaiting] at hcounter
  exact ⟨c, d, hc, hd, harrivals, horder.symm, hbatches, hwaiting, hcounter, hplaces⟩

end SpanRelay.BacklogContest
