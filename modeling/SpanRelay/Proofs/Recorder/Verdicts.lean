import SpanRelay.Proofs.Recorder.Enrolment
import SpanRelay.Proofs.Recorder.Sampling

/-!
What becomes of a span that is handed over. It was claimed, so that whatever else its end callbacks
do leaves it alone: they judge it as if each was alone with it.
-/
namespace SpanRelay

/-- The span once it took note of the probability at which it was sampled. -/
def Span.sampledAt (s : Span) (p : Option Binary64) : Span := p.elim s s.setProbability

namespace Recorder

variable {r t u x : Recorder} {ref : SpanRef} {s claimed : Span} {hand : HandOver}

/-! ## What callbacks do to the span that they are shown -/

/-- Callbacks that are shown a claimed span change nothing of it but by their own acts: hand-overs
of other spans, which may nest in between, spare it. -/
theorem perform_claimed (hh : Considerate hand) (hs : r.span? ref = some s)
    (hst : s.state = .processed) (thread : Nat) (label : String) (act : Act) :
    (perform hand thread label ref r act).1 = act.passes s ∧
      (perform hand thread label ref r act).2.span? ref = some (act.changes s) ∧
      (perform hand thread label ref r act).2.told ref = r.told ref := by
  have hmodify : ∀ f : Span → Span, (r.modify ref f).span? ref = some (f s) ∧
      (r.modify ref f).told ref = r.told ref := fun f => by
    refine ⟨?_, ?_⟩
    · rw [modify_of_span? hs]
      exact span?_put_self hs _
    · unfold told
      rw [log_modify]
  cases act with
  | set | copy | remove | rename => exact ⟨rfl, hmodify _⟩
  | claim =>
    have hnone : (r.span? ref).bind Span.process? = none := by
      rw [hs, Option.bind_some, Span.process?, Span.move?, hst]
      rfl
    unfold perform
    simp only [hnone]
    exact ⟨rfl, hs, rfl⟩
  | look =>
    unfold perform
    simp only [hs]
    exact ⟨rfl, hs, rfl⟩
  | veto | fail | enlist => exact ⟨rfl, hs, rfl⟩
  | vetoNamed name =>
    refine ⟨?_, hs, rfl⟩
    unfold perform
    simp only [hs]
    rfl
  | vetoHaving key =>
    refine ⟨?_, hs, rfl⟩
    unfold perform
    simp only [hs]
    rfl
  | finish other time =>
    have hk : r.SetsAside (· = ref) := by
      rintro _ rfl
      exact ⟨s, hs, by rw [hst]; rfl⟩
    have hspares := spares_endWith hh hk thread other time
    exact ⟨rfl, (hspares.span? ref rfl).trans hs, hspares.told ref rfl⟩

theorem runActs_claimed (hh : Considerate hand) (hs : r.span? ref = some s)
    (hst : s.state = .processed) (thread : Nat) (label : String) (acts : List Act) (keep : Bool) :
    (runActs hand thread label ref acts keep r).1 =
        (acts.any Act.fails || keep && Act.allPass acts s) ∧
      (runActs hand thread label ref acts keep r).2.span? ref = some (Act.leave acts s) ∧
      (runActs hand thread label ref acts keep r).2.told ref = r.told ref := by
  induction acts generalizing r s keep with
  | nil => exact ⟨by simp [runActs, Act.allPass], hs, rfl⟩
  | cons act rest ih =>
    cases hfails : act.fails with
    | true =>
      rw [runActs_cons_of_fails hfails, Act.leave_cons_of_fails hfails]
      exact ⟨by simp [hfails], hs, rfl⟩
    | false =>
      rw [runActs_cons hfails, Act.leave_cons hfails]
      obtain ⟨hpasses, hspan, htold⟩ := perform_claimed hh hs hst thread label act
      obtain ⟨hkeep, hleft, hrest⟩ := ih hspan ((Act.state_changes act s).trans hst)
        (keep && (perform hand thread label ref r act).1)
      refine ⟨?_, hleft, hrest.trans htold⟩
      rw [hkeep, hpasses]
      simp [hfails, Act.allPass, Bool.and_assoc]

/-- The callbacks in a row act on the span as if each was alone with it. -/
theorem runEndCallbacks_claimed (hh : Considerate hand) (hs : r.span? ref = some s)
    (hst : s.state = .processed) (thread : Nat) (items : List Registration) :
    let answers := Callback.answered r.callbackAt items s
    (runEndCallbacks hand thread ref items r).1 = answers.all Prod.snd ∧
      (runEndCallbacks hand thread ref items r).2.span? ref =
        some (Callback.leftBy r.callbackAt (answers.map Prod.fst) s) ∧
      (runEndCallbacks hand thread ref items r).2.told ref =
        (answers.map fun a => Event.calledAtEnd (r.callbackAt a.1.callback).label ref).reverse ++
          r.told ref := by
  induction items generalizing r s with
  | nil => exact ⟨rfl, hs, rfl⟩
  | cons item rest ih =>
    let callback := r.callbackAt item.callback
    let called := r.emit (.calledAtEnd callback.label ref)
    have hcalled : called.span? ref = some s := hs
    obtain ⟨hkeep, hleft, htold⟩ :=
      runActs_claimed hh hcalled hst thread callback.label callback.acts true
    have htable : (runActs hand thread callback.label ref callback.acts true called).2.callbackAt =
        r.callbackAt := by
      have hnone := setsAside_none called
      exact (spares_runActs hh hnone thread callback.label id callback.acts true).callbackAt
    have hnoted : called.told ref = .calledAtEnd callback.label ref :: r.told ref := by
      rw [told_emit, if_pos (by simp [Event.tellsOf])]
    have hkeep : (runActs hand thread callback.label ref callback.acts true called).1 =
        callback.keeps s := by
      rw [hkeep, Bool.true_and]
      rfl
    unfold runEndCallbacks Callback.answered
    dsimp only
    rw [hkeep]
    split
    next h =>
      obtain ⟨hrest, hlast, hlog⟩ := ih hleft ((Act.state_leave _ s).trans hst)
      rw [htable] at hrest hlast hlog
      refine ⟨?_, ?_, ?_⟩
      · rw [hrest, List.all_cons, h, Bool.true_and]
        rfl
      · exact hlast
      · rw [hlog, htold, hnoted]
        simp [callback, Callback.leaves]
    next h =>
      have hveto : (r.callbackAt item.callback).keeps s = false := by simpa using h
      refine ⟨by simp [hveto], hleft, ?_⟩
      rw [htold, hnoted]
      rfl

theorem judge_claimed (hh : Considerate hand) (hs : r.span? ref = some s)
    (hst : s.state = .processed) (thread : Nat) :
    let answers := Callback.answered r.callbackAt r.onEnd.entries s
    let left := Callback.leftBy r.callbackAt (answers.map Prod.fst) s
    (judge hand thread ref r).1 = answers.all Prod.snd ∧
      (∃ elapsed, (judge hand thread ref r).2.span? ref = some (if r.onEnd.entries = [] then left
        else left.setInternal Span.callbacksDurationKey (.int elapsed))) ∧
      (judge hand thread ref r).2.told ref =
        (answers.map fun a => Event.calledAtEnd (r.callbackAt a.1.callback).label ref).reverse ++
          r.told ref := by
  intro answers left
  obtain ⟨hkeep, hleft, htold⟩ := runEndCallbacks_claimed hh hs hst thread r.onEnd.entries
  unfold judge
  by_cases hempty : r.onEnd.entries = []
  · have hnone : answers = [] := by
      unfold answers
      rw [hempty]
      rfl
    rw [if_pos (by simp [Registry.isEmpty, hempty])]
    simp only [left, hnone, hempty]
    exact ⟨rfl, ⟨0, hs⟩, rfl⟩
  · rw [if_neg (by simp [Registry.isEmpty, hempty])]
    dsimp only
    let later := (runEndCallbacks hand thread ref r.onEnd.entries r).2
    let elapsed := saturatingDifference later.clock.ticks r.clock.ticks
    refine ⟨hkeep, ⟨Int64.ofNat elapsed.toNat, ?_⟩, ?_⟩
    · rw [modify_of_span? hleft, if_neg hempty]
      exact span?_put_self hleft _
    · unfold told at htold ⊢
      rw [log_modify, htold]

/-- The sampler keeps the span. -/
def samplesIn (r : Recorder) (s : Span) : Bool :=
  r.probability?.any fun p => p.keeps s.samplingValue

theorem sample_claimed (hs : r.span? ref = some s) :
    (r.sample ref).1 = r.samplesIn s ∧
      (r.sample ref).2.span? ref = some (s.sampledAt r.probability?) ∧
      (r.sample ref).2.told ref = r.told ref ∧ (r.sample ref).2.onEnd = r.onEnd := by
  unfold sample samplesIn probability?
  cases r.sampler with
  | discarding => exact ⟨rfl, hs, rfl, rfl⟩
  | probability sampler =>
    simp only [hs]
    exact ⟨rfl, span?_put_self hs _, rfl, rfl⟩

/-! ## Outcomes -/

/-- A span that is sampled in is batched unless a callback that was called has vetoed. -/
def verdictOn (r : Recorder) (s : Span) (answers : List (Registration × Bool)) : Verdict :=
  if r.samplesIn s then if answers.all Prod.snd then .batched else .rejected else .sampledOut

/-- What the end callbacks have made of a span that a hand-over claimed: who was called with what
answer, of those who were registered when it began, and where that leaves the recorder. -/
structure Hearing (r u : Recorder) (ref : SpanRef) (claimed : Span)
    (registered : List Registration) (answers : List (Registration × Bool)) : Prop where
  /-- Callbacks are called only for a span that is sampled in. -/
  silent : r.samplesIn claimed = false → answers = []
  order : answers.map Prod.fst <+: registered
  whole : r.samplesIn claimed = true → (∀ a ∈ answers, a.2 = true) →
    answers.map Prod.fst = registered
  once : ((answers.map Prod.fst).map Registration.callback).Nodup
  /-- Each answers by what those before it have left of the span, and after a veto none is called.
  -/
  answer : ∀ front a back, answers = front ++ a :: back →
    a.2 = (r.callbackAt a.1.callback).keeps (Callback.leftBy r.callbackAt (front.map Prod.fst)
      (claimed.sampledAt r.probability?)) ∧ (a.2 = false → back = [])
  told : u.told ref =
    (answers.map fun a => Event.calledAtEnd (r.callbackAt a.1.callback).label ref).reverse ++
      .handedOver ref :: r.told ref
  /-- The span is what they have left of it; the time they took is noted if there were any to call.
  -/
  span : ∃ elapsed, u.span? ref = some
    (let left := Callback.leftBy r.callbackAt (answers.map Prod.fst)
        (claimed.sampledAt r.probability?)
      if r.samplesIn claimed = true ∧ registered ≠ [] then
        left.setInternal Span.callbacksDurationKey (.int elapsed)
      else left)
  /-- Hand-overs that came in between have settled what they claimed, so that one span is owed. -/
  others : Settles 1 r u

/-- How a hand-over comes out for the span that it claimed. -/
structure Outcome (r t u : Recorder) (ref : SpanRef) (claimed : Span)
    (registered : List Registration) (answers : List (Registration × Bool)) : Prop
    extends Hearing r u ref claimed registered answers where
  settled : t = u.settle ref (r.verdictOn claimed answers)
  tells : t.told ref =
    if r.verdictOn claimed answers = .batched then .batched ref :: u.told ref else u.told ref
  isSealed : t.span? ref = (u.span? ref).map Span.freeze
  ended : t.batcher.ended = u.batcher.ended
  sampledOut : t.batcher.sampledOut = u.batcher.sampledOut +
    if r.verdictOn claimed answers = .sampledOut then 1 else 0
  rejected : t.batcher.rejected = u.batcher.rejected +
    if r.verdictOn claimed answers = .rejected then 1 else 0
  batched : t.batcher.batched = u.batcher.batched +
    if r.verdictOn claimed answers = .batched then 1 else 0

variable {registered : List Registration} {answers : List (Registration × Bool)}

theorem Hearing.outcome (h : Hearing r u ref claimed registered answers) :
    Outcome r (u.settle ref (r.verdictOn claimed answers)) u ref claimed registered answers := by
  obtain ⟨hended, hsampledOut, hrejected, hbatched⟩ :=
    counters_settle u ref (r.verdictOn claimed answers)
  refine ⟨h, rfl, ?_, ?_, hended, hsampledOut, hrejected, hbatched⟩
  · rw [told_settle]
    simp
  · obtain ⟨elapsed, hspan⟩ := h.span
    rw [span?_settle, modify_of_span? hspan, span?_put_self hspan, hspan]
    rfl

/-- The recorder when the span was claimed, counted and sampled, and no callback was called yet. -/
structure Sampled (r x : Recorder) (ref : SpanRef) (claimed : Span) : Prop where
  span : x.span? ref = some (claimed.sampledAt r.probability?)
  told : x.told ref = .handedOver ref :: r.told ref
  onEnd : x.onEnd = r.onEnd
  others : Settles 1 r x

theorem sampled_counted (hs : r.span? ref = some s) (claimed : Span) :
    let counted := ((r.emit (.handedOver ref)).put ref claimed).countEnded
    (counted.sample ref).1 = r.samplesIn claimed ∧
      Sampled r (counted.sample ref).2 ref claimed := by
  intro counted
  have hbegun : (r.emit (.handedOver ref)).span? ref = some s := hs
  have hcounted : counted.span? ref = some claimed := span?_put_self hbegun claimed
  have htold : counted.told ref = .handedOver ref :: r.told ref := by
    show (r.emit (.handedOver ref)).told ref = _
    rw [told_emit, if_pos (by simp [Event.tellsOf])]
  have hspares : Spares (fun _ => False) 1 r (counted.sample ref).2 :=
    (spares_emit (fun _ h => h.elim) r).trans (spares_claimed _ id claimed)
  obtain ⟨hkeep, hspan, hsame, honEnd⟩ := sample_claimed hcounted
  exact ⟨hkeep, hspan, hsame.trans htold, honEnd, hspares.toSettles⟩

theorem Sampled.hearing_nil (h : Sampled r x ref claimed) (hout : r.samplesIn claimed = false) :
    Hearing r x ref claimed r.onEnd.entries [] := by
  refine ⟨fun _ => rfl, List.nil_prefix, by simp [hout], .nil, by simp, h.told, ⟨0, ?_⟩, h.others⟩
  rw [if_neg (by simp [hout])]
  exact h.span

theorem Sampled.hearing_judge (h : Sampled r x ref claimed) (hin : r.samplesIn claimed = true)
    (hst : claimed.state = .processed)
    (hn : (r.onEnd.entries.map Registration.callback).Nodup) (hh : Considerate hand)
    (thread : Nat) :
    let answers := Callback.answered r.callbackAt r.onEnd.entries
      (claimed.sampledAt r.probability?)
    (judge hand thread ref x).1 = answers.all Prod.snd ∧
      Hearing r (judge hand thread ref x).2 ref claimed r.onEnd.entries answers := by
  intro answers
  have hstate : (claimed.sampledAt r.probability?).state = .processed := by
    cases r.probability? <;> exact hst
  have hcalled : answers.map Prod.fst <+: r.onEnd.entries := Callback.answered_prefix _ _
  have hothers : Spares (fun _ => False) 0 x (judge hand thread ref x).2 :=
    spares_judge hh (setsAside_none x) thread id
  obtain ⟨hkeep, ⟨elapsed, hspan⟩, htold⟩ := judge_claimed hh h.span hstate thread
  rw [h.others.callbackAt, h.onEnd] at hkeep hspan htold
  refine ⟨hkeep, by simp [hin], hcalled, fun _ => Callback.answered_all,
    hn.sublist (hcalled.sublist.map _), fun front a back => Callback.answered_split, ?_,
    ⟨elapsed, ?_⟩, h.others.trans hothers.toSettles⟩
  · rw [htold, h.told]
  · rw [hspan]
    by_cases hempty : r.onEnd.entries = []
    · rw [if_pos hempty, if_neg (by simp [hempty])]
    · rw [if_neg hempty, if_pos ⟨hin, hempty⟩]

theorem handOverTo_succ (hsink : r.sink = .batch) (thread depth : Nat) (ref : SpanRef) :
    handOverTo thread (depth + 1) r ref =
      receive (handOverTo thread depth) thread (r.emit (.handedOver ref)) ref := by
  unfold handOverTo
  simp only [emit, hsink]

/-- Whatever its end callbacks do, a span that a hand-over claims is sampled and then judged by
them: each is called in turn for what those before it have left of the span, and a failure counts
for the span. It is settled in one way, however many hand-overs of other spans come in between. -/
theorem outcome_handOverTo {items : List Registration} (hsink : r.sink = .batch)
    (hregistry : r.onEnd.Lists items) (hs : r.span? ref = some s)
    (hclaim : s.process? = some claimed) (thread depth : Nat) :
    ∃ answers u, Outcome r (handOverTo thread (depth + 1) r ref) u ref claimed
      (Registry.inOrder (Registry.firsts items)) answers := by
  have hst : claimed.state = .processed := by rw [(Span.process?_eq_some hclaim).2]
  have hp : ((r.emit (.handedOver ref)).span? ref).bind Span.process? = some claimed := by
    rw [show (r.emit (.handedOver ref)).span? ref = some s from hs]
    exact hclaim
  obtain ⟨hkeep, hsampled⟩ := sampled_counted hs claimed
  rw [handOverTo_succ hsink, receive_of_process? hp, ← hregistry]
  dsimp only
  rw [hkeep]
  cases hin : r.samplesIn claimed with
  | false =>
    have hdone := (hsampled.hearing_nil hin).outcome
    simp only [verdictOn, hin, Bool.false_eq_true, if_false] at hdone ⊢
    exact ⟨_, _, hdone⟩
  | true =>
    obtain ⟨hverdict, hhearing⟩ := hsampled.hearing_judge hin hst hregistry.nodup
      (considerate_handOverTo thread depth) thread
    have hdone := hhearing.outcome
    simp only [verdictOn, hin, if_true, ← hverdict] at hdone ⊢
    exact ⟨_, _, hdone⟩

/-- The first callback ends another span, whose hand-over nests and is vetoed by the third; the
second vetoes and then fails. The outer span is batched. -/
theorem outcome_handOverTo_nested :
    let r := (start default .standard true .batch (.probability (.fixed .one)) 100 0).play
      [.enrol true 5 "first" [.set "seen" (.bool true), .finish 1 9],
        .enrol true 9 "third" [.vetoNamed "inner"], .enrol true 7 "second" [.veto, .fail],
        .create 0 (.ofNumbers 1 1) (.named "outer"), .create 0 (.ofNumbers 2 2) (.named "inner")]
    let t := handOver 0 r 0
    (∃ items claimed answers u,
      Outcome r t u 0 claimed (Registry.inOrder (Registry.firsts items)) answers) ∧
      t.batcher.ended = 2 ∧ t.batcher.rejected = 1 ∧ t.batcher.batched = 1 ∧
      ((t.span? 0).map fun s => (s.isSealed, s.attributes.contains "seen")) =
        some (true, true) := by
  intro r t
  have hlists : ∃ items, r.onEnd.Lists items := exists_lists_play ⟨[], Registry.lists_empty⟩ _
  obtain ⟨items, hitems⟩ := hlists
  obtain ⟨claimed, hclaimed⟩ := Option.isSome_iff_exists.mp
    (by decide +kernel : ((r.span? 0).bind Span.process?).isSome = true)
  obtain ⟨s, hs, hclaim⟩ := Option.bind_eq_some_iff.mp hclaimed
  obtain ⟨answers, u, houtcome⟩ :=
    outcome_handOverTo (by decide +kernel) hitems hs hclaim 0 r.spans.size
  exact ⟨⟨items, claimed, answers, u, houtcome⟩, by decide +kernel⟩

end Recorder
end SpanRelay
