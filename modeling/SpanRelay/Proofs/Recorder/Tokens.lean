import Mathlib.Data.List.Induction
import SpanRelay.Proofs.Dictionary
import SpanRelay.Proofs.Recorder.Contexts
import SpanRelay.Proofs.Recorder.EndTimes
import SpanRelay.Proofs.Recorder.HandOverOnce

/-!
Runs in which spans are bound to tokens, while the same spans are also ended and discarded by those
who hold them. What a token is bound to is told by the run since it was bound, and only the calls
for tokens change it.
-/
namespace SpanRelay

open Recorder

/-! ## What leaves the tokens alone -/

namespace Recorder

variable {r t : Recorder} {ref : SpanRef} {s : Span}

theorem tokens_onStack (r : Recorder) (thread : Nat) (f : ContextStack → ContextStack) :
    (r.onStack thread f).tokens = r.tokens := by
  obtain ⟨threadStacks, heq⟩ := exists_onStack_eq r thread f
  rw [heq]

theorem tokens_cancelTimers (r : Recorder) (timers : List Timer) :
    (r.cancelTimers timers).tokens = r.tokens := by
  unfold cancelTimers
  split <;> rfl

end Recorder

variable {K : SpanRef → Prop} {r t : Recorder} {ref : SpanRef} {s : Span}

theorem Touch.tokens_eq (h : Touch K r t) : t.tokens = r.tokens := by
  cases h with
  | detach hs ho thread => exact tokens_onStack r thread _
  | _ => rfl

theorem Stride.tokens_eq (h : Stride K r t) : t.tokens = r.tokens := by
  cases h with
  | touch h => exact h.tokens_eq
  | discard hs h => exact tokens_cancelTimers _ _
  | release hs h => exact tokens_cancelTimers _ _
  | empty =>
    obtain ⟨handles, heq⟩ := exists_emptied_eq r
    rw [heq]
  | _ => rfl

theorem Strides.tokens_eq (h : Strides K r t) : t.tokens = r.tokens := by
  induction h with
  | refl => rfl
  | tail _ hone ih => exact hone.tokens_eq.trans ih

namespace Recorder

theorem tokens_parentFor (r : Recorder) (thread : Nat) (explicit : Option SpanContext) :
    (r.parentFor thread explicit).2.tokens = r.tokens := by
  obtain ⟨threadStacks, heq⟩ := exists_parentFor_eq r thread explicit
  rw [heq]

theorem tokens_build (r : Recorder) (thread : Nat) (fresh : FreshIds) (q : SpanRequest) :
    (r.build thread fresh q).2.tokens = r.tokens := by
  obtain ⟨spans, handles, threadStacks, heq⟩ := exists_built_eq r thread fresh q
  rw [heq]

theorem tokens_modify (r : Recorder) (ref : SpanRef) (f : Span → Span) :
    (r.modify ref f).tokens = r.tokens := by
  unfold modify
  split <;> rfl

theorem tokens_runStartCallbacks (r : Recorder) (thread : Nat) (ref : SpanRef)
    (items : List Registration) : (runStartCallbacks thread ref items r).tokens = r.tokens :=
  (touches_runStartCallbacks (setsAside_none r) thread id items).strides.tokens_eq

theorem tokens_hold (r : Recorder) (ref : SpanRef) (timeout : Nanos) :
    (r.hold ref timeout).2.tokens = r.tokens := by
  unfold hold
  split
  · rfl
  · dsimp only
    split <;> rfl

theorem tokens_move (r : Recorder) (m : Move) : (r.move m).tokens = r.tokens := by
  have hnone := setsAside_none r
  cases m with
  | create thread fresh q =>
    exact (tokens_runStartCallbacks _ thread _ _).trans (tokens_build r thread fresh q)
  | createWith thread fresh q own =>
    have hdress := (tokens_modify (r.build thread fresh q).2 (r.build thread fresh q).1
      fun s => own.foldl (fun s e => s.setInternal e.1 (.text e.2)) s).trans
        (tokens_build r thread fresh q)
    exact (tokens_runStartCallbacks _ thread _ _).trans hdress
  | rename ref name => exact tokens_modify r ref _
  | setAttribute ref key value => exact tokens_modify r ref _
  | removeAttribute ref key => exact tokens_modify r ref _
  | finish thread ref time =>
    exact (touches_endWith (touching_handOver _ thread) hnone thread ref time).strides.tokens_eq
  | discard thread ref => exact (strides_discard (K := fun _ => False) r thread ref).tokens_eq
  | claim ref => exact (strides_claim (K := fun _ => False) r ref).tokens_eq
  | present thread ref => exact (touching_handOver _ thread r ref hnone).strides.tokens_eq
  | hold ref timeout => exact tokens_hold r ref timeout
  | upgrade id => exact (strides_upgrade (K := fun _ => False) r id).tokens_eq
  | closeHold thread id time => exact (strides_release hnone thread id _).tokens_eq
  | cancelHold thread id => exact (strides_release hnone thread id none).tokens_eq
  | expire thread count => exact (strides_fireUpTo hnone count thread).tokens_eq
  | setClock | setSampler => rfl
  | enrol atEnd priority label acts =>
    exact (strides_enrol (K := fun _ => False) r _ priority).tokens_eq
  | force => exact (touches_forceCurrentBatch (K := fun _ => False) r).strides.tokens_eq
  | collect => exact (strides_collectNextBatch (K := fun _ => False) r).tokens_eq

theorem tokens_use (r : Recorder) (u : Use) : (r.use u).tokens = r.tokens := by
  cases u with
  | call m => exact tokens_move r m
  | keep | letGo | letGoHold => rfl
  | look thread =>
    show (r.current? thread).2.tokens = r.tokens
    unfold current?
    split
    · rfl
    · exact tokens_onStack r thread _
  | lookContext thread => exact tokens_parentFor r thread none
  | find thread category =>
    show (r.findOpen? thread category).2.tokens = r.tokens
    unfold findOpen?
    split
    · rfl
    · exact tokens_onStack r thread _
  | clear thread => exact tokens_onStack r thread _

theorem tokens_uses (r : Recorder) (uses : List Use) : (uses.foldl use r).tokens = r.tokens := by
  induction uses generalizing r with
  | nil => rfl
  | cons u uses ih => exact (ih _).trans (tokens_use r u)

theorem alike_current? (r : Recorder) (thread : Nat) : r.Alike (r.current? thread).2 := by
  unfold current?
  split
  · exact .refl r
  · exact alike_onStack r thread _

theorem alike_findOpen? (r : Recorder) (thread : Nat) (category : SpanCategory) :
    r.Alike (r.findOpen? thread category).2 := by
  unfold findOpen?
  split
  · exact .refl r
  · exact alike_onStack r thread _

theorem steps_use (r : Recorder) (u : Use) {U : List SpanRef} :
    Steps true ⟨r, U⟩ ⟨r.use u, U⟩ := by
  have haside : ∀ {t : Recorder}, r.Alike t → Steps true ⟨r, U⟩ ⟨t, U⟩ := fun h =>
    .single (.deed (.aside h))
  cases u with
  | call m => exact steps_move m (.inl rfl)
  | keep ref => exact haside (alike_addHandle r ref)
  | letGo | letGoHold =>
    exact haside ⟨rfl, rfl, rfl, rfl, rfl, rfl, rfl, rfl, rfl, rfl, rfl, rfl, rfl⟩
  | look thread => exact haside (alike_current? r thread)
  | lookContext thread => exact haside (alike_current? r thread)
  | find thread category => exact haside (alike_findOpen? r thread category)
  | clear thread => exact haside (alike_onStack r thread fun _ => .empty)

theorem steps_uses (r : Recorder) (uses : List Use) {U : List SpanRef} :
    Steps true ⟨r, U⟩ ⟨uses.foldl use r, U⟩ := by
  induction uses generalizing r with
  | nil => exact .refl
  | cons u uses ih => exact (steps_use r u).trans (ih _)

/-! ## Calls for tokens -/

theorem serveAll_concat (r : Recorder) (calls : List TokenCall) (call : TokenCall) :
    r.serveAll (calls ++ [call]) = (r.serveAll calls).serve call := by
  simp [serveAll]

/-! ### What a call does -/

theorem fst_unbind (r : Recorder) (token : String) : (r.unbind token).1 = r.tokens.get? token :=
  Dictionary.fst_take r.tokens token

theorem markLeaked_of_bound {token : String} {b : Binding} (h : r.tokens.get? token = some b)
    (thread : Nat) :
    r.markLeaked thread token =
      (r.unbind token).2.tryEnd thread b.span (b.autoEnd.getD r.clock.ticks) := by
  unfold markLeaked
  split
  next hu =>
    rw [← fst_unbind, hu] at h
    contradiction
  next b' t hu =>
    rw [← fst_unbind, hu] at h
    obtain rfl := Option.some.inj h
    obtain rfl : t = (r.unbind token).2 := by rw [hu]
    rfl

theorem markLeaked_of_free {token : String} (h : r.tokens.get? token = none) (thread : Nat) :
    r.markLeaked thread token = (false, (r.unbind token).2) := by
  unfold markLeaked
  split
  next hu => rw [hu]
  next hu =>
    rw [← fst_unbind, hu] at h
    contradiction

/-- A call that takes a binding away does no more than that, and perhaps a use of its span. -/
theorem exists_serve_eq {token : String} {call : TokenCall} (h : call.unbinds token = true) :
    ∃ uses : List Use, r.serve call = uses.foldl use (r.unbind token).2 := by
  cases call with
  | leak thread t =>
    obtain rfl : t = token := eq_of_beq h
    show ∃ uses : List Use, (r.markLeaked thread t).2 = _
    cases hb : r.tokens.get? t with
    | none => exact ⟨[], by rw [markLeaked_of_free hb]; rfl⟩
    | some b =>
      rw [markLeaked_of_bound hb]
      exact ⟨[.call (.finish thread b.span _)], rfl⟩
  | finish thread t time =>
    obtain rfl : t = token := eq_of_beq h
    show ∃ uses : List Use, r.endTracked thread t time = _
    unfold endTracked
    split
    next u hu => exact ⟨[], by rw [hu]; rfl⟩
    next b u hu => exact ⟨[.call (.finish thread b.span time)], by rw [hu]; rfl⟩
  | discard thread t =>
    obtain rfl : t = token := eq_of_beq h
    show ∃ uses : List Use, r.discardTracked thread t = _
    unfold discardTracked
    split
    next u hu => exact ⟨[], by rw [hu]; rfl⟩
    next b u hu => exact ⟨[.call (.discard thread b.span)], by rw [hu]; rfl⟩
  | untrack t =>
    obtain rfl : t = token := eq_of_beq h
    exact ⟨[], rfl⟩
  | track | noteEnd | other => contradiction

theorem tokens_serve_of_unbinds {token : String} {call : TokenCall}
    (h : call.unbinds token = true) : (r.serve call).tokens = r.tokens.erase token := by
  obtain ⟨uses, heq⟩ := exists_serve_eq (r := r) h
  rw [heq, tokens_uses]
  rfl

theorem track_of_bound {token : String} {bound : SpanRef} (h : r.tracked? token = some bound)
    (thread : Nat) (make : Recorder → SpanRef × Recorder) :
    r.track thread token make = (bound, r) := by
  unfold track
  rw [h]

/-- A token that is not bound is bound to what is made, without a noted end. -/
theorem track_of_free {token : String} (h : r.tracked? token = none) (thread : Nat) (make : Maker) :
    r.track thread token make.run = ((make.run r).1,
      { (make.run r).2 with tokens := r.tokens.insert token ⟨(make.run r).1, none⟩ }) := by
  obtain ⟨uses, huses⟩ := make.runs r
  have hsame : (make.run r).2.tokens = r.tokens := by rw [huses, tokens_uses]
  have hstill : (make.run r).2.tracked? token = none := by
    unfold tracked? at h ⊢
    rw [hsame, h]
  unfold track
  simp only [h, hstill, hsame]

theorem get?_markAutomaticEnd (r : Recorder) (token other : String) (time : Ticks) :
    (r.markAutomaticEnd token time).tokens.get? other =
      if token = other then (r.tokens.get? token).map fun b => { b with autoEnd := some time }
      else r.tokens.get? other := by
  unfold markAutomaticEnd
  split
  next b h => rw [Dictionary.get?_insert, h, Option.map_some]
  next h =>
    split
    next heq => rw [h, ← heq, h, Option.map_none]
    next => rfl

theorem alike_tokens (r : Recorder) (tokens : Dictionary String Binding) :
    r.Alike { r with tokens } :=
  ⟨rfl, rfl, rfl, rfl, rfl, rfl, rfl, rfl, rfl, rfl, rfl, rfl, rfl⟩

theorem steps_serve (r : Recorder) (call : TokenCall) {U : List SpanRef} :
    Steps true ⟨r, U⟩ ⟨r.serve call, U⟩ := by
  have haside : ∀ (t : Recorder) (tokens : Dictionary String Binding),
      Steps true ⟨t, U⟩ ⟨{ t with tokens }, U⟩ := fun t tokens =>
    .single (.deed (.aside (alike_tokens t tokens)))
  have hunbinds : ∀ token, call.unbinds token = true → Steps true ⟨r, U⟩ ⟨r.serve call, U⟩ := by
    intro token h
    obtain ⟨uses, heq⟩ := exists_serve_eq (r := r) h
    rw [heq]
    exact (haside r (r.tokens.erase token)).trans (steps_uses _ uses)
  cases call with
  | track thread token make =>
    show Steps true ⟨r, U⟩ ⟨(r.track thread token make.run).2, U⟩
    cases h : r.tracked? token with
    | some bound => rw [track_of_bound h]
    | none =>
      obtain ⟨uses, huses⟩ := make.runs r
      rw [track_of_free h]
      refine Relation.ReflTransGen.trans ?_ (haside (make.run r).2 _)
      rw [huses]
      exact steps_uses r uses
  | noteEnd token time =>
    show Steps true ⟨r, U⟩ ⟨r.markAutomaticEnd token time, U⟩
    unfold markAutomaticEnd
    split
    · exact haside r _
    · exact .refl
  | leak thread token => exact hunbinds token (beq_self_eq_true token)
  | finish thread token time => exact hunbinds token (beq_self_eq_true token)
  | discard thread token => exact hunbinds token (beq_self_eq_true token)
  | untrack token => exact hunbinds token (beq_self_eq_true token)
  | other u => exact steps_use r u

/-! ## Spans that are closed -/

/-- The span is there and open. -/
def IsOpen (r : Recorder) (ref : SpanRef) : Prop :=
  ∃ s, r.span? ref = some s ∧ s.state.isOpen = true

theorem Marked.endTimes_eq_nil (h : r.Marked) (ho : r.IsOpen ref) : r.endTimes ref = [] := by
  obtain ⟨s, hs, hopen⟩ := ho
  exact (h.spans ref s hs).ofOpen hopen

theorem not_isOpen_tryEnd (h : r.Marked) (thread : Nat) (ref : SpanRef) (time : Ticks) :
    ¬ (r.tryEnd thread ref time).2.IsOpen ref := by
  intro hopen
  by_cases ho : r.IsOpen ref
  · obtain ⟨s, hs, hso⟩ := ho
    have hmarked : (r.tryEnd thread ref time).2.Marked := by
      have hsteps : Steps true ⟨r, []⟩ ⟨(r.tryEnd thread ref time).2, []⟩ :=
        steps_move (.finish thread ref time) (.inl rfl)
      exact h.steps hsteps
    have hnone := hmarked.endTimes_eq_nil hopen
    rw [(h.tryEnd hs thread time).2, if_pos hso] at hnone
    contradiction
  · rw [Recorder.tryEnd, endWith_of_not_isOpen ho] at hopen
    exact ho hopen

theorem not_isOpen_discard (r : Recorder) (thread : Nat) (ref : SpanRef) :
    ¬ (r.discard thread ref).2.IsOpen ref := by
  rintro ⟨t, ht, hopen⟩
  cases hd : (r.span? ref).bind Span.discard? with
  | none =>
    simp only [Recorder.discard, hd] at ht
    rw [ht, Option.bind_some, Span.discard?, Option.map_eq_none_iff, Span.move?,
      Option.map_eq_none_iff] at hd
    cases hstate : t.state <;> simp [hstate, SpanState.isOpen, SpanState.discard?] at hd hopen
  | some found =>
    have hanswer : (r.discard thread ref).1 = true := by simp only [Recorder.discard, hd]
    obtain ⟨u, hu, hstate⟩ := exists_discarded r thread ref hanswer
    obtain rfl := Option.some.inj (hu.symm.trans ht)
    rw [hstate] at hopen
    contradiction

/-- A span that was closed under its token is not open, whoever ended it. -/
theorem not_isOpen_serve (h : r.Marked) {token : String} {b : Binding}
    (hb : r.tokens.get? token = some b) {call : TokenCall} (hc : call.closes token = true) :
    ¬ (r.serve call).IsOpen b.span := by
  have hmarked : (r.unbind token).2.Marked := h.same (fun _ => rfl) fun _ => rfl
  rw [← fst_unbind] at hb
  cases call with
  | leak thread t =>
    obtain rfl : t = token := eq_of_beq hc
    show ¬ (r.markLeaked thread t).2.IsOpen b.span
    rw [markLeaked_of_bound (fst_unbind r t ▸ hb)]
    exact not_isOpen_tryEnd hmarked thread b.span _
  | finish thread t time =>
    obtain rfl : t = token := eq_of_beq hc
    show ¬ (r.endTracked thread t time).IsOpen b.span
    unfold endTracked
    split
    next hu =>
      rw [hu] at hb
      contradiction
    next u hu =>
      rw [hu] at hb hmarked
      obtain rfl := Option.some.inj hb
      exact not_isOpen_tryEnd hmarked thread _ time
  | discard thread t =>
    obtain rfl : t = token := eq_of_beq hc
    show ¬ (r.discardTracked thread t).IsOpen b.span
    unfold discardTracked
    split
    next hu =>
      rw [hu] at hb
      contradiction
    next u hu =>
      rw [hu] at hb
      obtain rfl := Option.some.inj hb
      exact not_isOpen_discard u thread _
  | track | noteEnd | untrack | other => contradiction

/-- The call answers whether it ended the span itself, and it does so at the noted time. -/
theorem Marked.markLeaked (h : r.Marked) {token : String} {b : Binding}
    (hb : r.tokens.get? token = some b) (thread : Nat) :
    ((r.markLeaked thread token).1 = true ↔ r.IsOpen b.span) ∧
      (r.markLeaked thread token).2.endTimes b.span =
        (if (r.markLeaked thread token).1 then [b.autoEnd.getD r.clock.ticks] else []) ++
          r.endTimes b.span := by
  have hmarked : (r.unbind token).2.Marked := h.same (fun _ => rfl) fun _ => rfl
  rw [markLeaked_of_bound hb]
  by_cases ho : r.IsOpen b.span
  · have hnone := h.endTimes_eq_nil ho
    obtain ⟨s, hs, hopen⟩ := ho
    obtain ⟨hanswer, hends⟩ := hmarked.tryEnd hs thread (b.autoEnd.getD r.clock.ticks)
    rw [hopen] at hanswer
    rw [if_pos hopen] at hends
    refine ⟨⟨fun _ => ⟨s, hs, hopen⟩, fun _ => hanswer⟩, ?_⟩
    rw [hends, hanswer, hnone]
    rfl
  · have hrefused : (r.unbind token).2.tryEnd thread b.span (b.autoEnd.getD r.clock.ticks) =
        (false, (r.unbind token).2) :=
      endWith_of_not_isOpen (r := (r.unbind token).2) ho (handOver thread) thread _
    rw [hrefused]
    exact ⟨⟨fun hf => by contradiction, fun hopen => absurd hopen ho⟩, rfl⟩

/-! ## Runs -/

/-- In a run of calls, the token was bound when it was free, and not unbound since. It is bound to
what was made then, and the time that was noted last since then is its noted end. -/
def BoundSince (r₀ : Recorder) (calls : List TokenCall) (token : String) (b : Binding) : Prop :=
  ∃ before thread make after, calls = before ++ .track thread token make :: after ∧
    (r₀.serveAll before).tracked? token = none ∧
    b.span = (make.run (r₀.serveAll before)).1 ∧
    (∀ call ∈ after, call.unbinds token = false) ∧
    b.autoEnd = (after.filterMap (TokenCall.noted? token)).getLast?

theorem tracked?_eq_none_iff {token : String} :
    r.tracked? token = none ↔ r.tokens.get? token = none := Option.map_eq_none_iff

/-- A binding after a call is a new one, or one from before with what the call notes. -/
theorem binding_cases (hn : r.tokens.keys.Nodup) {token : String} {call : TokenCall} {b : Binding}
    (hc : call.unbinds token = false) (hb : (r.serve call).tokens.get? token = some b) :
    (∃ thread make, call = .track thread token make ∧ r.tracked? token = none ∧
      b = ⟨(make.run r).1, none⟩) ∨
    ∃ old, r.tokens.get? token = some old ∧
      b = { old with autoEnd := (call.noted? token).or old.autoEnd } := by
  have hsame : call.noted? token = none → (r.serve call).tokens.get? token = r.tokens.get? token →
      ∃ old, r.tokens.get? token = some old ∧
        b = { old with autoEnd := (call.noted? token).or old.autoEnd } := by
    intro hnote heq
    exact ⟨b, heq.symm.trans hb, by rw [hnote]; rfl⟩
  have hother : ∀ t, call.unbinds t = true → call.noted? token = none →
      ∃ old, r.tokens.get? token = some old ∧
        b = { old with autoEnd := (call.noted? token).or old.autoEnd } := by
    intro t ht hnote
    have hne : t ≠ token := by
      rintro rfl
      rw [ht] at hc
      contradiction
    apply hsame hnote
    rw [tokens_serve_of_unbinds ht, Dictionary.get?_erase hn, if_neg hne]
  cases call with
  | track thread t make =>
    cases ht : r.tracked? t with
    | some bound =>
      refine .inr (hsame rfl ?_)
      show (r.track thread t make.run).2.tokens.get? token = _
      rw [track_of_bound ht]
    | none =>
      have htokens : (r.serve (.track thread t make)).tokens =
          r.tokens.insert t ⟨(make.run r).1, none⟩ := by
        show (r.track thread t make.run).2.tokens = _
        rw [track_of_free ht]
      by_cases heq : t = token
      · subst heq
        rw [htokens, Dictionary.get?_insert, if_pos rfl] at hb
        exact .inl ⟨thread, make, rfl, ht, (Option.some.inj hb).symm⟩
      · refine .inr (hsame rfl ?_)
        rw [htokens, Dictionary.get?_insert, if_neg heq]
  | noteEnd t time =>
    right
    by_cases heq : t = token
    · subst heq
      have hmap := get?_markAutomaticEnd r t t time
      rw [if_pos rfl] at hmap
      obtain ⟨old, hold, rfl⟩ := Option.map_eq_some_iff.mp (hmap.symm.trans hb)
      exact ⟨old, hold, by simp [TokenCall.noted?]⟩
    · apply hsame
      · exact if_neg heq
      · exact (get?_markAutomaticEnd r t token time).trans (if_neg heq)
  | leak thread t => exact .inr (hother t (beq_self_eq_true t) rfl)
  | finish thread t time => exact .inr (hother t (beq_self_eq_true t) rfl)
  | discard thread t => exact .inr (hother t (beq_self_eq_true t) rfl)
  | untrack t => exact .inr (hother t (beq_self_eq_true t) rfl)
  | other u => exact .inr (hsame rfl (by rw [serve, tokens_use]))

theorem nodup_serve (hn : r.tokens.keys.Nodup) (call : TokenCall) :
    (r.serve call).tokens.keys.Nodup := by
  have herase : ∀ token, call.unbinds token = true → (r.serve call).tokens.keys.Nodup := by
    intro token ht
    rw [tokens_serve_of_unbinds ht]
    exact Dictionary.nodup_keys_erase hn token
  cases call with
  | track thread token make =>
    show (r.track thread token make.run).2.tokens.keys.Nodup
    cases ht : r.tracked? token with
    | some bound => rwa [track_of_bound ht]
    | none =>
      rw [track_of_free ht]
      exact Dictionary.nodup_keys_insert hn token _
  | noteEnd token time =>
    show (r.markAutomaticEnd token time).tokens.keys.Nodup
    unfold markAutomaticEnd
    split
    · exact Dictionary.nodup_keys_insert hn token _
    · exact hn
  | leak thread token => exact herase token (beq_self_eq_true token)
  | finish thread token time => exact herase token (beq_self_eq_true token)
  | discard thread token => exact herase token (beq_self_eq_true token)
  | untrack token => exact herase token (beq_self_eq_true token)
  | other u => rwa [serve, tokens_use]

theorem BoundSince.concat {r₀ : Recorder} {calls : List TokenCall} {token : String} {b : Binding}
    (h : r₀.BoundSince calls token b) {call : TokenCall} (hc : call.unbinds token = false) :
    r₀.BoundSince (calls ++ [call]) token
      { b with autoEnd := (call.noted? token).or b.autoEnd } := by
  obtain ⟨before, thread, make, after, rfl, hfree, hspan, hkept, hnoted⟩ := h
  refine ⟨before, thread, make, after ++ [call], by simp, hfree, hspan, ?_, ?_⟩
  · intro other hm
    rcases List.mem_append.mp hm with hm | hm
    · exact hkept other hm
    · exact List.mem_singleton.mp hm ▸ hc
  · rw [hnoted, List.filterMap_append, List.getLast?_append]
    cases hn : call.noted? token <;> simp [hn]

/-- A run binds each token once at most, and every binding is told by the run. -/
theorem bindings_serveAll {r₀ : Recorder} (h₀ : r₀.tokens = .empty) (calls : List TokenCall) :
    (r₀.serveAll calls).tokens.keys.Nodup ∧
      ∀ token b, (r₀.serveAll calls).tokens.get? token = some b →
        r₀.BoundSince calls token b := by
  induction calls using List.reverseRecOn with
  | nil =>
    show r₀.tokens.keys.Nodup ∧ ∀ token b, r₀.tokens.get? token = some b → _
    rw [h₀]
    exact ⟨.nil, fun token b hb => by contradiction⟩
  | append_singleton calls call ih =>
    obtain ⟨hn, hbound⟩ := ih
    rw [serveAll_concat]
    refine ⟨nodup_serve hn call, fun token b hb => ?_⟩
    have hc : call.unbinds token = false := by
      rw [← Bool.not_eq_true]
      intro hc
      rw [tokens_serve_of_unbinds hc, Dictionary.get?_erase hn, if_pos rfl] at hb
      contradiction
    rcases binding_cases hn hc hb with ⟨thread, make, rfl, hfree, rfl⟩ | ⟨old, hold, rfl⟩
    · exact ⟨calls, thread, make, [], rfl, hfree, rfl, by simp, rfl⟩
    · exact (hbound token old hold).concat hc

theorem Marked.serveAll (h : r.Marked) (calls : List TokenCall) : (r.serveAll calls).Marked := by
  induction calls generalizing r with
  | nil => exact h
  | cons call calls ih =>
    have hsteps : Steps true ⟨r, []⟩ ⟨r.serve call, []⟩ := steps_serve r call
    exact ih (h.steps hsteps)

/-- After any calls for tokens, with anything else done to the spans in between, no token is bound
twice. A token that is bound keeps its span, and one that is free is bound to what is made for it. A
call that unbinds a token leaves all others bound as they were, and one that closes it leaves its
span closed. A span is reported leaked by the call that ends it, at the time that was noted last
since the span was bound, or else at the time of the call. -/
theorem tokens_serveAll (clock : Clock) (limits : AttributeLimits) (timed : Bool) (sink : Sink)
    (sampler : Sampler) (trigger : Nat) (timeout : Nanos) (calls : List TokenCall) :
    let r₀ := start clock limits timed sink sampler trigger timeout
    let r := r₀.serveAll calls
    r.tokens.keys.Nodup ∧
    (∀ token bound, r.tracked? token = some bound →
      ∀ thread make, r.track thread token make = (bound, r)) ∧
    (∀ token, r.tracked? token = none → ∀ thread (make : Maker),
      (r.track thread token make.run).1 = (make.run r).1 ∧
      ∀ other, (r.track thread token make.run).2.tracked? other =
        if token = other then some (make.run r).1 else r.tracked? other) ∧
    (∀ token (call : TokenCall), call.unbinds token = true → ∀ other,
      (r.serve call).tokens.get? other = if token = other then none else r.tokens.get? other) ∧
    (∀ token bound (call : TokenCall), r.tracked? token = some bound → call.closes token = true →
      ¬ (r.serve call).IsOpen bound) ∧
    (∀ token thread, r.tracked? token = none → (r.markLeaked thread token).1 = false) ∧
    ∀ token b thread, r.tokens.get? token = some b →
      r₀.BoundSince calls token b ∧
      ((r.markLeaked thread token).1 = true ↔ r.IsOpen b.span) ∧
      (r.markLeaked thread token).2.endTimes b.span =
        (if (r.markLeaked thread token).1 then [b.autoEnd.getD r.clock.ticks] else []) ++
          r.endTimes b.span ∧
      ((r.markLeaked thread token).1 = true → ∃ s,
        (r.markLeaked thread token).2.span? b.span = some s ∧
          s.endMark = b.autoEnd.getD r.clock.ticks) := by
  intro r₀ r
  obtain ⟨hn, hbound⟩ : r.tokens.keys.Nodup ∧ ∀ token b, r.tokens.get? token = some b →
      r₀.BoundSince calls token b := bindings_serveAll rfl calls
  have hmarked : r.Marked :=
    (marked_start clock limits timed sink sampler trigger timeout).serveAll calls
  refine ⟨hn, fun token bound => track_of_bound, ?_, ?_, ?_, ?_, ?_⟩
  · intro token hfree thread make
    rw [track_of_free hfree]
    refine ⟨rfl, fun other => ?_⟩
    unfold tracked?
    rw [Dictionary.get?_insert]
    split <;> rfl
  · intro token call hc other
    rw [tokens_serve_of_unbinds hc, Dictionary.get?_erase hn]
  · intro token bound call hb hc
    obtain ⟨b, hbinding, rfl⟩ := Option.map_eq_some_iff.mp hb
    exact not_isOpen_serve hmarked hbinding hc
  · intro token thread hfree
    rw [markLeaked_of_free (tracked?_eq_none_iff.mp hfree)]
  · intro token b thread hb
    obtain ⟨hanswer, hends⟩ := hmarked.markLeaked hb thread
    refine ⟨hbound token b hb, hanswer, hends, fun hwon => ?_⟩
    have hafter : (r.markLeaked thread token).2.Marked := by
      have hsteps : Steps true ⟨r, []⟩ ⟨(r.markLeaked thread token).2, []⟩ :=
        steps_serve r (.leak thread token)
      exact hmarked.steps hsteps
    rw [hwon] at hends
    exact hafter.exists_endMark hends

/-- A token is bound once more after its first span was let go with an end noted; the second span is
found leaked, at the end that was noted last for it. The span of another token is ended by somebody
else first. -/
theorem tokens_serveAll_bound_again :
    let r := (start default .standard true .batch .discarding 100 0).serveAll
      [.track 0 "page" (.create 0 (.ofNumbers 1 1) (.named "first")), .noteEnd "page" 5,
        .untrack "page", .track 0 "page" (.create 0 (.ofNumbers 2 2) (.named "second")),
        .track 0 "call" (.create 0 (.ofNumbers 3 3) (.named "third")), .noteEnd "page" 7,
        .noteEnd "call" 8, .noteEnd "page" 9, .other (.call (.finish 0 2 6))]
    r.tracked? "page" = some 1 ∧ r.tracked? "call" = some 2 ∧
      (r.markLeaked 0 "page").1 = true ∧ (r.markLeaked 0 "page").2.endTimes 1 = [9] ∧
      (r.markLeaked 0 "page").2.tracked? "call" = some 2 ∧
      (r.markLeaked 0 "call").1 = false ∧ (r.markLeaked 0 "call").2.endTimes 2 = [6] := by
  intro r
  obtain ⟨-, -, -, hunbinds, -, -, hleaks⟩ :=
    tokens_serveAll default .standard true .batch .discarding 100 0
      [.track 0 "page" (.create 0 (.ofNumbers 1 1) (.named "first")), .noteEnd "page" 5,
        .untrack "page", .track 0 "page" (.create 0 (.ofNumbers 2 2) (.named "second")),
        .track 0 "call" (.create 0 (.ofNumbers 3 3) (.named "third")), .noteEnd "page" 7,
        .noteEnd "call" 8, .noteEnd "page" 9, .other (.call (.finish 0 2 6))]
  have hpage : r.tokens.get? "page" = some ⟨1, some 9⟩ := by decide +kernel
  have hcall : r.tokens.get? "call" = some ⟨2, some 8⟩ := by decide +kernel
  have hstates : ((r.span? 1).map fun s => s.state.isOpen) = some true ∧
      ((r.span? 2).map fun s => s.state.isOpen) = some false ∧ r.endTimes 1 = [] ∧
      r.endTimes 2 = [6] := by decide +kernel
  obtain ⟨hone, htwo, hnone, hsix⟩ := hstates
  obtain ⟨-, hanswer, hends, -⟩ := hleaks "page" _ 0 hpage
  obtain ⟨-, hanswer', hends', -⟩ := hleaks "call" _ 0 hcall
  have hwon : (r.markLeaked 0 "page").1 = true := by
    obtain ⟨s, hs, hopen⟩ := Option.map_eq_some_iff.mp hone
    exact hanswer.mpr ⟨s, hs, hopen⟩
  have hlost : (r.markLeaked 0 "call").1 = false := by
    rw [← Bool.not_eq_true]
    intro hwon
    obtain ⟨s, hs, hopen⟩ := hanswer'.mp hwon
    rw [hs, Option.map_some, hopen] at htwo
    contradiction
  have hkept : (r.markLeaked 0 "page").2.tokens.get? "call" = some ⟨2, some 8⟩ :=
    (hunbinds "page" (.leak 0 "page") (by decide) "call").trans hcall
  refine ⟨by rw [tracked?, hpage]; rfl, by rw [tracked?, hcall]; rfl, hwon, ?_,
    by rw [tracked?, hkept]; rfl, hlost, ?_⟩
  · rw [hends, hwon, hnone]
    rfl
  · rw [hends', hlost, hsix]
    rfl

end Recorder
end SpanRelay
