import SpanRelay.Recorder.Lifecycle

/-!
Spans under tokens, so that code which does not hold a span can end it. A token is bound to one
span; a span found leaked ends at the time noted last, or now.
-/
namespace SpanRelay.Recorder

def tracked? (r : Recorder) (token : String) : Option SpanRef :=
  (r.tokens.get? token).map Binding.span

/-- The span bound to the token, or the one that `make` creates, bound from now on. If `make` itself
has bound the token the span bound by it wins and the other is discarded. -/
def track (r : Recorder) (thread : Nat) (token : String) (make : Recorder → SpanRef × Recorder) :
    SpanRef × Recorder :=
  match r.tracked? token with
  | some bound => (bound, r)
  | none =>
    let (created, r) := make r
    match r.tracked? token with
    | some winner => (winner, (r.discard thread created).2)
    | none => (created, { r with tokens := r.tokens.insert token ⟨created, none⟩ })

/-- Notes when a bound span is to end if nobody ends it. -/
def markAutomaticEnd (r : Recorder) (token : String) (time : Ticks) : Recorder :=
  match r.tokens.get? token with
  | some b => { r with tokens := r.tokens.insert token { b with autoEnd := some time } }
  | none => r

def unbind (r : Recorder) (token : String) : Option Binding × Recorder :=
  let (binding, tokens) := r.tokens.take token
  (binding, { r with tokens })

/-- Ends the bound span; answers whether this call ended it. -/
def markLeaked (r : Recorder) (thread : Nat) (token : String) : Bool × Recorder :=
  match r.unbind token with
  | (none, r) => (false, r)
  | (some b, r) => r.tryEnd thread b.span (b.autoEnd.getD r.clock.ticks)

def endTracked (r : Recorder) (thread : Nat) (token : String) (time : Ticks) : Recorder :=
  match r.unbind token with
  | (none, r) => r
  | (some b, r) => (r.tryEnd thread b.span time).2

def discardTracked (r : Recorder) (thread : Nat) (token : String) : Recorder :=
  match r.unbind token with
  | (none, r) => r
  | (some b, r) => (r.discard thread b.span).2

end SpanRelay.Recorder
