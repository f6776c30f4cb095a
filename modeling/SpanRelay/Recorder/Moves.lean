import SpanRelay.Recorder.Batches
import SpanRelay.Recorder.Tokens

/-!
Runs of a recorder. Moves are its operations; uses are moves and whatever else the code around does
with handles and stacks; calls are for tokens, or uses. A run is a list of one kind, in any order,
on any threads, at any readings of the clock.
-/
namespace SpanRelay.Recorder

/-! ## Moves -/

/-- An operation that is asked of a recorder from outside. -/
inductive Move where
  | create (thread : Nat) (fresh : FreshIds) (q : SpanRequest)
  /-- Creates a span with attributes of the library's own, as for requests and views. -/
  | createWith (thread : Nat) (fresh : FreshIds) (q : SpanRequest) (own : List (String × String))
  | rename (ref : SpanRef) (name : String)
  | setAttribute (ref : SpanRef) (key : String) (value : AttributeValue)
  | removeAttribute (ref : SpanRef) (key : String)
  | finish (thread : Nat) (ref : SpanRef) (time : Ticks)
  | discard (thread : Nat) (ref : SpanRef)
  /-- Claims a span as processed, past any hand-over. -/
  | claim (ref : SpanRef)
  /-- Hands a span over, whatever its state. -/
  | present (thread : Nat) (ref : SpanRef)
  | hold (ref : SpanRef) (timeout : Nanos)
  | upgrade (id : HoldId)
  | closeHold (thread : Nat) (id : HoldId) (time : Ticks)
  | cancelHold (thread : Nat) (id : HoldId)
  /-- Fires so many of the deadlines that have come. -/
  | expire (thread : Nat) (count : Nat)
  | setClock (clock : Clock)
  | setSampler (sampler : Sampler)
  /-- Registers a callback for the end or the start of spans. -/
  | enrol (atEnd : Bool) (priority : Int) (label : String) (acts : List Act)
  | force
  | collect

/-- Claims no span other than by handing it over. -/
def Move.isRegular : Move → Bool
  | claim _ | present _ _ => false
  | enrol false _ _ acts => !acts.any Act.claims
  | _ => true

def enrol (r : Recorder) (c : Callback) (priority : Int) : Recorder :=
  let (ref, r) := r.define c
  if c.atEnd then { r with onEnd := (r.onEnd.add ⟨priority, ref⟩).2 }
  else { r with onStart := (r.onStart.add ⟨priority, ref⟩).2 }

def move (r : Recorder) : Move → Recorder
  | .create thread fresh q => (r.create thread fresh q).2
  | .createWith thread fresh q own => (r.createWith thread fresh q own).2
  | .rename ref name => r.modify ref (·.rename name)
  | .setAttribute ref key value => r.modify ref (·.setAttribute key value)
  | .removeAttribute ref key => r.modify ref fun s => (s.removeAttribute key).2
  | .finish thread ref time => (r.tryEnd thread ref time).2
  | .discard thread ref => (r.discard thread ref).2
  | .claim ref => (r.claim ref).2
  | .present thread ref => handOver thread r ref
  | .hold ref timeout => (r.hold ref timeout).2
  | .upgrade id => (r.upgrade id).2
  | .closeHold thread id time => (r.closeHold thread id time).2
  | .cancelHold thread id => (r.cancelHold thread id).2
  | .expire thread count => fireUpTo count thread r
  | .setClock clock => { r with clock }
  | .setSampler sampler => { r with sampler }
  | .enrol atEnd priority label acts => r.enrol ⟨label, atEnd, acts⟩ priority
  | .force => r.forceCurrentBatch
  | .collect => r.collectNextBatch.2

def play (r : Recorder) (moves : List Move) : Recorder := moves.foldl move r

/-! ## Uses -/

/-- What the code that uses a recorder does: besides its moves, taking hold of spans and letting go
of them, and looking at the stacks. -/
inductive Use where
  | call (m : Move)
  /-- Holds on to a span once more. -/
  | keep (ref : SpanRef)
  | letGo (ref : SpanRef)
  | letGoHold (id : HoldId)
  | look (thread : Nat)
  | lookContext (thread : Nat)
  | find (thread : Nat) (category : SpanCategory)
  | clear (thread : Nat)

def use (r : Recorder) : Use → Recorder
  | .call m => r.move m
  | .keep ref => r.addHandle ref
  | .letGo ref => r.dropHandle ref
  | .letGoHold id => r.dropHold id
  | .look thread => (r.current? thread).2
  | .lookContext thread => (r.currentContext? thread).2
  | .find thread category => (r.findOpen? thread category).2
  | .clear thread => r.clearStack thread

/-- A span that nobody holds on to is out of reach: it can be neither kept nor held. -/
def Permits (r : Recorder) : Use → Prop
  | .keep ref | .call (.hold ref _) => r.isAlive ref = true
  | _ => True

def Permitted : Recorder → List Use → Prop
  | _, [] => True
  | r, u :: rest => r.Permits u ∧ Permitted (r.use u) rest

/-- What has been attached on a thread since its stack was cleared, newest first, after a use. -/
def attaches (T : Nat) (r : Recorder) (seen : List SpanRef) : Use → List SpanRef
  | .call (.create thread fresh q) =>
    if thread = T ∧ q.makesContext = true then (r.create thread fresh q).1 :: seen else seen
  | .call (.createWith thread fresh q own) =>
    if thread = T ∧ q.makesContext = true then (r.createWith thread fresh q own).1 :: seen else seen
  | .clear thread => if thread = T then [] else seen
  | _ => seen

def attached (T : Nat) : Recorder → List SpanRef → List Use → List SpanRef
  | _, seen, [] => seen
  | r, seen, u :: rest => attached T (r.use u) (r.attaches T seen u) rest

/-- The span that a use creates is asked for in this way. -/
def Use.request? : Use → Option (Nat × FreshIds × SpanRequest)
  | .call (.create thread fresh q) => some (thread, fresh, q)
  | .call (.createWith thread fresh q _) => some (thread, fresh, q)
  | _ => none

/-! ## Calls for tokens -/

/-- Code that creates the span for a token, in whatever uses of the recorder it makes; it does not
use the tokens itself. -/
structure Maker where
  run : Recorder → SpanRef × Recorder
  runs : ∀ r, ∃ uses : List Use, (run r).2 = uses.foldl use r

/-- Code that creates one span. -/
def Maker.create (thread : Nat) (fresh : FreshIds) (q : SpanRequest) : Maker where
  run r := r.create thread fresh q
  runs _ := ⟨[.call (.create thread fresh q)], rfl⟩

/-- A call for a token, or anything else that is done with the spans meanwhile. -/
inductive TokenCall where
  | track (thread : Nat) (token : String) (make : Maker)
  | noteEnd (token : String) (time : Ticks)
  | leak (thread : Nat) (token : String)
  | finish (thread : Nat) (token : String) (time : Ticks)
  | discard (thread : Nat) (token : String)
  | untrack (token : String)
  | other (u : Use)

namespace TokenCall

/-- Closes the span that is bound to the token. -/
def closes (token : String) : TokenCall → Bool
  | leak _ t | finish _ t _ | discard _ t => t == token
  | _ => false

/-- Takes the binding of the token away. -/
def unbinds (token : String) : TokenCall → Bool
  | untrack t => t == token
  | call => call.closes token

/-- The end that is noted for the token. -/
def noted? (token : String) : TokenCall → Option Ticks
  | noteEnd t time => if t = token then some time else none
  | _ => none

end TokenCall

def serve (r : Recorder) : TokenCall → Recorder
  | .track thread token make => (r.track thread token make.run).2
  | .noteEnd token time => r.markAutomaticEnd token time
  | .leak thread token => (r.markLeaked thread token).2
  | .finish thread token time => r.endTracked thread token time
  | .discard thread token => r.discardTracked thread token
  | .untrack token => (r.unbind token).2
  | .other u => r.use u

def serveAll (r : Recorder) (calls : List TokenCall) : Recorder := calls.foldl serve r

end SpanRelay.Recorder
