import SpanRelay.Hold
import SpanRelay.Span.Kind

/-!
The stack of spans that a thread has opened, newest first. Entries that are no longer live are
dropped when they come to the top; which spans are live is a question to the caller.
-/
namespace SpanRelay

structure ContextStack where
  entries : List SpanRef
  deriving DecidableEq, Repr, Inhabited

namespace ContextStack

def empty : ContextStack := ⟨[]⟩

def size (s : ContextStack) : Nat := s.entries.length

def isEmpty (s : ContextStack) : Bool := s.entries.isEmpty

def attach (s : ContextStack) (span : SpanRef) : ContextStack := ⟨span :: s.entries⟩

def prune (isLive : SpanRef → Bool) (s : ContextStack) : ContextStack :=
  ⟨s.entries.dropWhile fun e => !isLive e⟩

/-- Takes the span off only if it is on top once dead entries are gone. -/
def detach (isLive : SpanRef → Bool) (s : ContextStack) (span : SpanRef) : ContextStack :=
  match (s.prune isLive).entries with
  | [] => ⟨[]⟩
  | top :: rest => if top = span then ⟨rest⟩ else ⟨top :: rest⟩

def current? (isLive : SpanRef → Bool) (s : ContextStack) : Option SpanRef :=
  (s.prune isLive).entries.head?

def find? (isLive : SpanRef → Bool) (matching : SpanRef → Bool) (s : ContextStack) :
    Option SpanRef :=
  (s.prune isLive).entries.find? fun e => isLive e && matching e

theorem entries_prune_sublist (isLive : SpanRef → Bool) (s : ContextStack) :
    (s.prune isLive).entries.Sublist s.entries := List.dropWhile_sublist _

end ContextStack
end SpanRelay
