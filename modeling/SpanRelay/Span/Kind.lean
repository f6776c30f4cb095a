/-! What sort of work a span measures. -/
namespace SpanRelay

inductive SpanKind where
  | internal
  | server
  | client
  | producer
  | consumer
  deriving DecidableEq, Repr, Inhabited

def SpanKind.ordinal : SpanKind → Nat
  | internal => 1
  | server => 2
  | client => 3
  | producer => 4
  | consumer => 5

/-- The kind of that number; internal for a number that is none. -/
def SpanKind.ofOrdinal : Nat → SpanKind
  | 2 => server
  | 3 => client
  | 4 => producer
  | 5 => consumer
  | _ => internal

inductive SpanCategory where
  | custom
  | viewLoad
  | viewLoadPhase
  | network
  | appStart
  | appStartPhase
  deriving DecidableEq, Repr, Inhabited

namespace SpanCategory

def label? : SpanCategory → Option String
  | custom => none
  | viewLoad => some "view_load"
  | viewLoadPhase => some "view_load_phase"
  | network => some "network"
  | appStart => some "app_start"
  | appStartPhase => some "app_start_phase"

def all : List SpanCategory := [custom, viewLoad, viewLoadPhase, network, appStart, appStartPhase]

/-- The category of that label; custom for a text that labels none. -/
def ofLabel (label : String) : SpanCategory := (all.find? (·.label? == some label)).getD custom

/-- Only these categories say whether a span is first-class. -/
def marksFirstClass : SpanCategory → Bool
  | custom | viewLoad => true
  | _ => false

end SpanCategory

/-- Measurements that a producer asks to have taken along with the span. -/
structure SpanMetrics where
  rendering : Bool
  cpu : Bool
  memory : Bool
  deriving DecidableEq, Repr

end SpanRelay
