/-! The cells that a worker thread shares with those who start, wake and stop it. -/
namespace SpanRelay

structure Signals where
  running : Bool
  woken : Bool
  /-- The thread can be waited for, by one caller only. -/
  joinable : Bool
  deriving DecidableEq, Repr, Inhabited

namespace Signals

def initial : Signals := ⟨false, false, false⟩

def wake (s : Signals) : Signals := { s with woken := true }

end Signals

/-- A state of the world in which these cells are found. -/
class Signalled (σ : Type) where
  signals : σ → Signals
  withSignals : σ → Signals → σ
  signals_withSignals : ∀ world s, signals (withSignals world s) = s

namespace Signalled

variable {σ : Type} [Signalled σ]

def modify (world : σ) (f : Signals → Signals) : σ := withSignals world (f (signals world))

def raiseWake (world : σ) : σ := modify world .wake

def isRunning (world : σ) : Bool := (signals world).running

/-- What a task does when it stops the worker it runs on: it cannot wait for itself. -/
def stopFromTask (world : σ) : σ := modify world fun _ => ⟨false, true, false⟩

end Signalled
end SpanRelay
