import SpanRelay.Storage.DeviceId

/-!
Processes that load the device id at the same time, one atomic step at a time. A reader takes no
lock and may see a file that is being written; what is written comes to be seen piece by piece.
-/
namespace SpanRelay.DeviceId

/-- The next step of a process. -/
inductive LoadPoint where
  | reading
  | opening
  /-- So many attempts to get the lock have failed. -/
  | locking (failed : Nat)
  | readingAgain
  | clearing
  /-- So many bytes of the new content can be seen. -/
  | writing (seen : Nat)
  | unlocking (id : String)
  | returned (id : Option String)
  deriving DecidableEq, Repr

structure LoadContest where
  file : Option Bytes
  /-- The process that holds the lock. -/
  lock : Option Nat
  /-- The id that each process draws if it has to, and where it is. -/
  processes : List (String × LoadPoint)
  deriving DecidableEq, Repr

inductive LoadEvent where
  | arrive (drawn : String)
  | step (process : Nat)
  /-- The reading without the lock fails, as if there were no file. -/
  | misread (process : Nat)
  /-- More bytes of what a process writes come to be seen. -/
  | show (process : Nat) (more : Nat)
  /-- A process dies, or an operation on the file fails. -/
  | fail (process : Nat)
  deriving DecidableEq, Repr

namespace LoadContest

def start (file : Option Bytes) : LoadContest := ⟨file, none, []⟩

def advance? (c : LoadContest) (index : Nat) (drawn : String) :
    LoadPoint → Option (LoadContest × LoadPoint)
  | .reading =>
    match c.file.bind ofBytes? with
    | some id => some (c, .returned (some id))
    | none => some (c, .opening)
  | .opening => some ({ c with file := some (c.file.getD []) }, .locking 0)
  | .locking failed =>
    if c.lock = none then some ({ c with lock := some index }, .readingAgain)
    else if failed + 1 < lockAttempts then some (c, .locking (failed + 1))
    else some (c, .returned none)
  | .readingAgain =>
    match c.file.bind ofBytes? with
    | some id => some (c, .unlocking id)
    | none => some (c, .clearing)
  | .clearing => some ({ c with file := some [] }, .writing 0)
  | .writing seen =>
    if (toBytes drawn).length ≤ seen then some (c, .unlocking drawn) else none
  | .unlocking id => some ({ c with lock := none }, .returned (some id))
  | .returned _ => none

def event? (c : LoadContest) : LoadEvent → Option LoadContest
  | .arrive drawn => some { c with processes := c.processes ++ [(drawn, .reading)] }
  | .step index =>
    match c.processes[index]? with
    | none => none
    | some (drawn, point) =>
      (c.advance? index drawn point).map fun (c, next) =>
        { c with processes := c.processes.set index (drawn, next) }
  | .misread index =>
    match c.processes[index]? with
    | some (drawn, .reading) =>
      some { c with processes := c.processes.set index (drawn, .opening) }
    | _ => none
  | .show index more =>
    match c.processes[index]? with
    | some (drawn, .writing seen) =>
      some
        { c with
          file := some ((toBytes drawn).take (seen + more))
          processes := c.processes.set index (drawn, .writing (seen + more)) }
    | _ => none
  | .fail index =>
    match c.processes[index]? with
    | none | some (_, .returned _) => none
    | some (drawn, _) =>
      some
        { c with
          lock := if c.lock = some index then none else c.lock
          processes := c.processes.set index (drawn, .returned none) }

/-- All events in turn, as far as each is possible. -/
def run? (c : LoadContest) : List LoadEvent → Option LoadContest
  | [] => some c
  | event :: rest => (c.event? event).bind (run? · rest)

end LoadContest
end SpanRelay.DeviceId
