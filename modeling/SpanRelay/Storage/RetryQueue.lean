import SpanRelay.Clock
import SpanRelay.Storage.RetryFile

/-!
Payloads kept as files until they are delivered. The newest comes first, those older than an age
limit are swept away, and a file that cannot be read as a payload is deleted when its turn comes.
-/
namespace SpanRelay

structure RetryQueue where
  folder : Path
  maxAge : Nanos
  /-- The place of a name in the listing of the folder, whose order is left to the file system. -/
  rank : String → Nat

namespace RetryQueue

def pathOf (q : RetryQueue) (timestamp : UInt64) : Path := q.folder ++ [RetryFile.name timestamp]

def add (q : RetryQueue) (t : FileTree) (p : Payload) : Except StorageError FileTree :=
  match t.makeFolders q.folder with
  | .error fault => .error (.ofFault q.folder fault)
  | .ok t =>
    match t.write (q.pathOf p.timestamp) (RetryFile.render p) with
    | .error fault => .error (.ofFault (q.pathOf p.timestamp) fault)
    | .ok t => .ok t

/-- The files of the folder with the timestamps in their names. -/
def list (q : RetryQueue) (t : FileTree) : List (Option UInt64 × Path) :=
  (t.fileNames q.folder).map fun name => (RetryFile.timestamp? name, q.folder ++ [name])

def size (q : RetryQueue) (t : FileTree) : Nat := (q.list t).length

def isEmpty (q : RetryQueue) (t : FileTree) : Bool := (q.list t).isEmpty

def removeAll (t : FileTree) (paths : List Path) : FileTree := paths.foldl FileTree.removeFile t

def remove (q : RetryQueue) (t : FileTree) (timestamp : UInt64) : FileTree :=
  t.removeFile (q.pathOf timestamp)

def clear (q : RetryQueue) (t : FileTree) : FileTree := removeAll t ((q.list t).map Prod.snd)

def oldestAllowed (q : RetryQueue) (now : UInt64) : UInt64 :=
  saturatingDifference now q.maxAge.saturated

/-- A file without a timestamp in its name counts as oldest of all. -/
def sweep (q : RetryQueue) (t : FileTree) (now : UInt64) : FileTree :=
  removeAll t (((q.list t).filter fun e => decide (e.1.getD 0 < q.oldestAllowed now)).map Prod.snd)

/-- The place of a file in the listing of its folder. -/
def rankOf (q : RetryQueue) (path : Path) : Nat := q.rank (path.getLast?.getD "")

/-- The file with the greatest timestamp, of several the one that is listed last. -/
def newest? (q : RetryQueue) (files : List (Option UInt64 × Path)) : Option (UInt64 × Path) :=
  files.foldl (fun best e =>
    match e.1, best with
    | none, _ => best
    | some t, none => some (t, e.2)
    | some t, some (u, path) =>
      if u < t ∨ (u = t ∧ q.rankOf path ≤ q.rankOf e.2) then some (t, e.2)
      else some (u, path)) none

def next (q : RetryQueue) (t : FileTree) (now : UInt64) : Option Payload × FileTree :=
  let t := q.sweep t now
  match q.newest? (q.list t) with
  | none => (none, t)
  | some (timestamp, path) =>
    match t.read? path with
    | none => (none, t)
    | some content =>
      match RetryFile.parse timestamp content with
      | .ok p => (some p, t)
      | .error _ => (none, t.removeFile path)

/-! ## Calls -/

inductive Call where
  | add (p : Payload)
  | next (now : UInt64)
  | remove (timestamp : UInt64)
  | sweep (now : UInt64)
  | clear
  | size
  deriving DecidableEq, Repr

inductive Answer where
  | done
  | failed (e : StorageError)
  | newest (p : Option Payload)
  | count (n : Nat)
  deriving DecidableEq, Repr

def call (q : RetryQueue) (t : FileTree) : Call → Answer × FileTree
  | .add p =>
    match q.add t p with
    | .ok u => (.done, u)
    | .error e => (.failed e, t)
  | .next now => (.newest (q.next t now).1, (q.next t now).2)
  | .remove timestamp => (.done, q.remove t timestamp)
  | .sweep now => (.done, q.sweep t now)
  | .clear => (.done, q.clear t)
  | .size => (.count (q.size t), t)

/-- The files after some calls. -/
def after (q : RetryQueue) (t : FileTree) (calls : List Call) : FileTree :=
  calls.foldl (fun t c => (q.call t c).2) t

/-! ## Filling and emptying -/

/-- The files after some payloads were stored. -/
def addAll (q : RetryQueue) (t : FileTree) (payloads : List Payload) : Except StorageError FileTree :=
  payloads.foldlM q.add t

/-- Takes out what comes next, at one reading of the clock after the other, until nothing does.
There is no answer if the readings run out before. -/
def drain (q : RetryQueue) : FileTree → List UInt64 → Option (List Payload)
  | _, [] => none
  | t, now :: nows =>
    match q.next t now with
    | (none, _) => some []
    | (some p, u) => (q.drain (q.remove u p.timestamp) nows).map (p :: ·)

end RetryQueue
end SpanRelay
