import SpanRelay.Clock
import SpanRelay.Json.Printer
import SpanRelay.Json.Reader
import SpanRelay.Storage.Error
import SpanRelay.Text.Hex

/-!
The name of this installation, drawn once and kept in a file. Writing is guarded by a lock on the
file, which is tried a fixed number of times.
-/
namespace SpanRelay.DeviceId

def lockAttempts : Nat := 20

/-- Time between two attempts. -/
def lockDelay : Nanos := .ofMillis 25

/-- Random bits as a version 4 identifier, in groups of hexadecimal digits. -/
def versionFour (bits : BitVec 128) : String :=
  let digits := Hex.padded 32 bits.toNat
  let variant := Hex.digit (8 + (bits.toNat >>> 60) % 4)
  let group := fun (start size : Nat) => (digits.drop start).take size
  String.ofList (group 0 8 ++ '-' :: group 8 4 ++ '-' :: '4' :: group 13 3 ++
    '-' :: variant :: group 17 3 ++ '-' :: group 20 12)

def ofBytes? (content : Bytes) : Option String :=
  match (Json.parse? content).bind (Json.record? ["id"]) with
  | some [id] => id.asText?.filter fun s => !s.isEmpty
  | _ => none

def toBytes (id : String) : Bytes := (Json.record [("id", .ofText id)]).render

/-- Opens the file for writing, empty if it was not there. -/
def openFile (t : FileTree) (path : Path) : Except StorageError FileTree :=
  match t.makeFolders path.parent with
  | .error fault => .error (.ofFault path.parent fault)
  | .ok t =>
    match t.write path ((t.read? path).getD []) with
    | .error fault => .error (.ofFault path fault)
    | .ok t => .ok t

/-- The id in the file, or a new one that is written to it while the lock is held. `lockFree` tells
whether one of the attempts gets the lock. The tree is answered in any case. -/
def load (t : FileTree) (path : Path) (lockFree : Bool) (fresh : BitVec 128) :
    Except StorageError String × FileTree :=
  match (t.read? path).bind ofBytes? with
  | some id => (.ok id, t)
  | none =>
    match openFile t path with
    | .error e => (.error e, t)
    | .ok opened =>
      if !lockFree then (.error (.contended path.text lockAttempts), opened)
      else
        match (opened.read? path).bind ofBytes? with
        | some id => (.ok id, opened)
        | none =>
          match opened.write path (toBytes (versionFour fresh)) with
          | .error fault => (.error (.ofFault path fault), opened)
          | .ok written => (.ok (versionFour fresh), written)

end SpanRelay.DeviceId
