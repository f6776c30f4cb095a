import SpanRelay.Json.Number
import SpanRelay.Json.Printer
import SpanRelay.Storage.Address

/-!
The file that remembers the sampling probability between runs. It is replaced as a whole: the new
content goes to a file beside it, which then takes its name.
-/
namespace SpanRelay

structure StateValues where
  probability : Binary64
  /-- Last millisecond since 1970 at which the probability holds. -/
  expiry : Int64
  deriving DecidableEq, Repr

namespace StateValues

def initial : StateValues := ⟨.one, 0⟩

def toJson (v : StateValues) : Json :=
  .record [("pValue", .ofDouble v.probability), ("pValueExpiry", .ofInt v.expiry.toInt)]

def ofBytes? (content : Bytes) : Option StateValues :=
  match (Json.parse? content).bind (Json.record? ["pValue", "pValueExpiry"]) with
  | some [p, e] =>
    match p.asDouble?, e.asInteger? with
    | some probability, some expiry => some ⟨probability, Int64.ofInt expiry⟩
    | _, _ => none
  | _ => none

end StateValues

structure StateFile where
  address : Address
  values : StateValues
  deriving DecidableEq, Repr

namespace StateFile

/-- The file that takes the new content first. -/
def beside (address : Address) : Address := address.withExtension "json.tmp".toList

/-- Values of the file, or the initial ones if it does not have them. -/
def load (t : FileTree) (address : Address) : StateFile :=
  ⟨address, ((t.readAt? address).bind StateValues.ofBytes?).getD .initial⟩

def save (t : FileTree) (address : Address) (v : StateValues) : FileTree :=
  let (ready, t) := t.makeFoldersAt address.parent
  if ready then
    match t.writeAt (beside address) v.toJson.render with
    | .error _ => t
    | .ok written => (written.renameAt (beside address) address).toOption.getD written
  else t

/-- The new values hold from now on, also if they cannot be written. -/
def update (f : StateFile) (t : FileTree) (v : StateValues) : StateFile × FileTree :=
  (⟨f.address, v⟩, save t f.address v)

end StateFile
end SpanRelay
