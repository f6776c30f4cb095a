import SpanRelay.Storage.FileTree

/-! What can go wrong with stored files. -/
namespace SpanRelay

/-- Why the bytes of a stored payload are not one. -/
inductive Corruption where
  | cutShort
  | notText
  | noSeparator
  deriving DecidableEq, Repr

def Corruption.message : Corruption → String
  | cutShort => "unexpected end of file in headers"
  | notText => "header line is not utf-8"
  | noSeparator => "header line has no separator"

inductive StorageError where
  | io (path reason : String)
  | corrupt (path reason : String)
  | contended (path : String) (attempts : Nat)
  deriving DecidableEq, Repr

namespace StorageError

def message : StorageError → String
  | io path reason => "i/o error on " ++ path ++ ": " ++ reason
  | corrupt path reason => "corrupt retry file " ++ path ++ ": " ++ reason
  | contended path attempts =>
    "could not lock " ++ path ++ " after " ++ String.ofList (Nat.toDigits 10 attempts) ++ " attempts"

/-- The file or folder that is concerned. -/
def path : StorageError → String
  | io path _ | corrupt path _ | contended path _ => path

def isCorruption : StorageError → Bool
  | corrupt _ _ => true
  | _ => false

def ofFault (path : Path) (fault : FileFault) : StorageError := .io path.text fault.message

end StorageError
end SpanRelay
