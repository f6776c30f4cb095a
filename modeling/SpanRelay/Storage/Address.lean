import SpanRelay.Storage.FileTree

/-!
Addresses: texts that lead to a place in a tree of files. The names between the slashes are followed
one by one through folders that are there, and two points lead back to the folder above. A slash at
the end asks for a folder.
-/
namespace SpanRelay

/-- What stands behind the last name. -/
inductive AddressEnd where
  | nothing
  | slash
  /-- A slash and a single point. -/
  | point
  deriving DecidableEq, Repr

structure Address where
  /-- What is written before, between and behind the slashes. -/
  parts : List String
  deriving DecidableEq, Repr

namespace Address

def ofPath (path : Path) : Address := ⟨path⟩

def ofText (s : String) : Address := ⟨s.splitOn "/"⟩

/-- Leads nowhere else: nothing between two slashes, or a single point. -/
def isIdle (part : String) : Bool := part == "" || part == "."

/-- A slash stands in front. -/
def leavesRoot (a : Address) : Bool :=
  match a.parts with
  | "" :: _ :: _ => true
  | _ => false

/-- The names to follow from the root. -/
def names (a : Address) : List String :=
  let names := a.parts.filter fun part => !isIdle part
  if a.leavesRoot then ".." :: names else names

def ending (a : Address) : AddressEnd :=
  let idle := a.parts.reverse.takeWhile isIdle
  if idle.contains "." then .point else if idle.isEmpty then .nothing else .slash

/-- What is written in front of the last name. -/
def front (a : Address) : List String := ((a.parts.reverse.dropWhile isIdle).drop 1).reverse

/-- The address of the folder that the last name is looked up in. -/
def parent (a : Address) : Address := ⟨(a.front.reverse.dropWhile isIdle).reverse⟩

def longestName : Nat := 255

/-- What a system takes, less some room for the place of the root itself. -/
def longestText : Nat := 4096 - 32

/-- Bytes of the text, idle parts and all. -/
def size (a : Address) : Nat :=
  a.parts.foldl (fun size part => size + 1 + part.utf8ByteSize) 0

/-- Whether an address can be followed at all. -/
def isUsable (a : Address) : Bool :=
  a.parts.all (fun part => !part.contains '\x00') && decide (a.size ≤ longestText)

/-- The part of a name before its last point; a point in front begins no extension. -/
def stem (name : List Char) : List Char :=
  match (name.reverse.dropWhile (· ≠ '.')).drop 1 with
  | [] => name
  | front => front.reverse

/-- The address with another extension. Taking the extension from two points and a name leaves the
two points, which are no name of a file any more. -/
def withExtension (a : Address) (extension : List Char) : Address :=
  match a.names.getLast? with
  | none | some ".." => a
  | some name =>
    let kept := stem name.toList
    let renamed := if a.ending = .nothing ∧ kept = ['.'] then ['.', '.']
      else kept ++ '.' :: extension
    ⟨a.front ++ [String.ofList renamed]⟩

end Address

namespace FileTree

/-- The place that a name leads to from a folder. -/
def step (here : Path) (name : String) : Except FileFault Path :=
  if name = ".." then .ok here.above
  else if Address.longestName < name.utf8ByteSize then .error .nameTooLong
  else .ok (here ++ [name])

def follow (t : FileTree) (here : Path) : List String → Except FileFault Path
  | [] => .ok here
  | name :: rest =>
    match t.node? here with
    | none => .error .missing
    | some (.file _) => .error .notFolder
    | some .folder => (step here name).bind fun next => t.follow next rest

/-- The place of an address, where there need not be anything. -/
def locate (t : FileTree) (a : Address) : Except FileFault Path :=
  if a.isUsable then t.follow [] a.names else .error .unusable

/-- Follows names and makes the folders that are missing, as far as it gets. -/
def makeWay (here : Path) : List String → FileTree → Except FileFault Path × FileTree
  | [], t => (.ok here, t)
  | name :: rest, t =>
    match (step here name).bind fun next => (t.makeFolder next).map (next, ·) with
    | .error fault => (.error fault, t)
    | .ok (next, t) => makeWay next rest t

def isFolderAt (t : FileTree) (a : Address) : Bool :=
  match t.locate a with
  | .ok path => t.node? path == some .folder
  | .error _ => false

/-- Makes a folder and those on the way to it; answers whether it is there now. A folder is not made
under the name of a single point. -/
def makeFoldersAt (t : FileTree) (a : Address) : Bool × FileTree :=
  if a.isUsable then
    let names := if a.ending = .point then a.names.dropLast else a.names
    let t := (makeWay [] names t).2
    (t.isFolderAt a, t)
  else (false, t)

def readAt? (t : FileTree) (a : Address) : Option Bytes :=
  match t.locate a with
  | .ok path => if a.ending = .nothing then t.read? path else none
  | .error _ => none

def writeAt (t : FileTree) (a : Address) (content : Bytes) : Except FileFault FileTree :=
  if a.ending = .nothing then (t.locate a).bind fun path => t.write path content
  else .error .notFile

/-- Moves a file to another address, over a file that may be there. -/
def renameAt (t : FileTree) (source target : Address) : Except FileFault FileTree :=
  if target.ending = .nothing then
    (t.locate source).bind fun origin => (t.locate target).bind (t.rename origin)
  else .error .notFolder

/-- What a folder holds, by name; nothing if it is not there. -/
def entriesAt (t : FileTree) (a : Address) : List (String × FileNode) :=
  match t.locate a with
  | .ok path => t.entries path
  | .error _ => []

/-- Writes a file as far as that can be done, with the folders on the way to it made first. -/
def store (t : FileTree) (a : Address) (content : Bytes) : FileTree :=
  let (ready, t) := t.makeFoldersAt a.parent
  if ready then (t.writeAt a content).toOption.getD t else t

/-- The tree of some files; one whose place is taken by another kind of node is left out. -/
def ofFiles (files : List (Address × Bytes)) : FileTree :=
  files.foldl (fun t f => t.store f.1 f.2) empty

end FileTree
end SpanRelay
