import SpanRelay.Dictionary
import SpanRelay.Text.Bytes

/-!
Files and folders under a root that always exists, as do the folders above it. Paths are relative to
the root. A file is only written where its folder is, and neither replaces the other.
-/
namespace SpanRelay

/-- Names of the folders on the way, and of the file last. Two points, which stand in front only,
name the folder above the root, and so on upwards. -/
abbrev Path := List String

namespace Path

def text (p : Path) : String := String.intercalate "/" p

/-- The folder that holds the file; the root for the root itself. -/
def parent (p : Path) : Path := p.dropLast

/-- All folders on the way to the path, the path itself last. -/
def stages : Path → List Path
  | [] => []
  | name :: rest => [name] :: (stages rest).map (name :: ·)

/-- The path behind its depth, so that paths of different depth are told apart at once. -/
def key (p : Path) : Nat × Path := (p.length, p)

theorem key_inj {p q : Path} : p.key = q.key ↔ p = q :=
  ⟨fun h => congrArg Prod.snd h, fun h => h ▸ rfl⟩

/-- Leads to the root or to a folder above it. -/
def isUpward (p : Path) : Bool := p.all (· == "..")

/-- The folder above a folder. -/
def above (p : Path) : Path := if p.isUpward then p ++ [".."] else p.dropLast

def startsWith (p folder : Path) : Bool := p.take folder.length == folder

end Path

inductive FileNode where
  | file (content : Bytes)
  | folder
  deriving DecidableEq, Repr

inductive FileFault where
  | missing
  | notFolder
  | notFile
  | nameTooLong
  | unusable
  deriving DecidableEq, Repr

def FileFault.message : FileFault → String
  | missing => "no such file or folder"
  | notFolder => "not a folder"
  | notFile => "not a file"
  | nameTooLong => "name too long"
  | unusable => "not a usable name"

structure FileTree where
  /-- The nodes by their paths, each path behind its depth. -/
  nodes : Dictionary (Nat × Path) FileNode
  deriving DecidableEq, Repr, Inhabited

namespace FileTree

def empty : FileTree := ⟨.empty⟩

def node? (t : FileTree) (path : Path) : Option FileNode :=
  if path.isUpward then some .folder else t.nodes.get? path.key

def read? (t : FileTree) (path : Path) : Option Bytes :=
  match t.node? path with
  | some (.file content) => some content
  | _ => none

def makeFolder (t : FileTree) (path : Path) : Except FileFault FileTree :=
  match t.node? path with
  | none => .ok ⟨t.nodes.insert path.key .folder⟩
  | some .folder => .ok t
  | some (.file _) => .error .notFolder

/-- Makes the folder and those on the way to it, as far as they are missing. -/
def makeFolders (t : FileTree) (path : Path) : Except FileFault FileTree :=
  path.stages.foldlM makeFolder t

/-- Writes a whole file, in place of what it held. -/
def write (t : FileTree) (path : Path) (content : Bytes) : Except FileFault FileTree :=
  match t.node? path.parent with
  | none => .error .missing
  | some (.file _) => .error .notFolder
  | some .folder =>
    match t.node? path with
    | some .folder => .error .notFile
    | _ => .ok ⟨t.nodes.insert path.key (.file content)⟩

/-- Deletes a file; anything else stays. -/
def removeFile (t : FileTree) (path : Path) : FileTree :=
  match t.node? path with
  | some (.file _) => ⟨t.nodes.erase path.key⟩
  | _ => t

/-- Deletes a folder with all that it holds; one that is not there is no fault. -/
def removeFolder (t : FileTree) (path : Path) : Except FileFault FileTree :=
  match t.node? path with
  | none => .ok t
  | some (.file _) => .error .notFolder
  | some .folder => .ok ⟨⟨t.nodes.entries.filter fun e => !e.1.2.startsWith path⟩⟩

/-- Moves a file to another place, over a file that may be there. -/
def rename (t : FileTree) (source target : Path) : Except FileFault FileTree :=
  match t.read? source with
  | none => .error .missing
  | some content => (t.write target content).map fun u => ⟨u.nodes.erase source.key⟩

/-- What a folder holds, by name. -/
def entries (t : FileTree) (folder : Path) : List (String × FileNode) :=
  t.nodes.entries.filterMap fun e =>
    match e.1.2.getLast? with
    | some name => if e.1 = (folder ++ [name]).key then some (name, e.2) else none
    | none => none

def fileNames (t : FileTree) (folder : Path) : List String :=
  (t.entries folder).filterMap fun e =>
    match e.2 with
    | .file _ => some e.1
    | .folder => none

end FileTree
end SpanRelay
