import Chip8.Storage.Path
import Chip8.Text.Quoted

/-!
# Stored files

Files and directories by the places that paths lead to. The directories above the working directory
exist. A path is followed name by name, so that `..` leads back only out of a directory; when a file is
put somewhere, the directories on its way are made.
-/

namespace Chip8

namespace Storage

inductive Node where
  | file (bytes : List UInt8)
  | directory
  deriving DecidableEq

inductive Problem where
  | missing
  | notDirectory
  | isDirectory
  | nameTooLong
  | nullCharacter
  deriving DecidableEq, Repr

def Problem.numbered (number : Nat) (text : String) (path : Path) : String :=
  s!"[Errno {number}] {text}: " ++ Text.quoted path.toString

def Problem.message (path : Path) : Problem → String
  | .missing => numbered 2 "No such file or directory" path
  | .notDirectory => numbered 20 "Not a directory" path
  | .isDirectory => numbered 21 "Is a directory" path
  | .nameTooLong => numbered 36 "File name too long" path
  | .nullCharacter => "embedded null byte"

def maxNameSize : Nat := 255

def maxPathSize : Nat := 4095

inductive Base where
  /-- The directory that many levels above the working directory. -/
  | above (levels : Nat)
  | root
  deriving DecidableEq, Repr

structure Place where
  base : Base
  names : List (List Char)
  deriving DecidableEq, Repr

namespace Place

/-- Where a path starts; two slashes at the start lead to the same place as one. -/
def start : Root → Place
  | .working => ⟨.above 0, []⟩
  | .slash | .twoSlashes => ⟨.root, []⟩

/-- The directory that holds a place; above the root there is the root itself. -/
def parent : Place → Place
  | ⟨.above levels, []⟩ => ⟨.above (levels + 1), []⟩
  | ⟨base, names⟩ => ⟨base, names.dropLast⟩

def enter (p : Place) (name : List Char) : Place :=
  if name = ['.', '.'] then p.parent else { p with names := p.names ++ [name] }

end Place

end Storage

/-- The files and directories by their places, the latest first. -/
structure Storage where
  entries : List (Storage.Place × Storage.Node)

namespace Storage

def empty : Storage :=
  ⟨[]⟩

def put (s : Storage) (place : Place) (node : Node) : Storage :=
  ⟨(place, node) :: s.entries⟩

/-- Puts a node where the names lead to, with a directory at each place on the way. -/
def putAlong (s : Storage) (place : Place) (node : Node) : List (List Char) → Storage
  | [] => s.put place node
  | name :: rest => (s.put place .directory).putAlong (place.enter name) node rest

def putAt (s : Storage) (path : Path) (node : Node) : Storage :=
  s.putAlong (.start path.root) node path.names

/-- Puts the entries one after another; of two at the same place the later one stays. -/
def ofEntries (entries : List (String × Node)) : Storage :=
  entries.foldl (fun s (text, node) => s.putAt (.ofString text) node) empty

/-- The node at a place; where the names are counted from there is always a directory. -/
def nodeAt? (s : Storage) (place : Place) : Option Node :=
  match s.entries.find? fun entry => entry.1 = place with
  | some entry => some entry.2
  | none => if place.names.isEmpty then some .directory else none

theorem nodeAt?_put (s : Storage) (p q : Place) (node : Node) :
    (s.put p node).nodeAt? q = if p = q then some node else s.nodeAt? q := by
  by_cases same : p = q <;> simp [put, nodeAt?, same]

def follow (s : Storage) (place : Place) : List (List Char) → Except Problem Node
  | [] =>
      match s.nodeAt? place with
      | some node => .ok node
      | none => .error .missing
  | name :: rest =>
      match s.nodeAt? place with
      | none => .error .missing
      | some (.file _) => .error .notDirectory
      | some .directory =>
          if maxNameSize < Path.byteSize name then .error .nameTooLong
          else s.follow (place.enter name) rest

def lookUp (s : Storage) (path : Path) : Except Problem Node :=
  if path.toChars.contains '\x00' then .error .nullCharacter
  else if maxPathSize < Path.byteSize path.toChars then .error .nameTooLong
  else s.follow (.start path.root) path.names

def read (s : Storage) (path : Path) : Except Problem (List UInt8) := do
  match ← s.lookUp path with
  | .file bytes => return bytes
  | .directory => throw .isDirectory

end Storage

end Chip8
