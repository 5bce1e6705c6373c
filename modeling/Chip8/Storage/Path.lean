/-!
# Paths

A path is a root and a list of names. Empty names and the name `.` are dropped; `..` is kept, since
the directory before it has to exist. Two slashes at the start, and no more, make a root of their own.
-/

namespace Chip8.Storage

inductive Root where
  | working
  | slash
  | twoSlashes
  deriving DecidableEq, Repr

structure Path where
  root : Root
  names : List (List Char)
  deriving DecidableEq, Repr

namespace Path

def rootOf : List Char → Root
  | '/' :: '/' :: '/' :: _ => .slash
  | '/' :: '/' :: _ => .twoSlashes
  | '/' :: _ => .slash
  | _ => .working

/-- The names between slashes, the first of which starts with the reversed `name`. -/
def splitFrom (name : List Char) : List Char → List (List Char)
  | [] => [name.reverse]
  | c :: rest => if c = '/' then name.reverse :: splitFrom [] rest else splitFrom (c :: name) rest

def ofChars (text : List Char) : Path :=
  { root := rootOf text
    names := (splitFrom [] text).filter fun name => name != [] && name != ['.'] }

def ofString (text : String) : Path :=
  ofChars text.toList

def rootChars : Root → List Char
  | .working => []
  | .slash => ['/']
  | .twoSlashes => ['/', '/']

def toChars (p : Path) : List Char :=
  match rootChars p.root ++ ['/'].intercalate p.names with
  | [] => ['.']
  | text => text

def toString (p : Path) : String :=
  String.ofList p.toChars

instance : ToString Path := ⟨toString⟩

def byteSize (text : List Char) : Nat :=
  text.foldl (fun size c => size + c.utf8Size) 0

end Path

end Chip8.Storage
