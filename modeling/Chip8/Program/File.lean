import Chip8.Program
import Chip8.Storage.Tree

/-!
# Reading programs

A program is read from a regular file whose size is that of a program.
-/

namespace Chip8.Program

inductive Refusal where
  | noFile (path : Storage.Path)
  | size (error : SizeError)
  deriving DecidableEq, Repr

def Refusal.message : Refusal → String
  | .noFile path => s!"File '{path}' doesn't exist"
  | .size error => error.message

inductive ReadError where
  | refused (refusal : Refusal)
  /-- The path cannot be looked up. -/
  | badPath (path : Storage.Path) (problem : Storage.Problem)
  deriving DecidableEq, Repr

/-- A path that leads to no regular file counts as absent, unless its name is too long to look up. -/
def read (storage : Storage) (text : String) : Except ReadError Program :=
  let path := Storage.Path.ofString text
  match storage.lookUp path with
  | .ok (.file bytes) => (ofBytes bytes).mapError fun error => .refused (.size error)
  | .error .nameTooLong => .error (.badPath path .nameTooLong)
  | _ => .error (.refused (.noFile path))

end Chip8.Program
