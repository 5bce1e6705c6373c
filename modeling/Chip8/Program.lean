/-!
# Programs

A program is a byte string that fits between the load address and the end of memory.
-/

namespace Chip8

def programStart : Nat := 0x200

def maxProgramSize : Nat := 3584

structure Program where
  bytes : List UInt8
  size_pos : 0 < bytes.length
  size_le : bytes.length ≤ maxProgramSize

namespace Program

structure SizeError where
  size : Nat
  deriving DecidableEq, Repr

def SizeError.message (e : SizeError) : String :=
  s!"Size of program: {e.size} bytes, acceptable size 1-{maxProgramSize} bytes"

def ofBytes (bytes : List UInt8) : Except SizeError Program :=
  if h : 0 < bytes.length ∧ bytes.length ≤ maxProgramSize then .ok ⟨bytes, h.1, h.2⟩
  else .error ⟨bytes.length⟩

def size (p : Program) : Nat :=
  p.bytes.length

def finish (p : Program) : Nat :=
  programStart + p.size

end Program

end Chip8
