import Chip8.Text.Hex

/-!
# Faults

A fault ends the run of the machine that raised it and names the address of its instruction. A defect
is a value that does not fit its place; no program reaches one.
-/

namespace Chip8

def stackDepth : Nat := 16

namespace Fault

inductive Cause where
  | unsupported (word : Int)
  | stackOverflow
  | stackUnderflow
  deriving DecidableEq, Repr

def Cause.message : Cause → String
  | .unsupported word => "Unsupported instruction: 0x" ++ Text.Hex.upperSigned 4 word
  | .stackOverflow => s!"Call nested deeper than {stackDepth} levels"
  | .stackUnderflow => "Return with an empty call stack"

end Fault

structure Fault where
  cause : Fault.Cause
  pc : Int
  deriving DecidableEq, Repr

def Fault.message (f : Fault) : String :=
  f.cause.message

inductive Defect where
  | byteOutOfRange
  | addressOutOfRange
  /-- The address takes more than 64 bits. -/
  | addressTooWide
  deriving DecidableEq, Repr

namespace Defect

/-- What keeps `i` from being an address without wrapping around. -/
def ofAddress? (i : Int) : Option Defect :=
  if -4096 ≤ i ∧ i < 4096 then none
  else if -0x8000000000000000 ≤ i ∧ i < 0x8000000000000000 then some .addressOutOfRange
  else some .addressTooWide

def message : Defect → String
  | .byteOutOfRange => "byte must be in range(0, 256)"
  | .addressOutOfRange => "bytearray index out of range"
  | .addressTooWide => "cannot fit 'int' into an index-sized integer"

end Defect

inductive Failure where
  | fault (fault : Fault)
  | defect (defect : Defect)
  deriving DecidableEq, Repr

end Chip8
