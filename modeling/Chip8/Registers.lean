import Chip8.Nibble

/-!
# Registers

The sixteen byte registers V0 to VF, the last of which receives the flags.
-/

namespace Chip8

abbrev Register := Nibble

structure Registers where
  cells : Vector UInt8 16
  deriving DecidableEq

namespace Registers

def zero : Registers :=
  ⟨.replicate 16 0⟩

def flag : Register := .ofNat 15

def get (v : Registers) (r : Register) : UInt8 :=
  v.cells[r]

def set (v : Registers) (r : Register) (b : UInt8) : Registers :=
  ⟨v.cells.set r b⟩

def upTo (v : Registers) (last : Register) : List UInt8 :=
  v.cells.toList.take (last + 1)

/-- Replaces V0 to `last` by the values of `source`. -/
def restore (v : Registers) (last : Register) (source : Nat → UInt8) : Registers :=
  ⟨.ofFn fun r => if r ≤ last then source r else v.get r⟩

theorem get_set (v : Registers) (r t : Register) (b : UInt8) :
    (v.set r b).get t = if r = t then b else v.get t := by
  simp [get, set, Vector.getElem_set, Fin.ext_iff]

theorem get_restore (v : Registers) (last t : Register) (source : Nat → UInt8) :
    (v.restore last source).get t = if t ≤ last then source t else v.get t := by
  simp [get, restore]

end Registers

end Chip8
