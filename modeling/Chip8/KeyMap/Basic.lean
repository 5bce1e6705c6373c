import Chip8.Nibble

/-!
# Key maps

A key map gives the host key that stands for a key of the machine: by a table of sixteen host keys,
or, if it is raw, the key itself.
-/

namespace Chip8

structure KeyMap where
  table : Vector Int 16
  raw : Bool := false
  deriving DecidableEq

namespace KeyMap

/-- The digits 0 to 9, then the letters q w e r t y, by their ASCII codes. -/
def defaultTable : Vector Int 16 :=
  #v[48, 49, 50, 51, 52, 53, 54, 55, 56, 57, 113, 119, 101, 114, 116, 121]

def default : KeyMap :=
  { table := defaultTable }

inductive SizeError where
  | wrongSize (size : Nat)
  deriving DecidableEq, Repr

def SizeError.message : SizeError → String
  | .wrongSize _ => "a keyboard layout needs exactly 16 entries"

def ofEntries (entries : Array Int) (raw : Bool) : Except SizeError KeyMap :=
  if h : entries.size = 16 then .ok { table := ⟨entries, h⟩, raw } else .error (.wrongSize entries.size)

/-- The host key for key `key` of the machine; a table is read at the low four bits of the key. -/
def hostKey (map : KeyMap) (key : Int) : Int :=
  if map.raw then key else map.table[Nibble.ofNat (key % 16).toNat]

end KeyMap

end Chip8
