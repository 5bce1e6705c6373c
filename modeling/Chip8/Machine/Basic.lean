import Chip8.Countdown
import Chip8.Font
import Chip8.KeyMap.Basic
import Chip8.Keypad
import Chip8.Program
import Chip8.Random.Source
import Chip8.Registers
import Chip8.Screen

/-!
# The machine

The state of a machine and the loading of programs.
-/

namespace Chip8

structure Machine where
  keyMap : KeyMap
  keypad : Keypad := {}
  timers : Countdown Binary64 := {}
  random : Random.Source
  memory : Memory
  registers : Registers := .zero
  index : Int := 0
  pc : Int := programStart
  /-- The return addresses, the latest first. -/
  stack : List Int := []
  screen : Screen := .blank
  programEnd : Nat := programStart
  /-- The host key that the machine waits for. -/
  awaiting : Option Int := none

namespace Machine

/-- A machine with nothing but the font in memory. -/
def fresh (keyMap : KeyMap) (random : Random.Source) : Machine :=
  { keyMap, random, memory := Memory.zero.store fontAddress font }

def load (m : Machine) (p : Program) : Machine :=
  { m with memory := m.memory.store programStart p.bytes, pc := programStart, programEnd := p.finish }

def loadBytes (m : Machine) (bytes : List UInt8) : Except Program.SizeError Machine :=
  (Program.ofBytes bytes).map m.load

def finished (m : Machine) : Bool :=
  (m.programEnd : Int) ≤ m.pc

/-- The word at the program counter, high byte first. -/
def fetch (m : Machine) : Nat :=
  0x100 * (m.memory.read m.pc).toNat + (m.memory.read (m.pc + 1)).toNat

def advance (m : Machine) : Machine :=
  { m with pc := wrap (m.pc + 2) }

def press (m : Machine) (key : Option Int) : Machine :=
  { m with keypad := m.keypad.press key }

end Machine

end Chip8
