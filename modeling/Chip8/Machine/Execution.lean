import Chip8.Fault
import Chip8.Instruction
import Chip8.Machine.Basic

/-!
# The execution cycle

A cycle fetches a word, moves the program counter past it, decodes it and executes the instruction. A
cycle that fails leaves the machine as it was but for the program counter.
-/

namespace Chip8

namespace Operation

/-- The result of the operation on two values, and the flag it sets, if it sets one. -/
def apply (a b : UInt8) : Operation → UInt8 × Option Bool
  | .copy => (b, none)
  | .or => (a ||| b, none)
  | .and => (a &&& b, none)
  | .xor => (a ^^^ b, none)
  | .add => (a + b, some (0xFF < a.toNat + b.toNat))
  | .subtract => (a - b, some (b ≤ a))
  | .shiftRight => (a >>> 1, some (a.toNat.testBit 0))
  | .subtractFrom => (b - a, some (a ≤ b))
  | .shiftLeft => (a <<< 1, some (a.toNat.testBit 7))

end Operation

namespace Registers

def setFlag (v : Registers) (b : Bool) : Registers :=
  v.set flag (if b then 1 else 0)

def combine (v : Registers) (operation : Operation) (x y : Register) : Registers :=
  match operation.apply (v.get x) (v.get y) with
  | (result, none) => v.set x result
  | (result, some flag) => (v.set x result).setFlag flag

end Registers

namespace Machine

inductive Refusal where
  | stackOverflow
  | stackUnderflow
  | defect (defect : Defect)
  deriving DecidableEq, Repr

def skipWhen (condition : Bool) (m : Machine) : Machine :=
  if condition then m.advance else m

def setRegister (m : Machine) (x : Register) (b : UInt8) : Machine :=
  { m with registers := m.registers.set x b }

def wantedKey (m : Machine) (x : Register) : Int :=
  m.keyMap.hostKey (m.registers.get x).toNat

def isPressed (m : Machine) (x : Register) : Bool :=
  m.keypad.isPressed (some (m.wantedKey x))

def call (m : Machine) (target : Int) : Except Refusal Machine :=
  if stackDepth ≤ m.stack.length then .error .stackOverflow
  else .ok { m with stack := m.pc :: m.stack, pc := target }

def ret (m : Machine) : Except Refusal Machine :=
  match m.stack with
  | [] => .error .stackUnderflow
  | top :: rest => .ok { m with stack := rest, pc := top }

def drawRandom (m : Machine) (x : Register) (mask : UInt8) : Machine :=
  let (b, random) := m.random.draw
  { m with random, registers := m.registers.set x (b &&& mask) }

def draw (m : Machine) (x y : Register) (height : Nat) : Machine :=
  let sprite := m.memory.block m.index height
  let (screen, hit) := m.screen.draw (m.registers.get x).toNat (m.registers.get y).toNat sprite
  { m with screen, registers := m.registers.setFlag hit }

/-- Consumes the wanted key if it is pressed; otherwise the machine waits for it. -/
def awaitKey (m : Machine) (x : Register) : Machine :=
  let wanted := m.wantedKey x
  match m.keypad.take (some wanted) with
  | (true, keypad) => { m with keypad }
  | (false, _) => { m with awaiting := some wanted }

def readDelay (m : Machine) (x : Register) : Except Refusal Machine :=
  if 0 ≤ m.timers.delay ∧ m.timers.delay < 256 then
    .ok (m.setRegister x (.ofNat m.timers.delay.toNat))
  else .error (.defect .byteOutOfRange)

/-- Writes the three decimal digits of a byte. The address of the first does not wrap around, but a
negative one counts back from the end of memory. -/
def storeDecimal (m : Machine) (x : Register) : Except Refusal Machine :=
  let b := m.registers.get x
  match Defect.ofAddress? m.index with
  | some defect => .error (.defect defect)
  | none => .ok { m with memory := m.memory.store m.index [b / 100, b / 10 % 10, b % 10] }

def execute (m : Machine) : Instruction → Except Refusal Machine
  | .clear => .ok { m with screen := .blank }
  | .ret => m.ret
  | .jump target => .ok { m with pc := target }
  | .call target => m.call target
  | .skipIfEqual x value => .ok (m.skipWhen (m.registers.get x == value))
  | .skipUnlessEqual x value => .ok (m.skipWhen (m.registers.get x != value))
  | .skipIfSame x y => .ok (m.skipWhen (m.registers.get x == m.registers.get y))
  | .load x value => .ok (m.setRegister x value)
  | .increase x value => .ok (m.setRegister x (m.registers.get x + value))
  | .combine operation x y => .ok { m with registers := m.registers.combine operation x y }
  | .skipUnlessSame x y => .ok (m.skipWhen (m.registers.get x != m.registers.get y))
  | .setIndex address => .ok { m with index := address }
  | .jumpOffset base => .ok { m with pc := wrap (base + (m.registers.get (.ofNat 0)).toNat) }
  | .random x mask => .ok (m.drawRandom x mask)
  | .draw x y height => .ok (m.draw x y height)
  | .skipIfPressed x => .ok (m.skipWhen (m.isPressed x))
  | .skipUnlessPressed x => .ok (m.skipWhen (!m.isPressed x))
  | .readDelay x => m.readDelay x
  | .awaitKey x => .ok (m.awaitKey x)
  | .setDelay x => .ok { m with timers := { m.timers with delay := (m.registers.get x).toNat } }
  | .setSound x => .ok { m with timers := { m.timers with sound := (m.registers.get x).toNat } }
  | .advanceIndex x => .ok { m with index := wrap (m.index + (m.registers.get x).toNat) }
  | .selectGlyph x => .ok { m with index := glyphAddress (m.registers.get x).toNat }
  | .storeDecimal x => m.storeDecimal x
  | .storeRegisters last => .ok { m with memory := m.memory.store m.index (m.registers.upTo last) }
  | .loadRegisters last =>
      .ok { m with registers := m.registers.restore last fun r => m.memory.read (m.index + r) }

/-- The failure that a refusal amounts to, for a machine that has moved past the instruction. -/
def failureOf (moved : Machine) : Refusal → Failure
  | .stackOverflow => .fault ⟨.stackOverflow, moved.pc - 2⟩
  | .stackUnderflow => .fault ⟨.stackUnderflow, moved.pc - 2⟩
  | .defect defect => .defect defect

structure Cycle where
  machine : Machine
  failure : Option Failure := none

def cycle (m : Machine) : Cycle :=
  let word := m.fetch
  let moved := m.advance
  match Instruction.decode? word with
  | none =>
      { machine := moved
        failure := some (.fault ⟨.unsupported word, wrap (moved.pc - 2)⟩) }
  | some instruction =>
      match moved.execute instruction with
      | .ok done => { machine := done }
      | .error refusal => { machine := moved, failure := some (moved.failureOf refusal) }

/-- Runs up to `count` cycles and stops after one that fails. -/
def cycles : Nat → Machine → Cycle
  | 0, m => { machine := m }
  | count + 1, m =>
      match m.cycle with
      | { machine, failure := none } => cycles count machine
      | failed => failed

end Machine

end Chip8
