import Chip8.Memory
import Chip8.Registers

/-!
# Instructions

An instruction is a word of 16 bits. `encode` gives the word of each instruction and `decode?` the
instruction of a word, if it has one.
-/

namespace Chip8

inductive Operation where
  | copy
  | or
  | and
  | xor
  | add
  | subtract
  | shiftRight
  | subtractFrom
  | shiftLeft
  deriving DecidableEq, Repr

namespace Operation

def code : Operation → Nat
  | .copy => 0x0
  | .or => 0x1
  | .and => 0x2
  | .xor => 0x3
  | .add => 0x4
  | .subtract => 0x5
  | .shiftRight => 0x6
  | .subtractFrom => 0x7
  | .shiftLeft => 0xE

def ofCode? : Nat → Option Operation
  | 0x0 => some .copy
  | 0x1 => some .or
  | 0x2 => some .and
  | 0x3 => some .xor
  | 0x4 => some .add
  | 0x5 => some .subtract
  | 0x6 => some .shiftRight
  | 0x7 => some .subtractFrom
  | 0xE => some .shiftLeft
  | _ => none

theorem ofCode?_code (o : Operation) : ofCode? o.code = some o := by
  cases o <;> rfl

end Operation

inductive Instruction where
  | clear
  | ret
  | jump (target : Address)
  | call (target : Address)
  | skipIfEqual (x : Register) (value : UInt8)
  | skipUnlessEqual (x : Register) (value : UInt8)
  | skipIfSame (x y : Register)
  | load (x : Register) (value : UInt8)
  | increase (x : Register) (value : UInt8)
  | combine (operation : Operation) (x y : Register)
  | skipUnlessSame (x y : Register)
  | setIndex (address : Address)
  | jumpOffset (base : Address)
  | random (x : Register) (mask : UInt8)
  | draw (x y : Register) (height : Nibble)
  | skipIfPressed (x : Register)
  | skipUnlessPressed (x : Register)
  | readDelay (x : Register)
  | awaitKey (x : Register)
  | setDelay (x : Register)
  | setSound (x : Register)
  | advanceIndex (x : Register)
  | selectGlyph (x : Register)
  | storeDecimal (x : Register)
  | storeRegisters (last : Register)
  | loadRegisters (last : Register)
  deriving DecidableEq, Repr

namespace Instruction

/-- The word made of a group digit, two registers and a last digit. -/
def wordOf (group : Nat) (x y : Register) (n : Nat) : Nat :=
  0x1000 * group + 0x100 * x + 0x10 * y + n

def encode : Instruction → Nat
  | .clear => 0x00E0
  | .ret => 0x00EE
  | .jump target => 0x1000 + target
  | .call target => 0x2000 + target
  | .skipIfEqual x value => 0x3000 + 0x100 * x + value.toNat
  | .skipUnlessEqual x value => 0x4000 + 0x100 * x + value.toNat
  | .skipIfSame x y => wordOf 0x5 x y 0x0
  | .load x value => 0x6000 + 0x100 * x + value.toNat
  | .increase x value => 0x7000 + 0x100 * x + value.toNat
  | .combine operation x y => wordOf 0x8 x y operation.code
  | .skipUnlessSame x y => wordOf 0x9 x y 0x0
  | .setIndex address => 0xA000 + address
  | .jumpOffset base => 0xB000 + base
  | .random x mask => 0xC000 + 0x100 * x + mask.toNat
  | .draw x y height => wordOf 0xD x y height
  | .skipIfPressed x => 0xE09E + 0x100 * x
  | .skipUnlessPressed x => 0xE0A1 + 0x100 * x
  | .readDelay x => 0xF007 + 0x100 * x
  | .awaitKey x => 0xF00A + 0x100 * x
  | .setDelay x => 0xF015 + 0x100 * x
  | .setSound x => 0xF018 + 0x100 * x
  | .advanceIndex x => 0xF01E + 0x100 * x
  | .selectGlyph x => 0xF029 + 0x100 * x
  | .storeDecimal x => 0xF033 + 0x100 * x
  | .storeRegisters last => 0xF055 + 0x100 * last
  | .loadRegisters last => 0xF065 + 0x100 * last

/-- The instructions of group F, by their last byte. -/
def ofMiscellany? (x : Register) : Nat → Option Instruction
  | 0x07 => some (.readDelay x)
  | 0x0A => some (.awaitKey x)
  | 0x15 => some (.setDelay x)
  | 0x18 => some (.setSound x)
  | 0x1E => some (.advanceIndex x)
  | 0x29 => some (.selectGlyph x)
  | 0x33 => some (.storeDecimal x)
  | 0x55 => some (.storeRegisters x)
  | 0x65 => some (.loadRegisters x)
  | _ => none

def decode? (word : Nat) : Option Instruction :=
  let x : Register := .ofNat (word / 0x100)
  let y : Register := .ofNat (word / 0x10)
  let last : Nat := word % 0x10
  let value : UInt8 := .ofNat word
  let address : Address := .ofInt word
  match word / 0x1000 with
  | 0x0 => if word = 0x00E0 then some .clear else if word = 0x00EE then some .ret else none
  | 0x1 => some (.jump address)
  | 0x2 => some (.call address)
  | 0x3 => some (.skipIfEqual x value)
  | 0x4 => some (.skipUnlessEqual x value)
  | 0x5 => if last = 0 then some (.skipIfSame x y) else none
  | 0x6 => some (.load x value)
  | 0x7 => some (.increase x value)
  | 0x8 => (Operation.ofCode? last).map fun operation => .combine operation x y
  | 0x9 => if last = 0 then some (.skipUnlessSame x y) else none
  | 0xA => some (.setIndex address)
  | 0xB => some (.jumpOffset address)
  | 0xC => some (.random x value)
  | 0xD => some (.draw x y (.ofNat word))
  | 0xE =>
      if word % 0x100 = 0x9E then some (.skipIfPressed x)
      else if word % 0x100 = 0xA1 then some (.skipUnlessPressed x)
      else none
  | 0xF => ofMiscellany? x (word % 0x100)
  | _ => none

end Instruction

end Chip8
