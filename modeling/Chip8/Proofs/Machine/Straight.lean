import Chip8.Proofs.Machine.Bounds

/-!
# Straight programs

The instructions of a straight program follow one another, neither leave their order nor wait for a key
and write nothing to memory. Main statements: `cycle_of_straight`, a straight instruction is carried out
and leaves the next word to fetch; `fetch_image` and `fetch_image_wrapped`, which words a loaded program
holds, and what is found by going past the end of memory.
-/

namespace Chip8

open Instruction (decode?)

/-- Whether the instruction transfers no control, waits for no key and writes nothing to memory. -/
def Instruction.isStraight : Instruction → Bool
  | .ret | .jump _ | .call _ | .jumpOffset _ => false
  | .skipIfEqual _ _ | .skipUnlessEqual _ _ | .skipIfSame _ _ | .skipUnlessSame _ _ => false
  | .skipIfPressed _ | .skipUnlessPressed _ => false
  | .awaitKey _ => false
  | .storeDecimal _ | .storeRegisters _ => false
  | _ => true

namespace Program

variable (p : Program)

/-- A zero byte follows the last byte of the program. -/
def byte (k : Nat) : UInt8 :=
  p.bytes[k]?.getD 0

def word (k : Nat) : Nat :=
  0x100 * (p.byte (2 * k)).toNat + (p.byte (2 * k + 1)).toNat

def wordCount : Nat :=
  (p.size + 1) / 2

def isStraight : Bool :=
  (List.range p.wordCount).all fun k => (decode? (p.word k)).any Instruction.isStraight

/-- The memory of a machine with the program loaded. -/
def image : Memory :=
  (Memory.zero.store fontAddress font).store programStart p.bytes

variable {p}

theorem decode?_word (straight : p.isStraight = true) {k : Nat} (inside : k < p.wordCount) :
    ∃ i, decode? (p.word k) = some i ∧ i.isStraight = true := by
  have every := List.all_eq_true.1 straight k (List.mem_range.2 inside)
  simpa [Option.any_eq_true] using every

/-! ## The image of a program -/

theorem read_font (address : Int) :
    (Memory.zero.store fontAddress font).read address =
      font[Memory.offset fontAddress address]?.getD 0 := by
  rw [Memory.read_store _ _ _ _ (by decide)]
  simp [Memory.read, Memory.zero]

theorem read_image (address : Int) :
    p.image.read address =
      p.bytes[Memory.offset programStart address]?.getD
        (font[Memory.offset fontAddress address]?.getD 0) := by
  have size := p.size_le
  rw [image, Memory.read_store _ _ _ _ (by simp only [maxProgramSize] at size; omega), read_font]

theorem read_image_program {k : Nat} (inside : k < maxProgramSize) :
    p.image.read (programStart + k) = p.byte k := by
  have size := p.size_le
  simp only [maxProgramSize] at inside size
  have here : Memory.offset programStart (programStart + k) = k := by
    simp only [Memory.offset, programStart]
    omega
  have beyond : font.length ≤ Memory.offset fontAddress (programStart + k) := by
    simp only [length_font, glyphSize, Memory.offset, programStart, fontAddress]
    omega
  rw [read_image, here, List.getElem?_eq_none beyond]
  rfl

theorem read_image_font {address : Nat} (below : address < programStart) :
    p.image.read address = font[address]?.getD 0 := by
  have size := p.size_le
  simp only [maxProgramSize, programStart] at below size
  have beyond : p.bytes.length ≤ Memory.offset programStart address := by
    simp only [Memory.offset, programStart]
    omega
  have here : Memory.offset fontAddress address = address := by
    simp only [Memory.offset, fontAddress]
    omega
  rw [read_image, here, List.getElem?_eq_none beyond]
  rfl

end Program

namespace Machine

variable {m : Machine} {p : Program}

theorem fetch_image (loaded : m.memory = p.image) {k : Nat} (inside : k < p.wordCount)
    (here : m.pc = programStart + 2 * k) : m.fetch = p.word k := by
  have size := p.size_le
  simp only [maxProgramSize] at size
  simp only [Program.wordCount, Program.size] at inside
  have high : m.pc = programStart + (2 * k : Nat) := by omega
  have low : m.pc + 1 = programStart + (2 * k + 1 : Nat) := by omega
  have both : 2 * k < maxProgramSize ∧ 2 * k + 1 < maxProgramSize := by
    simp only [maxProgramSize]
    omega
  rw [fetch, Program.word, loaded, low, high, Program.read_image_program both.1,
    Program.read_image_program both.2]

theorem fetch_image_wrapped (loaded : m.memory = p.image) (wrapped : m.pc = 0) :
    m.fetch = 0xF090 := by
  have high : m.pc = (0 : Nat) := wrapped
  have low : m.pc + 1 = (1 : Nat) := by rw [wrapped]; rfl
  rw [fetch, loaded, low, high, Program.read_image_font (by decide), Program.read_image_font (by decide)]
  rfl

/-! ## Straight instructions -/

theorem execute_of_straight (bounded : m.Bounded) {i : Instruction} (straight : i.isStraight = true) :
    ∃ done, m.execute i = .ok done ∧ done.pc = m.pc ∧ done.memory = m.memory := by
  cases i with
  | ret | jump _ | call _ | jumpOffset _ | skipIfEqual _ _ | skipUnlessEqual _ _ | skipIfSame _ _
  | skipUnlessSame _ _ | skipIfPressed _ | skipUnlessPressed _ | awaitKey _ | storeDecimal _
  | storeRegisters _ => cases straight
  | readDelay x =>
      have fits : 0 ≤ m.timers.delay ∧ m.timers.delay < 256 := bounded.delay
      exact ⟨_, if_pos fits, rfl, rfl⟩
  | _ => exact ⟨_, rfl, rfl, rfl⟩

theorem cycle_of_straight (bounded : m.Bounded) {i : Instruction} (decoded : decode? m.fetch = some i)
    (straight : i.isStraight = true) :
    m.cycle.failure = none ∧ m.missesKey = false ∧ m.cycle.machine.pc = wrap (m.pc + 2) ∧
      m.cycle.machine.memory = m.memory := by
  obtain ⟨done, executed, pc, memory⟩ := execute_of_straight bounded.advance straight
  have cycled : m.cycle = ⟨done, none⟩ := by simp only [cycle, decoded, executed]
  have other : ∀ x, decode? m.fetch ≠ some (.awaitKey x) := by
    intro x waits
    obtain rfl := Option.some.inj (decoded.symm.trans waits)
    cases straight
  rw [cycled]
  exact ⟨rfl, missesKey_of_other other, pc, memory⟩

theorem cycle_of_font (unsupported : m.fetch = 0xF090) (wrapped : m.pc = 0) :
    m.cycle.failure = some (.fault ⟨.unsupported 0xF090, 0⟩) := by
  have undecoded : decode? 0xF090 = none := by decide
  simp only [cycle, unsupported, undecoded, advance, wrapped]
  rfl

end Machine

end Chip8
