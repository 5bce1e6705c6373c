import Chip8.Instruction.Encoding
import Chip8.Proofs.Machine.Cycle

/-!
# The effect of a cycle

Main statements: `within_footprint`, a cycle that works changes nothing outside the footprint of its
instruction and the program counter; `led_by_instruction`, where it takes the program counter, and that
of two skips on contrary conditions exactly one skips.
-/

namespace Chip8

open Instruction (decode? decode?_eq_some_iff)

theorem Instruction.encode_inj {i j : Instruction} (same : i.encode = j.encode) : i = j :=
  Option.some.inj ((decode?_encode i).symm.trans (same ▸ decode?_encode j))

namespace Machine

theorem encoded_of_works {m : Machine} (works : m.cycle.failure = none) :
    ∃ i : Instruction, m.fetch = i.encode ∧ m.advance.execute i = .ok m.cycle.machine := by
  obtain ⟨i, decoded, executed⟩ := executed_of_works works
  exact ⟨i, (decode?_eq_some_iff.1 decoded).symm, executed⟩

theorem cycle_of_encoded {m done : Machine} {i : Instruction} (fetched : m.fetch = i.encode)
    (executed : m.advance.execute i = .ok done) : m.cycle = ⟨done, none⟩ := by
  have decoded : decode? m.fetch = some i := decode?_eq_some_iff.2 fetched.symm
  simp only [cycle, decoded, executed]

/-- A cycle that works leaves everything but the program counter alone that lies outside the footprint
of its instruction. -/
theorem within_footprint {m : Machine} (works : m.cycle.failure = none) :
    ∃ i : Instruction, m.fetch = i.encode ∧ (m.footprint i).Agree m m.cycle.machine := by
  obtain ⟨i, fetched, executed⟩ := encoded_of_works works
  exact ⟨i, fetched, { agree_execute executed with }⟩

/-- V0 to V2 are stored around the end of the memory, onto the first digit of the font. -/
theorem footprint_around_the_end :
    let m : Machine := { fresh .default .silent with
      memory := Memory.zero.store 0 [0xF0, 0x90, 0xF2, 0x55], pc := 2, index := 0xFFE }
    m.cycle.failure = none ∧ m.cycle.machine.memory.read 1 = m.memory.read 1 ∧
      m.cycle.machine.registers.get 2 = m.registers.get 2 := by
  intro m
  have works : m.cycle.failure = none := by decide +kernel
  have fetched : m.fetch = Instruction.encode (.storeRegisters 2) := by decide +kernel
  obtain ⟨i, found, agree⟩ := within_footprint works
  obtain rfl := Instruction.encode_inj (found.symm.trans fetched)
  refine ⟨works, agree.memory 1 ?_, agree.registers 2 rfl⟩
  intro j stored
  have few : j < 3 := stored
  show wrap (0xFFE + j) ≠ wrap 1
  unfold wrap
  omega

/-! ## The program counter -/

/-- Whether the instruction skips the one behind it. -/
def skips (m : Machine) : Instruction → Bool
  | .skipIfEqual x value => m.registers.get x == value
  | .skipUnlessEqual x value => m.registers.get x != value
  | .skipIfSame x y => m.registers.get x == m.registers.get y
  | .skipUnlessSame x y => m.registers.get x != m.registers.get y
  | .skipIfPressed x => decide (m.keypad.current = some (m.wantedKey x))
  | .skipUnlessPressed x => !decide (m.keypad.current = some (m.wantedKey x))
  | _ => false

/-- Whether the instruction, fetched by the first machine, leads to the program counter of the second.
A return pops it from the stack. -/
def Leads (m done : Machine) : Instruction → Prop
  | .jump target | .call target => done.pc = target
  | .jumpOffset base => done.pc = wrap (base + (m.registers.get (.ofNat 0)).toNat)
  | .ret => m.stack = done.pc :: done.stack
  | i => done.pc = if m.skips i then wrap (m.pc + 4) else wrap (m.pc + 2)

theorem wrap_wrap_add_two (pc : Int) : wrap (wrap (pc + 2) + 2) = wrap (pc + 4) := by
  unfold wrap
  omega

theorem skipWhen_advance (m : Machine) (condition : Bool) :
    m.advance.skipWhen condition =
      { m with pc := if condition then wrap (m.pc + 4) else wrap (m.pc + 2) } := by
  rw [skipWhen_eq, ← wrap_wrap_add_two]
  rfl

theorem pc_skipWhen (m : Machine) (condition : Bool) :
    (m.advance.skipWhen condition).pc = if condition then wrap (m.pc + 4) else wrap (m.pc + 2) := by
  rw [skipWhen_advance]

theorem leads_execute {m done : Machine} {i : Instruction} (executed : m.advance.execute i = .ok done) :
    m.Leads done i := by
  cases i with
  | ret =>
      obtain ⟨top, rest, stack, rfl⟩ := ret_eq_ok executed
      exact stack
  | call target =>
      obtain ⟨-, rfl⟩ := call_eq_ok executed
      rfl
  | readDelay x =>
      obtain rfl := readDelay_eq_ok executed
      rfl
  | storeDecimal x =>
      obtain rfl := storeDecimal_eq_ok executed
      rfl
  | skipIfEqual _ _ | skipUnlessEqual _ _ | skipIfSame _ _ | skipUnlessSame _ _
  | skipIfPressed _ | skipUnlessPressed _ =>
      cases executed
      exact pc_skipWhen m _
  | awaitKey x =>
      simp only [execute, awaitKey_eq] at executed
      split at executed <;> cases executed <;> rfl
  | _ =>
      cases executed
      rfl

end Machine

/-! ## Contrary skips -/

/-- The skip on the contrary condition. -/
def Instruction.contrary? : Instruction → Option Instruction
  | .skipIfEqual x value => some (.skipUnlessEqual x value)
  | .skipIfSame x y => some (.skipUnlessSame x y)
  | .skipIfPressed x => some (.skipUnlessPressed x)
  | _ => none

namespace Machine

theorem execute_of_contrary (m : Machine) {i j : Instruction} (contrary : i.contrary? = some j) :
    m.execute i = .ok (m.skipWhen (m.skips i)) ∧ m.execute j = .ok (m.skipWhen !m.skips i) := by
  cases i with
  | skipIfEqual x value | skipIfSame x y | skipIfPressed x =>
      cases contrary
      exact ⟨rfl, rfl⟩
  | _ => cases contrary

theorem cycle_of_skip {m : Machine} {i : Instruction} {condition : Bool} (fetched : m.fetch = i.encode)
    (executed : m.advance.execute i = .ok (m.advance.skipWhen condition)) :
    m.cycle.failure = none ∧
      m.cycle.machine.pc = if condition then wrap (m.pc + 4) else wrap (m.pc + 2) := by
  rw [cycle_of_encoded fetched executed]
  exact ⟨rfl, pc_skipWhen m condition⟩

/-- A cycle that works leads where its instruction says. Of two skips on contrary conditions that are
found in the same place by machines that differ in nothing but their memory, exactly one skips. -/
theorem led_by_instruction (m : Machine) :
    (m.cycle.failure = none → ∃ i : Instruction, m.fetch = i.encode ∧ m.Leads m.cycle.machine i) ∧
    ∀ (i j : Instruction) (memory : Memory), i.contrary? = some j →
      let n := { m with memory }
      m.fetch = i.encode → n.fetch = j.encode →
        m.cycle.failure = none ∧ n.cycle.failure = none ∧ wrap (m.pc + 4) ≠ wrap (m.pc + 2) ∧
        (m.cycle.machine.pc = wrap (m.pc + 4) ∧ n.cycle.machine.pc = wrap (m.pc + 2) ∨
          m.cycle.machine.pc = wrap (m.pc + 2) ∧ n.cycle.machine.pc = wrap (m.pc + 4)) := by
  constructor
  · intro works
    obtain ⟨i, fetched, executed⟩ := encoded_of_works works
    exact ⟨i, fetched, leads_execute executed⟩
  · intro i j memory contrary n fetched fetched'
    obtain ⟨works, pc⟩ := cycle_of_skip fetched (execute_of_contrary m.advance contrary).1
    obtain ⟨works', pc'⟩ := cycle_of_skip fetched' (execute_of_contrary n.advance contrary).2
    have same : n.advance.skips i = m.advance.skips i := by cases i <;> rfl
    have apart : wrap (m.pc + 4) ≠ wrap (m.pc + 2) := by
      unfold wrap
      omega
    refine ⟨works, works', apart, ?_⟩
    rw [pc, pc', same]
    cases m.advance.skips i with
    | true => exact Or.inl ⟨rfl, rfl⟩
    | false => exact Or.inr ⟨rfl, rfl⟩

/-- Two skips in the last two cells of the memory, where no key is pressed. -/
theorem led_around_the_end :
    let m : Machine := { fresh .default .silent with
      memory := Memory.zero.store 0xFFE [0xE0, 0x9E], pc := 0xFFE }
    let n : Machine := { m with memory := Memory.zero.store 0xFFE [0xE0, 0xA1] }
    m.cycle.machine.pc = 0 ∧ n.cycle.machine.pc = 2 := by
  intro m n
  have fetched : m.fetch = Instruction.encode (.skipIfPressed 0) := by decide +kernel
  have fetched' : n.fetch = Instruction.encode (.skipUnlessPressed 0) := by decide +kernel
  obtain ⟨leads, contrary⟩ := led_by_instruction m
  obtain ⟨works, -, -, one⟩ := contrary _ _ n.memory rfl fetched fetched'
  obtain ⟨i, found, led⟩ := leads works
  obtain rfl := Instruction.encode_inj (found.symm.trans fetched)
  have home : m.cycle.machine.pc = 0 := led.trans (by decide +kernel)
  rcases one with ⟨skipped, -⟩ | ⟨-, skipped⟩
  · exact absurd (home.symm.trans skipped) (by decide)
  · exact ⟨home, skipped⟩

end Machine

end Chip8
