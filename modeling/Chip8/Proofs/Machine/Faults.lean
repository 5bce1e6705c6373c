import Chip8.Proofs.Instruction.Table
import Chip8.Proofs.Machine.Bounds

/-!
# Faults

Main statements: `decoded_exactly`, a cycle meets an unsupported instruction exactly if its word fits no
line of the instruction table, and a fault leaves everything but the program counter alone;
`fault_address`, a fault names the address of its instruction up to a turn around the memory.
-/

namespace Chip8.Machine

open Instruction (decode? table)

/-! ## The word of a fault -/

theorem fetch_eq (m : Machine) :
    m.fetch = 0x100 * (m.memory.read m.pc).toNat + (m.memory.read (wrap (m.pc + 1))).toNat := by
  rw [Memory.read_wrap]
  rfl

theorem failure_cycle_of_unsupported {m : Machine} {word : Int} {pc : Int}
    (failed : m.cycle.failure = some (.fault ⟨.unsupported word, pc⟩)) :
    decode? m.fetch = none ∧ word = m.fetch ∧ pc = wrap (m.advance.pc - 2) := by
  obtain ⟨decoded, same⟩ | ⟨i, refusal, -, -, same⟩ := failure_cases failed
  · cases same
    exact ⟨decoded, rfl, rfl⟩
  · cases refusal <;> cases same

theorem unsupported_iff (m : Machine) (word : Int) :
    (∃ pc, m.cycle.failure = some (.fault ⟨.unsupported word, pc⟩)) ↔
      word = m.fetch ∧ decode? m.fetch = none := by
  constructor
  · rintro ⟨pc, failed⟩
    obtain ⟨decoded, same, -⟩ := failure_cycle_of_unsupported failed
    exact ⟨same, decoded⟩
  · rintro ⟨rfl, decoded⟩
    exact ⟨wrap (m.advance.pc - 2), by simp only [cycle, decoded]⟩

/-- A word is unsupported exactly if it fits no line of the instruction table. Whatever fault a cycle
raises, it has done no more than move past the instruction. -/
theorem decoded_exactly (m : Machine) :
    let word := 0x100 * (m.memory.read m.pc).toNat + (m.memory.read (wrap (m.pc + 1))).toNat
    (∀ opcode, (∃ pc, m.cycle.failure = some (.fault ⟨.unsupported opcode, pc⟩)) ↔
      opcode = word ∧ ∀ p ∈ table, p.fits word = false) ∧
    ∀ fault, m.cycle.failure = some (.fault fault) → m.cycle.machine = { m with pc := wrap (m.pc + 2) } := by
  intro word
  have fetched : m.fetch = word := fetch_eq m
  refine ⟨fun opcode => ?_, fun fault failed => machine_cycle_of_failure failed⟩
  rw [unsupported_iff, fetched, Instruction.decode?_eq_none_iff]

/-- A word of group 8 without an operation, across the end of the memory. -/
theorem decoded_across_the_end :
    let m : Machine := { fresh .default .silent with
      memory := Memory.zero.store 0xFFF [0x81, 0x28], pc := 0xFFF, stack := [0x202] }
    m.cycle.failure = some (.fault ⟨.unsupported 0x8128, 0xFFF⟩) ∧
      m.cycle.machine = { m with pc := 1 } := by
  intro m
  have failed : m.cycle.failure = some (.fault ⟨.unsupported 0x8128, 0xFFF⟩) := by decide +kernel
  exact ⟨failed, (decoded_exactly m).2 _ failed⟩

/-! ## The address of a fault -/

theorem wrap_wrap_sub (i j : Int) : wrap (wrap (i + j) - j) = wrap i := by
  unfold wrap
  omega

theorem wrap_of_isAddress {i : Int} (address : IsAddress i) : wrap i = i :=
  Int.emod_eq_of_lt address.1 address.2

/-- The address of an unsupported instruction is brought back into the memory, that of a refused one is
not. -/
theorem pc_of_fault {m : Machine} {fault : Fault} (failed : m.cycle.failure = some (.fault fault)) :
    (∃ word, fault.cause = .unsupported word ∧ fault.pc = wrap m.pc) ∨
      (fault.cause = .stackOverflow ∨ fault.cause = .stackUnderflow) ∧ fault.pc = wrap (m.pc + 2) - 2 := by
  obtain ⟨-, same⟩ | ⟨i, refusal, -, -, same⟩ := failure_cases failed
  · cases same
    exact Or.inl ⟨m.fetch, rfl, wrap_wrap_sub m.pc 2⟩
  · cases refusal with
    | stackOverflow =>
        cases same
        exact Or.inr ⟨Or.inl rfl, rfl⟩
    | stackUnderflow =>
        cases same
        exact Or.inr ⟨Or.inr rfl, rfl⟩
    | defect defect => cases same

/-- A fault names the address of its instruction, but that of a call or return in the last two cells of
the memory is lower by the size of the memory. -/
theorem fault_address {m : Machine} (reached : m.Reachable) {fault : Fault}
    (failed : m.cycle.failure = some (.fault fault)) :
    IsAddress m.pc ∧ wrap fault.pc = m.pc ∧
      (fault.pc = m.pc ↔ (∃ word, fault.cause = .unsupported word) ∨ m.pc < 0xFFE) ∧
      (fault.pc ≠ m.pc → (fault.cause = .stackOverflow ∨ fault.cause = .stackUnderflow) ∧
        fault.pc = m.pc - 0x1000) := by
  have address : IsAddress m.pc := reached.bounded.pc
  have inside := wrap_of_isAddress address
  refine ⟨address, ?_⟩
  rcases pc_of_fault failed with ⟨word, cause, pc⟩ | ⟨cause, pc⟩
  · rw [pc, inside]
    exact ⟨inside, iff_of_true rfl (Or.inl ⟨word, cause⟩), absurd rfl⟩
  · have known : ¬ ∃ word, fault.cause = .unsupported word := by
      rintro ⟨word, same⟩
      rw [same] at cause
      rcases cause with overflow | underflow <;> contradiction
    -- Moving on goes around the end of the memory from the last two cells only, and moving back does not.
    obtain ⟨low, high⟩ := address
    simp only [wrap] at pc inside ⊢
    refine ⟨by omega, ?_, fun other => ⟨cause, by omega⟩⟩
    simp only [known, false_or]
    omega

/-- No instruction in the last two cells. -/
theorem address_of_unsupported :
    let program : Program := ⟨[0x1F, 0xFE], by decide, by decide⟩
    let m := ((fresh .default .silent).load program).cycle.machine
    m.cycle.failure = some (.fault ⟨.unsupported 0, 0xFFE⟩) ∧ m.pc = 0xFFE := by
  intro program m
  have reached : m.Reachable := ((Reachable.fresh .default .silent 60).load program).cycle
  have failed : m.cycle.failure = some (.fault ⟨.unsupported 0, 0xFFE⟩) := by decide +kernel
  obtain ⟨-, -, named, -⟩ := fault_address reached failed
  exact ⟨failed, (named.2 (Or.inl ⟨0, rfl⟩)).symm⟩

/-- A program that writes a return to the last two cells and jumps there without a call. The fault names
no address at all. -/
theorem misnamed_underflow :
    ¬ ∀ (m : Machine) (fault : Fault), m.Reachable → m.cycle.failure = some (.fault fault) →
      IsAddress fault.pc ∧ fault.pc = m.pc := by
  intro named
  let program : Program :=
    ⟨[0x60, 0x00, 0x61, 0xEE, 0xAF, 0xFE, 0xF1, 0x55, 0x1F, 0xFE], by decide, by decide⟩
  let m := (((fresh .default .silent).load program).cycles 5).machine
  have reached : m.Reachable := ((Reachable.fresh .default .silent 60).load program).cycles 5
  have failed : m.cycle.failure = some (.fault ⟨.stackUnderflow, -2⟩) := by decide +kernel
  exact absurd (named m _ reached failed).1 (by simp [IsAddress])

end Chip8.Machine
