import Chip8.Proofs.Machine.Bounds
import Chip8.Proofs.Machine.Storing

/-!
# Decimal digits

A register is stored as its decimal digits in three cells, which may go around the end of the memory.
Main statements: `spells_of_storeDecimal`, these cells spell the register, and `digits_stored`, nothing
else is written and a load of V0 to V2 brings the digits back.
-/

namespace Chip8

/-- The three cells from `start` on are the decimal digits of `b`, the hundreds first. -/
structure Memory.Spells (m : Memory) (start : Int) (b : UInt8) : Prop where
  digit : ∀ j : Nat, j < 3 → (m.read (wrap (start + j))).toNat ≤ 9
  value : 100 * (m.read (wrap start)).toNat + 10 * (m.read (wrap (start + 1))).toNat +
    (m.read (wrap (start + 2))).toNat = b.toNat

theorem digits_spec (b : UInt8) :
    (∀ digit ∈ [b / 100, b / 10 % 10, b % 10], digit.toNat ≤ 9) ∧
      100 * (b / 100).toNat + 10 * (b / 10 % 10).toNat + (b % 10).toNat = b.toNat := by
  have byte := b.toNat_lt
  simp only [List.forall_mem_cons, UInt8.toNat_div, UInt8.toNat_mod, UInt8.reduceToNat]
  refine ⟨⟨by omega, by omega, by omega, by simp⟩, by omega⟩

theorem Memory.spells_store (m : Memory) (start : Int) (b : UInt8) :
    (m.store start [b / 100, b / 10 % 10, b % 10]).Spells start b := by
  obtain ⟨small, value⟩ := digits_spec b
  have read {j : Nat} {digit : UInt8} (stored : [b / 100, b / 10 % 10, b % 10][j]? = some digit) :=
    m.read_store_add start (by simp) stored
  constructor
  · intro j inside
    rw [read (List.getElem?_eq_getElem inside)]
    exact small _ (List.getElem_mem inside)
  · have hundreds := read (j := 0) rfl
    have tens := read (j := 1) rfl
    have units := read (j := 2) rfl
    rw [Int.natCast_zero, Int.add_zero] at hundreds
    rw [Int.natCast_one] at tens
    rw [Int.cast_ofNat_Int] at units
    rw [hundreds, tens, units]
    exact value

namespace Machine

variable {m : Machine} {x : Register}

theorem cycle_of_storeDecimal (index : IsAddress m.index)
    (fetched : m.fetch = (Instruction.storeDecimal x).encode) :
    let b := m.registers.get x
    m.cycle =
      ⟨{ m.advance with memory := m.memory.store m.index [b / 100, b / 10 % 10, b % 10] }, none⟩ := by
  refine cycle_of_encoded fetched ?_
  have address : Defect.ofAddress? m.advance.index = none := ofAddress?_of_isAddress index
  simp only [execute, storeDecimal, address]
  rfl

theorem spells_of_storeDecimal (index : IsAddress m.index)
    (fetched : m.fetch = (Instruction.storeDecimal x).encode) :
    m.cycle.machine.memory.Spells m.index (m.registers.get x) := by
  rw [cycle_of_storeDecimal index fetched]
  exact m.memory.spells_store m.index _

/-- A reachable machine that stores a register in decimal writes its digits to the cell at the index and
the two behind it, also around the end of the memory, and changes nothing else. As long as these cells and
the index stay as they are, a load of V0 to V2 reads the same digits. -/
theorem digits_stored (m : Machine) (reached : m.Reachable) (x : Register)
    (fetched : m.fetch = (Instruction.storeDecimal x).encode) :
    let done := m.cycle.machine
    m.cycle.failure = none ∧ done = { m.advance with memory := done.memory } ∧
      wrap m.index = m.index ∧ done.memory.Spells m.index (m.registers.get x) ∧
      (∀ address, (∀ j : Nat, j < 3 → wrap (m.index + j) ≠ wrap address) →
        done.memory.read address = m.memory.read address) ∧
      ∀ n : Machine, n.fetch = (Instruction.loadRegisters 2).encode → n.index = m.index →
        (∀ j : Nat, j < 3 → n.memory.read (wrap (m.index + j)) = done.memory.read (wrap (m.index + j))) →
        n.cycle.failure = none ∧
          ∀ r : Register, r ≤ 2 →
            n.cycle.machine.registers.get r = done.memory.read (wrap (m.index + r.val)) := by
  have index := reached.bounded.index
  have cycled := cycle_of_storeDecimal index fetched
  refine ⟨by rw [cycled], by rw [cycled], ?_, spells_of_storeDecimal index fetched, ?_, ?_⟩
  · exact Int.emod_eq_of_lt index.1 index.2
  · intro address outside
    rw [cycled]
    exact m.memory.read_store_of_outside m.index address (by simp) outside
  · intro n fetched' same untouched
    refine ⟨by rw [cycle_of_load fetched'], fun r within => ?_⟩
    have loaded := holds_of_load fetched' r within
    rw [← loaded, same]
    exact untouched r.val (Nat.lt_succ_of_le within)

/-- 254 is stored around the end of the memory and loaded back. -/
theorem digits_around_the_end :
    let program : Program := ⟨[0x65, 0xFE, 0xAF, 0xFE, 0xF5, 0x33, 0xF2, 0x65], by decide, by decide⟩
    let m := (((fresh .default .silent).load program).cycles 2).machine
    let n := m.cycle.machine
    m.index = 0xFFE ∧ n.memory.Spells 0xFFE 254 ∧ n.memory.read 1 = m.memory.read 1 ∧
      n.cycle.machine.registers.get 2 = n.memory.read 0 := by
  intro program m n
  have reached : m.Reachable := ((Reachable.fresh .default .silent 60).load program).cycles 2
  have evaluated : m.fetch = (Instruction.storeDecimal 5).encode ∧
      n.fetch = (Instruction.loadRegisters 2).encode ∧ m.index = 0xFFE ∧ n.index = 0xFFE ∧
      m.registers.get 5 = 254 := by decide +kernel
  obtain ⟨fetched, fetched', index, index', value⟩ := evaluated
  obtain ⟨-, -, -, spells, outside, loads⟩ := digits_stored m reached 5 fetched
  obtain ⟨-, loaded⟩ := loads n fetched' (index'.trans index.symm) fun j inside => rfl
  rw [index, value] at spells
  refine ⟨index, spells, ?_, ?_⟩
  · apply outside
    rw [index]
    decide
  · have last := loaded 2 (by decide)
    rw [index] at last
    exact last

end Machine

end Chip8
