import Chip8.Proofs.Machine.Effect

/-!
# Storing and loading registers

The registers V0 to Vx have a window of the memory, which may go around its end. Main statements:
`holds_store` and `store_eq_self`, a window that has been written holds the registers, and writing what
it holds changes nothing; `stored_and_loaded`, storing and loading undo each other on it.
-/

namespace Chip8

/-- The window of the memory from `start` on holds the registers up to `last`. -/
def Memory.Holds (m : Memory) (start : Int) (v : Registers) (last : Register) : Prop :=
  ∀ r ≤ last, m.read (wrap (start + r.val)) = v.get r

theorem Registers.getElem?_upTo (v : Registers) {last r : Register} (within : r ≤ last) :
    (v.upTo last)[r.val]? = some (v.get r) := by
  have inside : r.val < last.val + 1 := Nat.lt_succ_of_le within
  rw [upTo, List.getElem?_take_of_lt inside]
  simp [get]

namespace Memory

variable {m : Memory} {start : Int} {v : Registers} {last : Register}

theorem ext_read {m n : Memory} (same : ∀ address, m.read address = n.read address) : m = n := by
  have cells : m.cells = n.cells := by
    apply Vector.ext
    intro a inside
    have address : Address.ofInt a = ⟨a, inside⟩ := Address.ofInt_eq ⟨a, inside⟩ (by simp; omega)
    have cell := same a
    simp only [read, address] at cell
    exact cell
  cases m
  cases n
  exact congrArg Memory.mk cells

theorem offset_add {j : Nat} (inside : j < 4096) : offset start (start + j) = j := by
  unfold offset
  omega

theorem wrap_add_offset (start address : Int) : wrap (start + offset start address) = wrap address := by
  unfold wrap offset
  omega

/-- The bytes stand where they have been written, one behind another and around the end. -/
theorem read_store_add (m : Memory) (start : Int) {bytes : List UInt8} (fits : bytes.length ≤ 4096)
    {j : Nat} {b : UInt8} (stored : bytes[j]? = some b) :
    (m.store start bytes).read (wrap (start + j)) = b := by
  obtain ⟨inside, -⟩ := List.getElem?_eq_some_iff.1 stored
  rw [read_wrap, read_store _ _ _ _ fits, offset_add (by omega), stored]
  rfl

theorem holds_store (m : Memory) (start : Int) (v : Registers) (last : Register) :
    (m.store start (v.upTo last)).Holds start v last := by
  intro r within
  have length := v.length_upTo last
  exact m.read_store_add start (by omega) (v.getElem?_upTo within)

theorem store_eq_self (holds : m.Holds start v last) : m.store start (v.upTo last) = m := by
  apply ext_read
  intro address
  have length := v.length_upTo last
  have inside := last.isLt
  rw [read_store _ _ _ _ (by omega)]
  by_cases within : offset start address < last.val + 1
  · -- going up from the start by its offset comes back to the address, also around the end
    let r : Register := ⟨offset start address, by omega⟩
    have low : r ≤ last := Nat.le_of_lt_succ within
    have there := holds r low
    rw [wrap_add_offset, read_wrap] at there
    rw [v.getElem?_upTo (r := r) low, there]
    rfl
  · rw [List.getElem?_eq_none (by omega)]
    rfl

end Memory

theorem Registers.get_restore_of_holds {m : Memory} {start : Int} {v : Registers} {last r : Register}
    (holds : m.Holds start v last) (w : Registers) (within : r ≤ last) :
    (w.restore last fun j => m.read (start + j)).get r = v.get r := by
  rw [get_restore, if_pos within, ← holds r within, Memory.read_wrap]

namespace Machine

variable {m : Machine} {x : Register}

/-! ## Storing -/

theorem cycle_of_store (fetched : m.fetch = (Instruction.storeRegisters x).encode) :
    m.cycle =
      ⟨{ m.advance with memory := m.memory.store m.index (m.registers.upTo x) }, none⟩ :=
  cycle_of_encoded fetched rfl

theorem memory_of_store (fetched : m.fetch = (Instruction.storeRegisters x).encode) :
    m.cycle.machine.memory = m.memory.store m.index (m.registers.upTo x) := by
  rw [cycle_of_store fetched]

theorem holds_of_store (fetched : m.fetch = (Instruction.storeRegisters x).encode) :
    m.cycle.machine.memory.Holds m.index m.registers x := by
  rw [memory_of_store fetched]
  exact m.memory.holds_store m.index m.registers x

theorem read_of_store (fetched : m.fetch = (Instruction.storeRegisters x).encode) {address : Int}
    (outside : ∀ r ≤ x, wrap (m.index + r.val) ≠ wrap address) :
    m.cycle.machine.memory.read address = m.memory.read address := by
  have length := m.registers.length_upTo x
  have small := x.isLt
  rw [memory_of_store fetched]
  apply m.memory.read_store_of_outside m.index address (by omega)
  intro j within
  rw [length] at within
  exact outside ⟨j, by omega⟩ (Nat.le_of_lt_succ within)

/-! ## Loading -/

theorem cycle_of_load (fetched : m.fetch = (Instruction.loadRegisters x).encode) :
    m.cycle =
      ⟨{ m.advance with
          registers := m.registers.restore x fun j => m.memory.read (m.index + j) }, none⟩ :=
  cycle_of_encoded fetched rfl

theorem registers_of_load (fetched : m.fetch = (Instruction.loadRegisters x).encode) :
    m.cycle.machine.registers = m.registers.restore x fun j => m.memory.read (m.index + j) := by
  rw [cycle_of_load fetched]

theorem holds_of_load (fetched : m.fetch = (Instruction.loadRegisters x).encode) :
    m.memory.Holds m.index m.cycle.machine.registers x := by
  intro r within
  rw [registers_of_load fetched, Registers.get_restore, if_pos within, Memory.read_wrap]

theorem get_of_load (fetched : m.fetch = (Instruction.loadRegisters x).encode) {r : Register}
    (above : x < r) : m.cycle.machine.registers.get r = m.registers.get r := by
  have behind : ¬ r ≤ x := Nat.not_le_of_gt above
  rw [registers_of_load fetched, Registers.get_restore_of_not_le _ _ behind]

/-! ## Storing and loading -/

/-- A store writes the registers V0 to Vx to the window from the index on and changes nothing else; a load
reads them from there and changes nothing else. A load from a window that a store has written brings back
its registers, and a store of registers that a load has read leaves the memory as it is, whatever has
happened in between outside the window and these registers. -/
theorem stored_and_loaded (x : Register) :
    (∀ m : Machine, m.fetch = (Instruction.storeRegisters x).encode →
      let done := m.cycle.machine
      m.cycle.failure = none ∧ done = { m.advance with memory := done.memory } ∧
        (∀ r ≤ x, done.memory.read (wrap (m.index + r.val)) = m.registers.get r) ∧
        ∀ address, (∀ r ≤ x, wrap (m.index + r.val) ≠ wrap address) →
          done.memory.read address = m.memory.read address) ∧
    (∀ m : Machine, m.fetch = (Instruction.loadRegisters x).encode →
      let done := m.cycle.machine
      m.cycle.failure = none ∧ done = { m.advance with registers := done.registers } ∧
        (∀ r ≤ x, done.registers.get r = m.memory.read (wrap (m.index + r.val))) ∧
        ∀ r, x < r → done.registers.get r = m.registers.get r) ∧
    (∀ m n : Machine, m.fetch = (Instruction.storeRegisters x).encode →
      n.fetch = (Instruction.loadRegisters x).encode → n.index = m.index →
      (∀ r ≤ x, n.memory.read (wrap (m.index + r.val)) =
        m.cycle.machine.memory.read (wrap (m.index + r.val))) →
      ∀ r ≤ x, n.cycle.machine.registers.get r = m.registers.get r) ∧
    ∀ m n : Machine, m.fetch = (Instruction.loadRegisters x).encode →
      n.fetch = (Instruction.storeRegisters x).encode → n.index = m.index →
      (∀ r ≤ x, n.memory.read (wrap (m.index + r.val)) = m.memory.read (wrap (m.index + r.val))) →
      (∀ r ≤ x, n.registers.get r = m.cycle.machine.registers.get r) →
      n.cycle.machine.memory = n.memory := by
  refine ⟨?_, ?_, ?_, ?_⟩
  · intro m fetched
    refine ⟨?_, ?_, holds_of_store fetched, fun address => read_of_store fetched⟩
    · rw [cycle_of_store fetched]
    · rw [cycle_of_store fetched]
  · intro m fetched
    refine ⟨?_, ?_, fun r within => (holds_of_load fetched r within).symm, fun r => get_of_load fetched⟩
    · rw [cycle_of_load fetched]
    · rw [cycle_of_load fetched]
  · intro m n fetched fetched' index untouched r within
    have holds : n.memory.Holds n.index m.registers x := by
      intro r within
      rw [index, untouched r within]
      exact holds_of_store fetched r within
    rw [registers_of_load fetched']
    exact Registers.get_restore_of_holds holds n.registers within
  · intro m n fetched fetched' index untouched same
    have holds : n.memory.Holds n.index n.registers x := by
      intro r within
      rw [index, untouched r within, same r within]
      exact holds_of_load fetched r within
    rw [memory_of_store fetched']
    exact Memory.store_eq_self holds

/-- V0 to V2 are stored around the end of the memory, cleared, loaded and stored again. -/
theorem stored_around_the_end :
    let program : Program :=
      ⟨[0x61, 0x08, 0x62, 0x09, 0xAF, 0xFE, 0xF2, 0x55, 0xF2, 0x65, 0xF2, 0x55], by decide, by decide⟩
    let m := (((fresh .default .silent).load program).cycles 3).machine
    let n := { m.cycle.machine with registers := .zero }
    let p := n.cycle.machine
    m.cycle.machine.memory.read 0 = 9 ∧ m.cycle.machine.memory.read 1 = m.memory.read 1 ∧
      p.registers.get 1 = 8 ∧ p.registers.get 3 = n.registers.get 3 ∧
      p.cycle.machine.memory = p.memory := by
  intro program m n p
  have evaluated : m.fetch = (Instruction.storeRegisters 2).encode ∧
      n.fetch = (Instruction.loadRegisters 2).encode ∧ p.fetch = (Instruction.storeRegisters 2).encode ∧
      m.index = 0xFFE ∧ n.index = 0xFFE ∧ p.index = 0xFFE ∧
      m.registers.get 1 = 8 ∧ m.registers.get 2 = 9 := by decide +kernel
  obtain ⟨stored, loaded, again, index, index', index'', second, third⟩ := evaluated
  obtain ⟨stores, loads, brings, keeps⟩ := stored_and_loaded 2
  obtain ⟨-, -, window, outside⟩ := stores m stored
  obtain ⟨-, rest, -, above⟩ := loads n loaded
  have memory : p.memory = n.memory := (congrArg Machine.memory rest).trans rfl
  refine ⟨?_, ?_, ?_, above 3 (by decide), ?_⟩
  · have address : wrap (m.index + (2 : Register).val) = 0 := by rw [index]; rfl
    have written := window 2 (by decide)
    rw [address] at written
    exact written.trans third
  · apply outside
    rw [index]
    decide
  · have untouched := brings m n stored loaded (index'.trans index.symm) fun r within => rfl
    exact (untouched 1 (by decide)).trans second
  · exact keeps n p loaded again (index''.trans index'.symm) (fun r within => by rw [memory]) fun r within => rfl

end Machine

end Chip8
