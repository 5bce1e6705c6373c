import Chip8.Proofs.Machine.Bounds
import Chip8.Proofs.Machine.Effect

/-!
# The keys of instructions

Three instructions refer to the key that a register names. Main statement: `refers_to_key`, all three have
one host key in mind. A table gives it for the low four bits of the register; a raw key map gives the whole
register, which is no key of the machine if one of its high bits is set.
-/

namespace Chip8

/-- The register that names the key of the instruction. -/
def Instruction.keyRegister? : Instruction → Option Register
  | .skipIfPressed x | .skipUnlessPressed x | .awaitKey x => some x
  | _ => none

/-- The host key for the low four bits of a byte. -/
def KeyMap.nibbleKey (map : KeyMap) (b : UInt8) : Int :=
  map.hostKey (b.toNat % 16 : Nat)

namespace KeyMap

variable (map : KeyMap)

theorem hostKey_of_table (table : map.raw = false) (key : Nat) :
    map.hostKey (key % 16 : Nat) = map.hostKey key := by
  have low : ((key % 16 : Nat) : Int) % 16 = (key : Int) % 16 := by omega
  simp only [hostKey, table, low, Bool.false_eq_true, if_false]

theorem hostKey_of_raw (raw : map.raw = true) (key : Int) : map.hostKey key = key := by
  simp only [hostKey, raw, if_true]

theorem hostKey_eq_nibbleKey_iff (b : UInt8) :
    map.hostKey b.toNat = map.nibbleKey b ↔ map.raw = false ∨ b.toNat < 16 := by
  unfold nibbleKey
  cases raw : map.raw with
  | false => exact iff_of_true (map.hostKey_of_table raw b.toNat).symm (Or.inl rfl)
  | true =>
      rw [map.hostKey_of_raw raw, map.hostKey_of_raw raw]
      simp only [reduceCtorEq, false_or]
      omega

end KeyMap

namespace Machine

/-- The machine after an instruction that refers to host key `key`. -/
def obey (m : Machine) (key : Int) : Instruction → Machine
  | .skipIfPressed _ =>
      { m with pc := if m.keypad.current = some key then wrap (m.pc + 4) else wrap (m.pc + 2) }
  | .skipUnlessPressed _ =>
      { m with pc := if m.keypad.current = some key then wrap (m.pc + 2) else wrap (m.pc + 4) }
  | .awaitKey _ =>
      if m.keypad.current = some key then
        { m with pc := wrap (m.pc + 2), keypad := { current := none } }
      else { m with pc := wrap (m.pc + 2), awaiting := some key }
  | _ => m

variable {m : Machine} {i : Instruction} {x : Register}

theorem cycle_of_refers (refers : i.keyRegister? = some x) (fetched : m.fetch = i.encode) :
    m.cycle = ⟨m.obey (m.wantedKey x) i, none⟩ := by
  apply cycle_of_encoded fetched
  cases i with
  | skipIfPressed _ =>
      cases refers
      show Except.ok (m.advance.skipWhen (decide (m.keypad.current = some (m.wantedKey x)))) = _
      rw [skipWhen_advance]
      simp only [obey, decide_eq_true_eq]
  | skipUnlessPressed _ =>
      cases refers
      show Except.ok (m.advance.skipWhen !(decide (m.keypad.current = some (m.wantedKey x)))) = _
      rw [skipWhen_advance]
      simp only [obey, Bool.not_eq_true', decide_eq_false_iff_not, ite_not]
  | awaitKey _ =>
      cases refers
      have same : m.advance.isPressed x = decide (m.keypad.current = some (m.wantedKey x)) := rfl
      simp only [execute, awaitKey_eq, same, decide_eq_true_eq]
      rfl
  | _ => cases refers

theorem obey_setRegister (m : Machine) (i : Instruction) (x : Register) (key : Int) (c : UInt8) :
    (m.setRegister x c).obey key i = (m.obey key i).setRegister x c := by
  cases i with
  | awaitKey _ =>
      by_cases pressed : m.keypad.current = some key
      · simp only [obey, setRegister, pressed, if_true]
      · simp only [obey, setRegister, pressed, if_false]
  | _ => rfl

theorem wantedKey_eq (m : Machine) (x : Register) :
    m.wantedKey x =
      if m.keyMap.raw then ((m.registers.get x).toNat : Int)
      else m.keyMap.nibbleKey (m.registers.get x) := by
  unfold wantedKey
  split
  · rename_i raw
    exact m.keyMap.hostKey_of_raw raw _
  · rename_i table
    exact (m.keyMap.hostKey_eq_nibbleKey_iff _).2 (Or.inl (Bool.eq_false_iff.2 table))

/-- An instruction that refers to a key refers to the host key for the low four bits of its register, and
so the high ones do not matter, unless the key map is raw. A raw key map has the whole register for a host
key. -/
theorem refers_to_key (refers : i.keyRegister? = some x) (fetched : m.fetch = i.encode) :
    let b := m.registers.get x
    m.cycle.failure = none ∧
      m.cycle.machine = m.obey (if m.keyMap.raw then (b.toNat : Int) else m.keyMap.nibbleKey b) i ∧
      (m.keyMap.raw = false ∨ b.toNat < 16 → m.cycle.machine = m.obey (m.keyMap.nibbleKey b) i) ∧
      (m.keyMap.raw = false → ∀ c : UInt8, c.toNat % 16 = b.toNat % 16 →
        (m.setRegister x c).cycle.failure = none ∧
          (m.setRegister x c).cycle.machine = m.cycle.machine.setRegister x c) := by
  intro b
  have cycled := cycle_of_refers refers fetched
  rw [cycled]
  refine ⟨rfl, ?_, ?_, ?_⟩
  · rw [wantedKey_eq]
  · intro low
    exact congrArg (m.obey · i) ((m.keyMap.hostKey_eq_nibbleKey_iff b).2 low)
  · intro table c same
    have key : (m.setRegister x c).wantedKey x = m.wantedKey x := by
      simp only [wantedKey, setRegister, Registers.get_set, if_true]
      rw [← m.keyMap.hostKey_of_table table, same, m.keyMap.hostKey_of_table table]
    have fetched : (m.setRegister x c).fetch = i.encode := fetched
    rw [cycle_of_refers refers fetched, key, obey_setRegister]
    exact ⟨rfl, rfl⟩

/-- Key 5 is pressed, and the low bits of the register say 5. -/
theorem refers_to_five :
    let program : Program := ⟨[0x60, 0x15, 0xE0, 0x9E], by decide, by decide⟩
    let m := (((fresh .default .silent).load program).press (some 53)).cycle.machine
    m.registers.get 0 = 0x15 ∧ m.cycle.failure = none ∧ m.cycle.machine.pc = 0x206 ∧
      (m.setRegister 0 0x05).cycle.machine.pc = 0x206 := by
  intro program m
  have evaluated : m.fetch = (Instruction.skipIfPressed 0).encode ∧ m.keyMap.raw = false ∧
      m.registers.get 0 = 0x15 ∧ (m.obey (m.keyMap.nibbleKey 0x15) (.skipIfPressed 0)).pc = 0x206 := by
    decide +kernel
  obtain ⟨fetched, table, register, skips⟩ := evaluated
  obtain ⟨works, -, low, high⟩ := refers_to_key (x := 0) rfl fetched
  rw [register] at low high
  have skipped : m.cycle.machine.pc = 0x206 := (congrArg Machine.pc (low (Or.inl table))).trans skips
  refine ⟨register, works, skipped, ?_⟩
  rw [(high table 0x05 rfl).2]
  exact skipped

/-- Without a table the high bits of the register count, and key 5 is not found. -/
theorem raw_key_missed :
    ¬ ∀ (m : Machine) (i : Instruction) (x : Register), m.Reachable → i.keyRegister? = some x →
      m.fetch = i.encode → m.cycle.machine = m.obey (m.keyMap.nibbleKey (m.registers.get x)) i := by
  intro low
  let program : Program := ⟨[0x60, 0x15, 0xE0, 0x9E], by decide, by decide⟩
  let keyMap : KeyMap := { table := KeyMap.defaultTable, raw := true }
  let new := ((fresh keyMap .silent).load program).press (some 5)
  have reached : new.cycle.machine.Reachable :=
    (((Reachable.fresh keyMap .silent 60).load program).press (some 5)).cycle
  have obeyed := low _ (.skipIfPressed 0) 0 reached rfl (by decide +kernel)
  exact absurd (congrArg Machine.pc obeyed) (by decide +kernel)

end Machine

end Chip8
