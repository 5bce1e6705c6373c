import Chip8.Machine.Execution

/-!
# What an instruction may change

Main statement: `agree_execute`, an instruction leaves alone whatever lies outside its footprint, also
where its registers coincide or are the flag and where it writes around the end of the memory. That a
single part of the machine is left alone is read off it.
-/

namespace Chip8

/-- Whether the operation writes a flag behind its result. -/
def Operation.setsFlag : Operation → Bool
  | .copy | .or | .and | .xor => false
  | .add | .subtract | .shiftRight | .subtractFrom | .shiftLeft => true

theorem Registers.get_set_of_ne (v : Registers) {r t : Register} (b : UInt8) (other : t ≠ r) :
    (v.set r b).get t = v.get t := by
  rw [get_set, if_neg other.symm]

theorem Registers.get_restore_of_not_le (v : Registers) {last t : Register} (source : Nat → UInt8)
    (behind : ¬ t ≤ last) : (v.restore last source).get t = v.get t := by
  rw [get_restore, if_neg behind]

theorem Registers.length_upTo (v : Registers) (last : Register) : (v.upTo last).length = last + 1 := by
  rw [upTo, List.length_take, Vector.length_toList]
  omega

theorem Registers.get_combine_of_ne (v : Registers) (operation : Operation) {x t : Register}
    (y : Register) (other : t ≠ x) (unflagged : operation.setsFlag = true → t ≠ flag) :
    (v.combine operation x y).get t = v.get t := by
  cases operation with
  | copy | or | and | xor => exact v.get_set_of_ne _ other
  | add | subtract | shiftRight | subtractFrom | shiftLeft =>
      exact (Registers.get_set_of_ne _ _ (unflagged rfl)).trans (v.get_set_of_ne _ other)

theorem Memory.read_store_of_outside (m : Memory) (start address : Int) {bytes : List UInt8}
    (fits : bytes.length ≤ 4096)
    (outside : ∀ j : Nat, j < bytes.length → wrap (start + j) ≠ wrap address) :
    (m.store start bytes).read address = m.read address := by
  have beyond : bytes.length ≤ offset start address := by
    refine Nat.le_of_not_lt fun within => outside _ within ?_
    unfold wrap offset
    omega
  rw [read_store m start address bytes fits, List.getElem?_eq_none beyond, Option.getD_none]

namespace Machine

theorem skipWhen_eq (condition : Bool) (m : Machine) :
    m.skipWhen condition = { m with pc := if condition then wrap (m.pc + 2) else m.pc } := by
  cases condition <;> rfl

theorem awaitKey_eq (m : Machine) (x : Register) :
    m.awaitKey x =
      if m.isPressed x then { m with keypad := {} } else { m with awaiting := some (m.wantedKey x) } := by
  unfold awaitKey Keypad.take isPressed Keypad.isPressed
  by_cases same : m.keypad.current = some (m.wantedKey x) <;> simp [same]

/-! ## Instructions that can be refused -/

section

variable {m done : Machine}

theorem ret_eq_ok (returned : m.ret = .ok done) :
    ∃ top rest, m.stack = top :: rest ∧ done = { m with stack := rest, pc := top } := by
  unfold ret at returned
  split at returned <;> cases returned
  rename_i top rest stack
  exact ⟨top, rest, stack, rfl⟩

theorem call_eq_ok {target : Int} (called : m.call target = .ok done) :
    m.stack.length < stackDepth ∧ done = { m with stack := m.pc :: m.stack, pc := target } := by
  unfold call at called
  split at called <;> cases called
  rename_i shallow
  exact ⟨Nat.not_le.1 shallow, rfl⟩

theorem readDelay_eq_ok {x : Register} (read : m.readDelay x = .ok done) :
    done = m.setRegister x (.ofNat m.timers.delay.toNat) := by
  unfold readDelay at read
  split at read <;> cases read
  rfl

theorem storeDecimal_eq_ok {x : Register} (stored : m.storeDecimal x = .ok done) :
    let b := m.registers.get x
    done = { m with memory := m.memory.store m.index [b / 100, b / 10 % 10, b % 10] } := by
  simp only [storeDecimal] at stored
  split at stored <;> cases stored
  rfl

end

/-! ## Footprints -/

/-- What only the host changes. -/
structure Setup where
  keyMap : KeyMap
  programEnd : Nat
  rate : Int
  last : Option Binary64

def setup (m : Machine) : Setup :=
  { keyMap := m.keyMap, programEnd := m.programEnd, rate := m.timers.rate, last := m.timers.last }

/-- The parts of a machine that may change, apart from the program counter. -/
structure Footprint where
  registers : Register → Bool := fun _ => false
  index : Bool := false
  /-- How many bytes of memory, from the one at the index on. -/
  bytes : Nat := 0
  screen : Bool := false
  stack : Bool := false
  delay : Bool := false
  sound : Bool := false
  keypad : Bool := false
  awaiting : Bool := false
  random : Bool := false

/-- The footprint of an instruction. A wait for a key touches the keypad if the key is there, and what
the machine waits for if not. -/
def footprint (m : Machine) : Instruction → Footprint
  | .clear => { screen := true }
  | .ret | .call _ => { stack := true }
  | .load x _ | .increase x _ | .readDelay x => { registers := fun r => r = x }
  | .random x _ => { registers := fun r => r = x, random := true }
  | .combine operation x _ =>
      { registers := fun r => r = x || operation.setsFlag && r = Registers.flag }
  | .draw _ _ _ => { registers := fun r => r = Registers.flag, screen := true }
  | .loadRegisters last => { registers := fun r => r ≤ last }
  | .setIndex _ | .advanceIndex _ | .selectGlyph _ => { index := true }
  | .storeDecimal _ => { bytes := 3 }
  | .storeRegisters last => { bytes := last + 1 }
  | .setDelay _ => { delay := true }
  | .setSound _ => { sound := true }
  | .awaitKey x => if m.isPressed x then { keypad := true } else { awaiting := true }
  | _ => {}

/-- The machines agree outside the footprint. -/
structure Footprint.Agree (f : Footprint) (m n : Machine) : Prop where
  registers : ∀ r, f.registers r = false → n.registers.get r = m.registers.get r
  index : f.index = false → n.index = m.index
  memory : ∀ address, (∀ j : Nat, j < f.bytes → wrap (m.index + j) ≠ wrap address) →
    n.memory.read address = m.memory.read address
  screen : f.screen = false → n.screen = m.screen
  stack : f.stack = false → n.stack = m.stack
  delay : f.delay = false → n.timers.delay = m.timers.delay
  sound : f.sound = false → n.timers.sound = m.timers.sound
  keypad : f.keypad = false → n.keypad = m.keypad
  awaiting : f.awaiting = false → n.awaiting = m.awaiting
  random : f.random = false → n.random = m.random
  setup : n.setup = m.setup

theorem agree_refl (f : Footprint) (m : Machine) : f.Agree m m := by
  constructor <;> intros <;> rfl

theorem agree_execute {m done : Machine} {i : Instruction} (executed : m.execute i = .ok done) :
    (m.footprint i).Agree m done := by
  -- One case for each kind of footprint: only the fields that it names are left to prove.
  cases i with
  | clear =>
      cases executed
      exact { agree_refl _ m with screen := by simp [footprint] }
  | ret =>
      obtain ⟨top, rest, -, rfl⟩ := ret_eq_ok executed
      exact { agree_refl _ m with stack := by simp [footprint] }
  | call target =>
      obtain ⟨-, rfl⟩ := call_eq_ok executed
      exact { agree_refl _ m with stack := by simp [footprint] }
  | load x value | increase x value =>
      cases executed
      refine { agree_refl _ m with registers := fun r other => ?_ }
      exact m.registers.get_set_of_ne _ (of_decide_eq_false other)
  | readDelay x =>
      obtain rfl := readDelay_eq_ok executed
      refine { agree_refl _ m with registers := fun r other => ?_ }
      exact m.registers.get_set_of_ne _ (of_decide_eq_false other)
  | random x mask =>
      cases executed
      refine { agree_refl _ m with registers := fun r other => ?_, random := by simp [footprint] }
      exact m.registers.get_set_of_ne _ (of_decide_eq_false other)
  | combine operation x y =>
      cases executed
      refine { agree_refl _ m with registers := fun r other => ?_ }
      simp only [footprint, Bool.or_eq_false_iff, decide_eq_false_iff_not, Bool.and_eq_false_imp] at other
      exact m.registers.get_combine_of_ne operation y other.1 other.2
  | draw x y height =>
      cases executed
      refine { agree_refl _ m with registers := fun r other => ?_, screen := by simp [footprint] }
      exact m.registers.get_set_of_ne _ (of_decide_eq_false other)
  | loadRegisters last =>
      cases executed
      refine { agree_refl _ m with registers := fun r other => ?_ }
      exact m.registers.get_restore_of_not_le (fun r => m.memory.read (m.index + r))
        (of_decide_eq_false other)
  | setIndex address | advanceIndex x | selectGlyph x =>
      cases executed
      exact { agree_refl _ m with index := by simp [footprint] }
  | storeDecimal x =>
      obtain rfl := storeDecimal_eq_ok executed
      refine { agree_refl _ m with memory := fun address outside => ?_ }
      exact m.memory.read_store_of_outside m.index address (by simp) outside
  | storeRegisters last =>
      cases executed
      refine { agree_refl _ m with memory := fun address outside => ?_ }
      have length := m.registers.length_upTo last
      exact m.memory.read_store_of_outside m.index address (by omega) (length ▸ outside)
  | setDelay x =>
      cases executed
      exact { agree_refl _ m with delay := by simp [footprint] }
  | setSound x =>
      cases executed
      exact { agree_refl _ m with sound := by simp [footprint] }
  | awaitKey x =>
      simp only [execute, awaitKey_eq] at executed
      cases pressed : m.isPressed x <;> rw [pressed] at executed <;> cases executed
      · exact { agree_refl _ m with awaiting := by simp [footprint, pressed] }
      · exact { agree_refl _ m with keypad := by simp [footprint, pressed] }
  | _ =>
      simp only [execute, skipWhen_eq] at executed
      cases executed
      exact { agree_refl _ m with }

end Machine

end Chip8
