import Chip8.Proofs.Countdown.Tick
import Chip8.Proofs.Machine.Cycle

/-!
# The bounds of a machine

Main statements: `Bounded.cycle`, a cycle keeps every value of the machine in its bounds, and
`failure_cycle`, within these bounds a cycle fails with a fault or not at all.
-/

namespace Chip8

/-- Whether `i` needs no more than twelve bits. -/
def IsAddress (i : Int) : Prop :=
  0 ≤ i ∧ i < 4096

theorem isAddress_wrap (i : Int) : IsAddress (wrap i) :=
  ⟨Int.emod_nonneg i (by decide), Int.emod_lt_of_pos i (by decide)⟩

theorem isAddress_val (a : Address) : IsAddress (a.val : Int) :=
  ⟨Int.natCast_nonneg _, Int.ofNat_lt.2 a.isLt⟩

theorem ofAddress?_of_isAddress {i : Int} (address : IsAddress i) : Defect.ofAddress? i = none := by
  simp only [IsAddress] at address
  exact if_pos (by omega)

theorem isAddress_glyph (n : Nat) : IsAddress (glyphAddress n : Int) := by
  have small : n % 16 < 16 := Nat.mod_lt n (by decide)
  simp only [IsAddress, glyphAddress, fontAddress, glyphSize]
  omega

def IsByte (i : Int) : Prop :=
  0 ≤ i ∧ i < 256

theorem isByte_toNat (b : UInt8) : IsByte (b.toNat : Int) :=
  ⟨Int.natCast_nonneg _, Int.ofNat_lt.2 b.toNat_lt⟩

theorem isByte_lower {counter count : Int} (byte : IsByte counter) (positive : 0 ≤ count) :
    IsByte (Countdown.lower counter count) := by
  simp only [IsByte, Countdown.lower] at byte ⊢
  omega

namespace Machine

open Instruction (decode?)

structure Bounded (m : Machine) : Prop where
  index : IsAddress m.index
  pc : IsAddress m.pc
  depth : m.stack.length ≤ stackDepth
  stack : ∀ a ∈ m.stack, IsAddress a
  delay : IsByte m.timers.delay
  sound : IsByte m.timers.sound
  programEnd : programStart ≤ m.programEnd ∧ m.programEnd ≤ 4096

theorem bounded_fresh (keyMap : KeyMap) (random : Random.Source) : (fresh keyMap random).Bounded := by
  constructor <;> simp [fresh, IsAddress, IsByte, programStart]

theorem Bounded.load {m : Machine} (bounded : m.Bounded) (p : Program) : (m.load p).Bounded := by
  have size := p.size_le
  refine { bounded with pc := by simp [Machine.load, IsAddress, programStart], programEnd := ?_ }
  simp only [Machine.load, Program.finish, Program.size, programStart, maxProgramSize] at size ⊢
  omega

theorem Bounded.advance {m : Machine} (bounded : m.Bounded) : m.advance.Bounded :=
  { bounded with pc := isAddress_wrap _ }

theorem Bounded.skipWhen {m : Machine} (bounded : m.Bounded) (condition : Bool) :
    (m.skipWhen condition).Bounded := by
  cases condition with
  | false => exact bounded
  | true => exact bounded.advance

/-! ## Instructions -/

theorem Bounded.call {m done : Machine} (bounded : m.Bounded) (target : Address)
    (called : m.call target = .ok done) : done.Bounded := by
  obtain ⟨shallow, rfl⟩ := call_eq_ok called
  refine { bounded with pc := isAddress_val target, depth := ?_, stack := ?_ }
  · exact Nat.succ_le_of_lt shallow
  · intro a member
    rcases List.mem_cons.1 member with rfl | earlier
    · exact bounded.pc
    · exact bounded.stack a earlier

theorem Bounded.ret {m done : Machine} (bounded : m.Bounded) (returned : m.ret = .ok done) :
    done.Bounded := by
  obtain ⟨top, rest, stack, rfl⟩ := ret_eq_ok returned
  have depth := bounded.depth
  have addresses := bounded.stack
  rw [stack] at depth addresses
  refine { bounded with pc := addresses top (by simp), depth := ?_, stack := ?_ }
  · exact Nat.le_of_succ_le depth
  · intro a member
    exact addresses a (List.mem_cons_of_mem top member)

theorem Bounded.awaitKey {m : Machine} (bounded : m.Bounded) (x : Register) :
    (m.awaitKey x).Bounded := by
  rw [awaitKey_eq]
  split <;> exact { bounded with }

theorem Bounded.execute {m done : Machine} (bounded : m.Bounded) {i : Instruction}
    (executed : m.execute i = .ok done) : done.Bounded := by
  cases i with
  | ret => exact bounded.ret executed
  | call target => exact bounded.call target executed
  | readDelay x =>
      obtain rfl := readDelay_eq_ok executed
      exact { bounded with }
  | storeDecimal x =>
      obtain rfl := storeDecimal_eq_ok executed
      exact { bounded with }
  | jump target =>
      cases executed
      exact { bounded with pc := isAddress_val target }
  | jumpOffset base =>
      cases executed
      exact { bounded with pc := isAddress_wrap _ }
  | setIndex address =>
      cases executed
      exact { bounded with index := isAddress_val address }
  | advanceIndex x =>
      cases executed
      exact { bounded with index := isAddress_wrap _ }
  | selectGlyph x =>
      cases executed
      exact { bounded with index := isAddress_glyph _ }
  | setDelay x =>
      cases executed
      exact { bounded with delay := isByte_toNat _ }
  | setSound x =>
      cases executed
      exact { bounded with sound := isByte_toNat _ }
  | skipIfEqual _ _ | skipUnlessEqual _ _ | skipIfSame _ _ | skipUnlessSame _ _
  | skipIfPressed _ | skipUnlessPressed _ =>
      cases executed
      exact bounded.skipWhen _
  | awaitKey x =>
      cases executed
      exact bounded.awaitKey x
  | _ =>
      cases executed
      exact { bounded with }

theorem refusal_of_bounded {m : Machine} (bounded : m.Bounded) {i : Instruction} {refusal : Refusal}
    (refused : m.execute i = .error refusal) : refusal = .stackOverflow ∨ refusal = .stackUnderflow := by
  cases i with
  | ret =>
      simp only [Machine.execute, Machine.ret] at refused
      split at refused <;> cases refused
      exact Or.inr rfl
  | call target =>
      simp only [Machine.execute, Machine.call] at refused
      split at refused <;> cases refused
      exact Or.inl rfl
  | readDelay x =>
      have fits : 0 ≤ m.timers.delay ∧ m.timers.delay < 256 := bounded.delay
      simp only [Machine.execute, Machine.readDelay, if_pos fits] at refused
      cases refused
  | storeDecimal x =>
      have address := ofAddress?_of_isAddress bounded.index
      simp only [Machine.execute, Machine.storeDecimal, address] at refused
      cases refused
  | _ => cases refused

/-! ## Cycles -/

theorem Bounded.cycle {m : Machine} (bounded : m.Bounded) : m.cycle.machine.Bounded := by
  rcases cycle_cases m with ⟨-, cycled⟩ | ⟨i, done, -, executed, cycled⟩ | ⟨i, refusal, -, -, cycled⟩
  · rw [cycled]
    exact bounded.advance
  · rw [cycled]
    exact bounded.advance.execute executed
  · rw [cycled]
    exact bounded.advance

theorem failure_cycle {m : Machine} (bounded : m.Bounded) {failure : Failure}
    (failed : m.cycle.failure = some failure) :
    ∃ pc, failure = .fault ⟨.unsupported m.fetch, pc⟩ ∨ failure = .fault ⟨.stackOverflow, pc⟩ ∨
      failure = .fault ⟨.stackUnderflow, pc⟩ := by
  obtain ⟨-, rfl⟩ | ⟨i, refusal, -, refused, rfl⟩ := failure_cases failed
  · exact ⟨_, Or.inl rfl⟩
  · rcases refusal_of_bounded bounded.advance refused with rfl | rfl
    · exact ⟨_, Or.inr (Or.inl rfl)⟩
    · exact ⟨_, Or.inr (Or.inr rfl)⟩

theorem Bounded.cycles {m : Machine} (bounded : m.Bounded) (count : Nat) :
    (m.cycles count).machine.Bounded := by
  induction count generalizing m with
  | zero => exact bounded
  | succ count ih =>
      cases first : m.cycle.failure with
      | none =>
          rw [cycles_of_success first]
          exact ih bounded.cycle
      | some failure =>
          rw [cycles_of_failure first]
          exact bounded.cycle

/-! ## Reachable machines -/

/-- A machine that comes out of a new one by whatever can happen to it. -/
inductive Reachable : Machine → Prop where
  | fresh (keyMap : KeyMap) (random : Random.Source) (rate : Int) :
      Reachable { fresh keyMap random with timers := { rate } }
  | load {m : Machine} (reached : Reachable m) (p : Program) : Reachable (m.load p)
  | cycle {m : Machine} (reached : Reachable m) : Reachable m.cycle.machine
  | press {m : Machine} (reached : Reachable m) (key : Option Int) : Reachable (m.press key)
  | replaceKeyMap {m : Machine} (reached : Reachable m) (keyMap : KeyMap) : Reachable { m with keyMap }
  | restartTimers {m : Machine} (reached : Reachable m) :
      Reachable { m with timers := m.timers.restart }
  | changeRate {m : Machine} (reached : Reachable m) (rate : Int) :
      Reachable { m with timers := { m.timers with rate } }
  | tick {m : Machine} (reached : Reachable m) {now : Binary64} {count : Int} {timers : Countdown Binary64}
      (ticked : m.timers.tick .binary64 now = .ok (count, timers)) : Reachable { m with timers }

theorem Bounded.tick {m : Machine} (bounded : m.Bounded) {now : Binary64} {count : Int}
    {timers : Countdown Binary64} (ticked : m.timers.tick .binary64 now = .ok (count, timers)) :
    Bounded { m with timers } := by
  obtain ⟨positive, delay, sound⟩ := Countdown.counters_tick ticked
  refine { bounded with delay := ?_, sound := ?_ }
  · rcases delay with same | lowered
    · exact same ▸ bounded.delay
    · exact lowered ▸ isByte_lower bounded.delay positive
  · rcases sound with same | lowered
    · exact same ▸ bounded.sound
    · exact lowered ▸ isByte_lower bounded.sound positive

theorem Reachable.bounded {m : Machine} (reached : m.Reachable) : m.Bounded := by
  induction reached with
  | fresh keyMap random rate => exact { bounded_fresh keyMap random with }
  | load _ p ih => exact ih.load p
  | cycle _ ih => exact ih.cycle
  | press _ key ih => exact { ih with }
  | replaceKeyMap _ keyMap ih => exact { ih with }
  | restartTimers _ ih => exact { ih with }
  | changeRate _ rate ih => exact { ih with }
  | tick _ ticked ih => exact ih.tick ticked

theorem Reachable.cycles {m : Machine} (reached : m.Reachable) (count : Nat) :
    (m.cycles count).machine.Reachable := by
  induction count generalizing m with
  | zero => exact reached
  | succ count ih =>
      cases first : m.cycle.failure with
      | none =>
          rw [cycles_of_success first]
          exact ih reached.cycle
      | some failure =>
          rw [cycles_of_failure first]
          exact reached.cycle

/-- Every reachable machine is within its bounds, and its next cycle succeeds or meets an unsupported
instruction, a full stack or an empty one. -/
theorem sound_of_reachable {m : Machine} (reached : m.Reachable) :
    m.memory.cells.toList.length = 4096 ∧ m.registers.cells.toList.length = 16 ∧
      m.screen.cells.toList.length = 2048 ∧ m.Bounded ∧
      ∀ failure, m.cycle.failure = some failure →
        ∃ pc, failure = .fault ⟨.unsupported m.fetch, pc⟩ ∨ failure = .fault ⟨.stackOverflow, pc⟩ ∨
          failure = .fault ⟨.stackUnderflow, pc⟩ :=
  ⟨Vector.length_toList, Vector.length_toList, Vector.length_toList, reached.bounded,
    fun _ failed => failure_cycle reached.bounded failed⟩

/-- A machine that has returned without a call and goes on. -/
theorem sound_after_underflow :
    let program : Program := ⟨[0x00, 0xEE], by decide, by decide⟩
    let new : Machine := { fresh .default .silent with timers := { rate := 50 } }
    let m := (new.load program).press (some 48)
    m.cycle.failure = some (.fault ⟨.stackUnderflow, 0x200⟩) ∧ m.cycle.machine.Bounded := by
  intro program new m
  have reached : m.Reachable := ((Reachable.fresh .default .silent 50).load program).press (some 48)
  exact ⟨by decide +kernel, (sound_of_reachable reached.cycle).2.2.2.1⟩

end Machine

end Chip8
