import Chip8.Proofs.Machine.Cycle

/-!
# The core of a machine

The core is what a machine shares with nobody. Main statement: `core_cycle`, an instruction that reads
neither the delay timer nor the keypad does the same to machines with the same core, whatever their
timers, keys and key maps.
-/

namespace Chip8

/-- Whether the instruction reads the delay timer or the keypad. -/
def Instruction.readsHost : Instruction → Bool
  | .readDelay _ | .skipIfPressed _ | .skipUnlessPressed _ | .awaitKey _ => true
  | _ => false

namespace Machine

open Instruction (decode?)

structure Core where
  random : Random.Source
  memory : Memory
  registers : Registers
  index : Int
  pc : Int
  stack : List Int
  screen : Screen
  programEnd : Nat

def core (m : Machine) : Core :=
  { m with }

/-- The machine with another mapping of keys, other keys and other timers. -/
def rehosted (m : Machine) (host : Machine) : Machine :=
  { m with
    keyMap := host.keyMap
    keypad := host.keypad
    timers := host.timers
    awaiting := host.awaiting }

theorem eq_rehosted_of_core_eq {m n : Machine} (same : m.core = n.core) : m = n.rehosted m := by
  cases m
  cases n
  simp only [core, Core.mk.injEq] at same
  obtain ⟨rfl, rfl, rfl, rfl, rfl, rfl, rfl, rfl⟩ := same
  rfl

theorem core_skipWhen (condition : Bool) (m host : Machine) :
    ((m.rehosted host).skipWhen condition).core = (m.skipWhen condition).core := by
  cases condition <;> rfl

theorem core_execute (m host : Machine) {i : Instruction} (blind : i.readsHost = false) :
    ((m.rehosted host).execute i).map core = (m.execute i).map core := by
  cases i with
  | readDelay x | skipIfPressed x | skipUnlessPressed x | awaitKey x => cases blind
  | ret =>
      simp only [execute, ret, rehosted]
      cases m.stack <;> rfl
  | call target =>
      have same : (m.rehosted host).stack = m.stack := rfl
      simp only [execute, call, same]
      split <;> rfl
  | storeDecimal x =>
      simp only [execute, storeDecimal, rehosted]
      cases Defect.ofAddress? m.index <;> rfl
  | skipIfEqual x value => exact congrArg Except.ok (core_skipWhen _ m host)
  | skipUnlessEqual x value => exact congrArg Except.ok (core_skipWhen _ m host)
  | skipIfSame x y => exact congrArg Except.ok (core_skipWhen _ m host)
  | skipUnlessSame x y => exact congrArg Except.ok (core_skipWhen _ m host)
  | _ => rfl

def readsHost (m : Machine) : Bool :=
  (decode? m.fetch).any Instruction.readsHost

theorem core_cycle {m n : Machine} (same : m.core = n.core) (blind : m.readsHost = false) :
    m.cycle.machine.core = n.cycle.machine.core ∧ m.cycle.failure = n.cycle.failure := by
  have equal := eq_rehosted_of_core_eq same
  have fetched : m.fetch = n.fetch := by rw [equal]; rfl
  have moved : m.advance = n.advance.rehosted m := by rw [equal]; rfl
  rw [readsHost, fetched] at blind
  cases decoded : decode? n.fetch with
  | none =>
      simp only [cycle, fetched, decoded, moved]
      exact ⟨rfl, rfl⟩
  | some i =>
      have agrees := core_execute n.advance m (i := i) (by simpa [decoded] using blind)
      simp only [cycle, fetched, decoded, moved]
      cases left : (n.advance.rehosted m).execute i with
      | ok done =>
          cases right : n.advance.execute i with
          | ok done' =>
              rw [left, right] at agrees
              exact ⟨Except.ok.inj agrees, rfl⟩
          | error refusal =>
              rw [left, right] at agrees
              cases agrees
      | error refusal =>
          cases right : n.advance.execute i with
          | ok done =>
              rw [left, right] at agrees
              cases agrees
          | error refusal' =>
              rw [left, right] at agrees
              obtain rfl : refusal = refusal' := Except.error.inj agrees
              exact ⟨rfl, by cases refusal <;> rfl⟩

end Machine

end Chip8
