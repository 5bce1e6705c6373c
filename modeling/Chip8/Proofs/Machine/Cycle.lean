import Chip8.Proofs.Machine.Footprint

/-!
# What a cycle can do

Main statement: `cycle_cases`, a cycle meets no instruction, carries one out or refuses it, with what
follows for a cycle that works (`executed_of_works`) and for one that fails (`failure_cases`). Whatever
else is said of cycles rests on it, and on what each instruction does to a machine that has moved on.
-/

namespace Chip8.Machine

open Instruction (decode?)

theorem cycle_cases (m : Machine) :
    (decode? m.fetch = none ∧
      m.cycle = ⟨m.advance, some (.fault ⟨.unsupported m.fetch, wrap (m.advance.pc - 2)⟩)⟩) ∨
    (∃ i done, decode? m.fetch = some i ∧ m.advance.execute i = .ok done ∧ m.cycle = ⟨done, none⟩) ∨
    (∃ i refusal, decode? m.fetch = some i ∧ m.advance.execute i = .error refusal ∧
      m.cycle = ⟨m.advance, some (m.advance.failureOf refusal)⟩) := by
  cases decoded : decode? m.fetch with
  | none => exact Or.inl ⟨rfl, by simp only [cycle, decoded]⟩
  | some i =>
      cases executed : m.advance.execute i with
      | ok done => exact Or.inr (Or.inl ⟨i, done, rfl, executed, by simp only [cycle, decoded, executed]⟩)
      | error refusal =>
          exact Or.inr (Or.inr ⟨i, refusal, rfl, executed, by simp only [cycle, decoded, executed]⟩)

theorem executed_of_works {m : Machine} (works : m.cycle.failure = none) :
    ∃ i, decode? m.fetch = some i ∧ m.advance.execute i = .ok m.cycle.machine := by
  rcases cycle_cases m with ⟨-, cycled⟩ | ⟨i, done, decoded, executed, cycled⟩ | ⟨i, refusal, -, -, cycled⟩
  · rw [cycled] at works
    cases works
  · rw [cycled]
    exact ⟨i, decoded, executed⟩
  · rw [cycled] at works
    cases works

/-- A cycle that fails has met no instruction, or one that was refused. -/
theorem failure_cases {m : Machine} {failure : Failure} (failed : m.cycle.failure = some failure) :
    (decode? m.fetch = none ∧ failure = .fault ⟨.unsupported m.fetch, wrap (m.advance.pc - 2)⟩) ∨
    (∃ i refusal, decode? m.fetch = some i ∧ m.advance.execute i = .error refusal ∧
      failure = m.advance.failureOf refusal) := by
  rcases cycle_cases m with ⟨decoded, cycled⟩ | ⟨i, done, -, -, cycled⟩ |
    ⟨i, refusal, decoded, refused, cycled⟩
  · rw [cycled] at failed
    cases failed
    exact Or.inl ⟨decoded, rfl⟩
  · rw [cycled] at failed
    cases failed
  · rw [cycled] at failed
    cases failed
    exact Or.inr ⟨i, refusal, decoded, refused, rfl⟩

theorem machine_cycle_of_failure {m : Machine} {failure : Failure}
    (failed : m.cycle.failure = some failure) : m.cycle.machine = m.advance := by
  rcases cycle_cases m with ⟨-, cycled⟩ | ⟨i, done, -, -, cycled⟩ | ⟨i, refusal, -, -, cycled⟩
  · rw [cycled]
  · rw [cycled] at failed
    cases failed
  · rw [cycled]

/-! ## Cycles one after another -/

theorem cycles_of_failure {m : Machine} {failure : Failure} (fails : m.cycle.failure = some failure)
    (count : Nat) : m.cycles (count + 1) = m.cycle := by
  simp only [cycles]
  split
  · rename_i cycled
    simp [cycled] at fails
  · rfl

theorem cycles_of_success {m : Machine} (works : m.cycle.failure = none) (count : Nat) :
    m.cycles (count + 1) = m.cycle.machine.cycles count := by
  simp only [cycles]
  split
  · rename_i cycled
    rw [cycled]
  · rename_i going
    exact absurd (by rw [← works]) (going m.cycle.machine)

theorem cycles_succ {m : Machine} {count : Nat} (works : (m.cycles count).failure = none) :
    m.cycles (count + 1) = (m.cycles count).machine.cycle := by
  induction count generalizing m with
  | zero =>
      cases first : m.cycle.failure with
      | none =>
          rw [cycles_of_success first]
          exact congrArg (Cycle.mk _) first.symm
      | some failure => exact cycles_of_failure first 0
  | succ count ih =>
      cases first : m.cycle.failure with
      | none =>
          rw [cycles_of_success first] at works ⊢
          rw [cycles_of_success first]
          exact ih works
      | some failure =>
          rw [cycles_of_failure first, first] at works
          cases works

/-! ## What no instruction changes -/

theorem setup_cycle (m : Machine) : m.cycle.machine.setup = m.setup := by
  rcases cycle_cases m with ⟨-, cycled⟩ | ⟨i, done, -, executed, cycled⟩ | ⟨i, refusal, -, -, cycled⟩
  · rw [cycled]
    rfl
  · rw [cycled]
    exact (agree_execute executed).setup
  · rw [cycled]
    rfl

/-! ## The awaited key -/

/-- Whether the next instruction awaits a key that is not pressed. -/
def missesKey (m : Machine) : Bool :=
  match decode? m.fetch with
  | some (.awaitKey x) => !m.isPressed x
  | _ => false

theorem awaiting_execute {m done : Machine} {i : Instruction} (other : ∀ x, i ≠ .awaitKey x)
    (executed : m.execute i = .ok done) : done.awaiting = m.awaiting := by
  refine (agree_execute executed).awaiting ?_
  cases i with
  | awaitKey x => exact absurd rfl (other x)
  | _ => rfl

theorem missesKey_of_other {m : Machine} (other : ∀ x, decode? m.fetch ≠ some (.awaitKey x)) :
    m.missesKey = false := by
  unfold missesKey
  split
  · rename_i x decoded
    exact absurd decoded (other x)
  · rfl

/-- A machine that waits for no key waits for one after a cycle exactly if the key was missed. -/
theorem isSome_awaiting_cycle {m : Machine} (quiet : m.awaiting = none) :
    m.cycle.machine.awaiting.isSome = m.missesKey := by
  rcases cycle_cases m with ⟨decoded, cycled⟩ | ⟨i, done, decoded, executed, cycled⟩ |
    ⟨i, refusal, decoded, executed, cycled⟩
  · rw [cycled, missesKey_of_other (by simp [decoded])]
    simp [advance, quiet]
  · rw [cycled]
    by_cases waits : ∃ x, i = .awaitKey x
    · obtain ⟨x, rfl⟩ := waits
      have same : m.advance.isPressed x = m.isPressed x := rfl
      simp only [execute, awaitKey_eq, same, Except.ok.injEq] at executed
      simp only [missesKey, decoded, ← executed]
      cases m.isPressed x <;> simp [advance, quiet]
    · have other : ∀ x, i ≠ .awaitKey x := fun x same => waits ⟨x, same⟩
      rw [missesKey_of_other (by simpa [decoded] using other), awaiting_execute other executed]
      simp [advance, quiet]
  · have other : ∀ x, i ≠ .awaitKey x := by
      rintro x rfl
      simp [execute] at executed
    rw [cycled, missesKey_of_other (by simpa [decoded] using other)]
    simp [advance, quiet]

theorem failure_cycle_of_missesKey {m : Machine} (misses : m.missesKey = true) :
    m.cycle.failure = none := by
  unfold missesKey at misses
  split at misses
  · rename_i x decoded
    simp [cycle, decoded, execute]
  · cases misses

theorem current_ne_awaiting_cycle {m : Machine} (misses : m.missesKey = true) :
    m.cycle.machine.keypad.current ≠ m.cycle.machine.awaiting := by
  unfold missesKey at misses
  split at misses
  · rename_i x decoded
    have same : m.advance.isPressed x = m.isPressed x := rfl
    have unpressed : m.advance.isPressed x = false := by simpa [same] using misses
    have absent : m.advance.keypad.current ≠ some (m.advance.wantedKey x) := of_decide_eq_false unpressed
    simpa [cycle, decoded, execute, awaitKey_eq, unpressed] using absent
  · cases misses

end Chip8.Machine
