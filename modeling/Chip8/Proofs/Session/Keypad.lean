import Chip8.Proofs.Session.Phases

/-!
# The keypad of a session

Main statement: `keypad_takeTurn`, a turn of the thread empties the keypad if it finds the key that its
instruction or its wait looks for, and leaves it alone otherwise.
-/

namespace Chip8

open Instruction (decode?)

namespace Machine

/-- The key that the next instruction consumes. -/
def takenKey? (m : Machine) : Option Int :=
  match decode? m.fetch with
  | some (.awaitKey x) => if m.isPressed x then some (m.wantedKey x) else none
  | _ => none

theorem keypad_execute {m done : Machine} {i : Instruction} (other : ∀ x, i ≠ .awaitKey x)
    (executed : m.execute i = .ok done) : done.keypad = m.keypad := by
  refine (agree_execute executed).keypad ?_
  cases i with
  | awaitKey x => exact absurd rfl (other x)
  | _ => rfl

theorem keypad_cycle (m : Machine) :
    m.cycle.machine.keypad = if m.takenKey?.isSome then {} else m.keypad := by
  rcases cycle_cases m with ⟨decoded, cycled⟩ | ⟨i, done, decoded, executed, cycled⟩ |
    ⟨i, refusal, decoded, refused, cycled⟩
  · simp [takenKey?, decoded, cycled, advance]
  · rw [cycled]
    cases i with
    | awaitKey x =>
        have same : m.advance.isPressed x = m.isPressed x := rfl
        cases executed
        simp only [takenKey?, decoded, awaitKey_eq, same]
        cases m.isPressed x <;> rfl
    | _ =>
        have kept : done.keypad = m.keypad := keypad_execute (m := m.advance) (by simp) executed
        simpa [takenKey?, decoded] using kept
  · cases i with
    | awaitKey x => simp [execute] at refused
    | _ => simp [takenKey?, decoded, cycled, advance]

theorem current_of_takenKey {m : Machine} {key : Int} (taken : m.takenKey? = some key) :
    m.keypad.current = some key := by
  unfold takenKey? at taken
  split at taken
  · split at taken
    · rename_i pressed
      cases taken
      exact of_decide_eq_true pressed
    · cases taken
  · cases taken

end Machine

namespace Session

/-- The key that the next turn of the thread consumes, with its instruction or at its wait. -/
def takenKey? (s : Session) : Option Int :=
  match s.position with
  | .sleeping _ => s.dueMachine?.bind Machine.takenKey?
  | .awaitingKey _ => if s.machine.keypad.current = s.machine.awaiting then s.machine.awaiting else none
  | _ => none

theorem current_of_takenKey {s : Session} {key : Int} (taken : s.takenKey? = some key) :
    s.machine.keypad.current = some key := by
  unfold takenKey? at taken
  split at taken
  · obtain ⟨m, due, taken⟩ := Option.bind_eq_some_iff.1 taken
    obtain ⟨rfl, -⟩ := takeTurn_of_due due
    exact Machine.current_of_takenKey taken
  · split at taken
    · rename_i there
      exact there.trans taken
    · cases taken
  · cases taken

theorem keypad_enterKeyWait {s : Session} (missed : s.machine.keypad.current ≠ s.machine.awaiting) :
    s.enterKeyWait.machine.keypad = s.machine.keypad := by
  rw [enterKeyWait_of_missed missed]
  dsimp only
  split
  · rfl
  · exact congrArg Machine.keypad (machine_stopForKey _)

theorem keypad_executeCycle {s : Session} (quiet : s.machine.awaiting = none) (sound : s.broken = false) :
    s.executeCycle.machine.keypad = if s.machine.takenKey?.isSome then {} else s.machine.keypad := by
  have awaits : s.cycled.machine.awaiting.isSome = s.machine.missesKey :=
    Machine.isSome_awaiting_cycle quiet
  rw [← Machine.keypad_cycle]
  rcases executeCycle_cases s with ⟨broken, -⟩ | ⟨-, ⟨fault, -, ended⟩ | ⟨defect, -, ended⟩ |
    ⟨-, missed, waits⟩ | ⟨-, -, goes⟩⟩
  · rw [sound] at broken
    cases broken
  · rw [ended]
    rfl
  · rw [ended]
    rfl
  · rw [waits]
    exact keypad_enterKeyWait (Machine.current_ne_awaiting_cycle (awaits ▸ missed))
  · rw [goes, machine_completeCycle]
    rfl

theorem keypad_turnAtKeyWait (s : Session) :
    s.turnAtKeyWait.machine.keypad =
      if s.machine.keypad.current = s.machine.awaiting then {} else s.machine.keypad := by
  by_cases there : s.machine.keypad.current = s.machine.awaiting
  · simp only [turnAtKeyWait, testKeyWait_of_there there, endKeyWait, machine_completeCycle, if_pos there]
  · simp only [turnAtKeyWait, testKeyWait_of_missed there, if_neg there]
    cases s.cancelled with
    | true => rfl
    | false =>
        simp only [Bool.false_eq_true, if_false]
        split
        · rename_i t ticked
          obtain ⟨timers, rfl⟩ := tickTimers_ok ticked
          exact (congrArg Machine.keypad (machine_stopForKey _)).trans rfl
        · rfl

/-- A turn consumes the key that its instruction or its wait finds, and leaves the keypad alone otherwise. -/
theorem keypad_takeTurn {s : Session} (coherent : s.Coherent) :
    s.takeTurn.machine.keypad = if s.takenKey?.isSome then {} else s.machine.keypad := by
  unfold takeTurn takenKey?
  cases position : s.position with
  | absent | done => rfl
  | fresh => exact congrArg Machine.keypad (machine_proceed s)
  | sleeping duration =>
      have quiet := coherent.quiet_of_sleeping position
      cases broken : s.broken with
      | true =>
          simp only [executeCycle, broken, dueMachine?, position, if_true]
          rfl
      | false =>
          simp only [keypad_executeCycle quiet broken, dueMachine?, position, broken]
          rfl
  | pausing =>
      simp only [turnAtPause]
      split
      · rfl
      · exact (congrArg Machine.keypad (machine_goOn _)).trans rfl
  | awaitingKey timeout =>
      have awaits : s.machine.awaiting.isSome = true := by
        simp only [Coherent, Settled, position] at coherent
        exact coherent.2
      rw [keypad_turnAtKeyWait]
      by_cases there : s.machine.keypad.current = s.machine.awaiting
      · simp only [if_pos there, awaits, if_true]
      · simp only [if_neg there, Option.isSome_none, Bool.false_eq_true, if_false]

theorem current_run_of_unpressed {s : Session} (released : s.machine.keypad.current = none)
    (coherent : s.Coherent) {actions : List Action} (unpressed : ∀ key, .press key ∉ actions) :
    (s.run actions).machine.keypad.current = none := by
  induction actions generalizing s with
  | nil => exact released
  | cons a rest ih =>
      refine ih ?_ (coherent_act coherent a) fun key member => unpressed key (List.mem_cons_of_mem a member)
      cases a with
      | press key => exact absurd List.mem_cons_self (unpressed key)
      | turn =>
          have turned := congrArg Keypad.current (keypad_takeTurn coherent)
          refine turned.trans ?_
          split
          · rfl
          · exact released
      | reset paused => rfl
      | _ =>
          refine (congrArg Keypad.current (keypad_act ?_ ?_)).trans released
          · simp
          · simp

end Session

end Chip8
