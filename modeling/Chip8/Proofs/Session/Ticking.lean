import Chip8.Proofs.Session.Frame

/-!
# The ticks of the timers

The thread ticks the timers at the end of a cycle and whenever a period of its key wait has passed. Main
statement: `timers_takeTurn`, the timers after a turn are what the instruction and the tick of that turn
make of them, except that a thread that leaves the pause restarts them.
-/

namespace Chip8

/-- A tick of the timers by the thread: where it stands, the rate and the reading of the clock. -/
structure Ticking where
  /-- Whether a period of the key wait has passed; otherwise a cycle is at its end. -/
  inKeyWait : Bool
  rate : Int
  reading : Binary64
  deriving DecidableEq

/-- The timers after a tick; one that fails leaves them as they were. -/
def Countdown.after (c : Countdown Binary64) (k : Ticking) : Countdown Binary64 :=
  match { c with rate := k.rate }.tick .binary64 k.reading with
  | .ok (_, ticked) => ticked
  | .error _ => c

namespace Session

def tickingAt (s : Session) (inKeyWait : Bool) : Ticking :=
  { inKeyWait, rate := s.timerRate, reading := s.now }

/-- Whether the next turn of a sleeping thread meets a crash or a failure of the machine. -/
def raises (s : Session) : Bool :=
  match s.position with
  | .sleeping _ => s.broken || s.machine.cycle.failure.isSome
  | _ => false

/-- Whether the next turn ends a wait while paused. -/
def leavesPause (s : Session) : Bool :=
  s.position = .pausing && (!s.paused || s.cancelled)

/-- The tick of the next turn, if it comes to one. -/
def ticking? (s : Session) : Option Ticking :=
  match s.position with
  | .sleeping _ => if s.raises || s.machine.missesKey then none else some (s.tickingAt false)
  | .awaitingKey _ =>
      match s.testKeyWait with
      | none => some (s.tickingAt true)
      | some (true, _) => some (s.tickingAt false)
      | some (false, _) => none
  | _ => none

theorem last_nextMachine (s : Session) : s.nextMachine.timers.last = s.machine.timers.last := by
  unfold nextMachine
  cases due : s.dueMachine? with
  | none => rfl
  | some m =>
      obtain ⟨rfl, -⟩ := takeTurn_of_due due
      exact congrArg Machine.Setup.last (Machine.setup_cycle s.machine)

/-! ## The stops of the thread -/

theorem tickTimers_cases (s : Session) (inKeyWait : Bool) :
    (∃ t, s.tickTimers = .ok t ∧
      t.machine = { s.machine with timers := s.machine.timers.after (s.tickingAt inKeyWait) }) ∨
    (∃ failure, s.tickTimers = .error failure ∧
      s.machine.timers.after (s.tickingAt inKeyWait) = s.machine.timers) := by
  simp only [tickTimers, Countdown.after, tickingAt, bind, Except.bind, pure, Except.pure]
  cases { s.machine.timers with rate := s.timerRate }.tick .binary64 s.now with
  | ok result => exact Or.inl ⟨_, rfl, rfl⟩
  | error failure => exact Or.inr ⟨failure, rfl, rfl⟩

theorem machine_goOn (s : Session) : s.goOn.machine = s.machine := by
  unfold goOn
  split
  · rfl
  · split
    · rfl
    · split <;> rfl

theorem machine_proceed (s : Session) : s.proceed.machine = s.machine := by
  unfold proceed
  split
  · rfl
  · exact machine_goOn s

theorem machine_stopForKey (s : Session) : s.stopForKey.machine = s.machine := by
  unfold stopForKey
  split <;> rfl

theorem machine_completeCycle (s : Session) :
    s.completeCycle.machine =
      { s.machine with timers := s.machine.timers.after (s.tickingAt false) } := by
  unfold completeCycle
  rcases s.tickTimers_cases false with ⟨t, ticked, machine⟩ | ⟨failure, failed, kept⟩
  · rw [ticked, ← machine]
    exact machine_proceed t
  · rw [failed, kept]
    rfl

theorem timers_endKeyWait (s : Session) (outcome : Bool × Keypad) :
    (s.endKeyWait outcome).machine.timers =
      if outcome.1 then s.machine.timers.after (s.tickingAt false) else s.machine.timers := by
  obtain ⟨taken, keypad⟩ := outcome
  cases taken with
  | false => rfl
  | true => exact congrArg Machine.timers (machine_completeCycle _)

/-! ## The test of the key wait -/

theorem testKeyWait_of_there {s : Session} (there : s.machine.keypad.current = s.machine.awaiting) :
    s.testKeyWait = some (true, {}) := by
  simp [testKeyWait, Keypad.waitFor, Keypad.waitOver, Keypad.isPressed, Keypad.take, there]

theorem testKeyWait_of_missed {s : Session} (missed : s.machine.keypad.current ≠ s.machine.awaiting) :
    s.testKeyWait = if s.cancelled then some (false, s.machine.keypad) else none := by
  simp [testKeyWait, Keypad.waitFor, Keypad.waitOver, Keypad.isPressed, Keypad.take, missed]

/-- A key that has just been missed is not there, so that the wait for it begins without a tick. -/
theorem timers_enterKeyWait {s : Session} (missed : s.machine.keypad.current ≠ s.machine.awaiting) :
    s.enterKeyWait.machine.timers = s.machine.timers := by
  unfold enterKeyWait
  simp only
  rw [testKeyWait_of_missed (by exact missed)]
  cases s.cancelled with
  | true => simp only [notify, if_true, timers_endKeyWait, Bool.false_eq_true, if_false]
  | false => exact congrArg Machine.timers (machine_stopForKey _)

/-! ## Turns -/

theorem timers_executeCycle {s : Session} (quiet : s.machine.awaiting = none) :
    s.executeCycle.machine.timers =
      if s.broken then s.machine.timers
      else if s.machine.cycle.failure.isSome || s.machine.missesKey then s.cycled.machine.timers
      else s.cycled.machine.timers.after (s.tickingAt false) := by
  have awaits : s.cycled.machine.awaiting.isSome = s.machine.missesKey :=
    Machine.isSome_awaiting_cycle quiet
  rcases executeCycle_cases s with ⟨broken, ended⟩ | ⟨sound, ⟨fault, failed, ended⟩ |
    ⟨defect, failed, ended⟩ | ⟨works, missed, waits⟩ | ⟨works, found, goes⟩⟩
  · rw [ended, broken]
    rfl
  · simp only [ended, sound, failed, Option.isSome_some, Bool.true_or, if_true]
    rfl
  · simp only [ended, sound, failed, Option.isSome_some, Bool.true_or, if_true]
    rfl
  · have misses : s.machine.missesKey = true := awaits ▸ missed
    simp only [waits, sound, works, misses, Bool.or_true, if_true]
    exact timers_enterKeyWait (Machine.current_ne_awaiting_cycle misses)
  · have takes : s.machine.missesKey = false := by rw [← awaits, found, Option.isSome_none]
    simp only [goes, sound, works, takes, Option.isSome_none, Bool.or_self]
    exact congrArg Machine.timers (machine_completeCycle s.cycled)

theorem timers_turnAtKeyWait (s : Session) :
    s.turnAtKeyWait.machine.timers =
      match s.testKeyWait with
      | none => s.machine.timers.after (s.tickingAt true)
      | some (true, _) => s.machine.timers.after (s.tickingAt false)
      | some (false, _) => s.machine.timers := by
  unfold turnAtKeyWait
  rcases s.testKeyWait with _ | ⟨_ | _, keypad⟩
  · rcases s.tickTimers_cases true with ⟨t, ticked, machine⟩ | ⟨failure, failed, kept⟩
    · simp only [ticked, machine_stopForKey, machine]
    · simp only [failed, kept]
      rfl
  · rfl
  · exact timers_endKeyWait s (true, keypad)

theorem timers_takeTurn {s : Session} (coherent : s.Coherent) :
    s.takeTurn.machine.timers =
      match s.ticking? with
      | some k => s.nextMachine.timers.after k
      | none => if s.leavesPause then s.nextMachine.timers.restart else s.nextMachine.timers := by
  cases position : s.position with
  | absent | done => simp [takeTurn, ticking?, leavesPause, nextMachine, dueMachine?, position]
  | fresh =>
      simp [takeTurn, ticking?, leavesPause, nextMachine, dueMachine?, position, machine_proceed]
  | sleeping duration =>
      simp only [takeTurn, position, timers_executeCycle (coherent.quiet_of_sleeping position)]
      cases broken : s.broken with
      | true => simp [ticking?, leavesPause, nextMachine, dueMachine?, raises, position, broken]
      | false =>
          cases stops : s.machine.cycle.failure.isSome || s.machine.missesKey <;>
            simp [ticking?, leavesPause, nextMachine, dueMachine?, raises, position, broken, stops, cycled]
  | pausing =>
      cases paused : s.paused <;> cases cancelled : s.cancelled <;>
        simp [takeTurn, turnAtPause, ticking?, leavesPause, nextMachine, dueMachine?, position, paused,
          cancelled, machine_goOn]
  | awaitingKey timeout =>
      simp only [takeTurn, position, timers_turnAtKeyWait, ticking?, leavesPause, nextMachine, dueMachine?]
      rcases s.testKeyWait with _ | ⟨_ | _, keypad⟩ <;> simp

end Session

end Chip8
