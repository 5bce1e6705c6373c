import Chip8.Session.Command

/-!
# The end of a cancelled run

Main statement: `isLive_takeTurn_of_cancelled`, a cancelled thread ends within one turn, wherever it
stands. So `halt`, which gives one turn, leaves no live thread.
-/

namespace Chip8.Session

theorem position_finish (s : Session) (phase : Phase) : (s.finish phase).position = .done := rfl

theorem position_goOn_of_cancelled {s : Session} (cancelled : s.cancelled = true) :
    s.goOn.position = .done := by
  simp [goOn, cancelled, position_finish]

theorem position_proceed_of_cancelled {s : Session} (cancelled : s.cancelled = true) :
    s.proceed.position = .done := by
  simp [proceed, cancelled, position_goOn_of_cancelled]

theorem cancelled_of_tickTimers {s t : Session} (ticked : s.tickTimers = .ok t) :
    t.cancelled = s.cancelled := by
  simp only [tickTimers, bind, Except.bind, pure, Except.pure] at ticked
  split at ticked
  · cases ticked
  · cases ticked; rfl

theorem position_completeCycle_of_cancelled {s : Session} (cancelled : s.cancelled = true) :
    s.completeCycle.position = .done := by
  unfold completeCycle
  split
  case h_1 t ticked =>
    exact position_proceed_of_cancelled (by rw [cancelled_of_tickTimers ticked, cancelled])
  case h_2 => rfl

theorem position_endKeyWait_of_cancelled {s : Session} (cancelled : s.cancelled = true)
    (outcome : Bool × Keypad) : (s.endKeyWait outcome).position = .done := by
  obtain ⟨taken, keypad⟩ := outcome
  cases taken with
  | false => rfl
  | true => exact position_completeCycle_of_cancelled cancelled

theorem testKeyWait_of_cancelled {s : Session} (cancelled : s.cancelled = true) :
    s.testKeyWait = some (s.machine.keypad.take s.machine.awaiting) := by
  simp [testKeyWait, Keypad.waitFor, Keypad.waitOver, cancelled]

theorem position_enterKeyWait_of_cancelled {s : Session} (cancelled : s.cancelled = true) :
    s.enterKeyWait.position = .done := by
  unfold enterKeyWait
  simp only
  rw [testKeyWait_of_cancelled (by exact cancelled)]
  exact position_endKeyWait_of_cancelled (by exact cancelled) _

theorem position_executeCycle_of_cancelled {s : Session} (cancelled : s.cancelled = true) :
    s.executeCycle.position = .done := by
  unfold executeCycle
  split
  · rfl
  · split
    · rfl
    · rfl
    · dsimp only
      split
      · exact position_enterKeyWait_of_cancelled cancelled
      · exact position_completeCycle_of_cancelled cancelled

theorem isLive_takeTurn_of_cancelled {s : Session} (cancelled : s.cancelled = true) :
    s.takeTurn.isLive = false := by
  have ended {t : Session} (done : t.position = .done) : t.isLive = false := by simp [isLive, done]
  unfold takeTurn
  split
  case h_1 absent => simp [isLive, absent]
  case h_2 done => exact ended done
  case h_3 => exact ended (position_proceed_of_cancelled cancelled)
  case h_4 => exact ended (position_executeCycle_of_cancelled cancelled)
  case h_5 =>
    simp only [turnAtPause, cancelled, Bool.not_true, Bool.and_false, Bool.false_eq_true, if_false]
    exact ended (position_goOn_of_cancelled rfl)
  case h_6 =>
    simp only [turnAtKeyWait, testKeyWait_of_cancelled cancelled]
    exact ended (position_endKeyWait_of_cancelled cancelled _)

theorem isLive_halt (s : Session) : s.halt.isLive = false :=
  isLive_takeTurn_of_cancelled rfl

theorem isLive_haltNow (s : Session) : s.haltNow.isLive = false :=
  isLive_takeTurn_of_cancelled rfl

end Chip8.Session
