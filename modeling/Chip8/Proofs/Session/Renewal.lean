import Chip8.Proofs.Session.Cancellation

/-!
# Resets

A reset first ends the thread, with the turn that every cancelled thread is left with, and then starts the
program on a new machine. Main statement: `renewed_by_reset`, whatever state a session is in, a reset
leaves of it the rates, the random source and what the old thread still sent.
-/

namespace Chip8

namespace Session

variable {s : Session}

theorem haltNow_of_dead (dead : s.isLive = false) : s.haltNow = s.cancel := by
  cases position : s.position with
  | absent | done => simp [haltNow, takeTurn, cancel, position]
  | _ => simp [isLive, position] at dead

theorem dueMachine?_of_dead (dead : s.isLive = false) : s.dueMachine? = none := by
  cases position : s.position with
  | absent | done => simp only [dueMachine?, position]
  | _ => simp [isLive, position] at dead

theorem notifications_haltNow (coherent : s.Coherent) :
    s.haltNow.notifications = s.notifications ++ waitNotes s.dueMachine?.toList ++
      if s.isLive then [⟨.endOfExecution, s.haltNow.phase⟩] else [] := by
  cases live : s.isLive with
  | false =>
      rw [haltNow_of_dead live, dueMachine?_of_dead live]
      simp [cancel, waitNotes]
  | true =>
      have going : s.cancel.position ≠ .done := by
        intro done
        have done : s.position = .done := done
        simp [isLive, done] at live
      have ended : s.haltNow.ending? = some s.haltNow.phase :=
        if_pos (position_takeTurn_of_cancelled (s := s.cancel) coherent live rfl)
      rw [haltNow, notifications_takeTurn (s := s.cancel) coherent going, ← haltNow, ended]
      rfl

theorem Regular.phase_haltNow (regular : s.Regular) (live : s.isLive = true) :
    s.haltNow.phase = if s.raises then .failed else .cancelled :=
  phase_takeTurn_of_cancelled (s := s.cancel) { regular with } live rfl

end Session

namespace History

/-- A reset ends the old thread, which executes at most one more instruction, and only if it was sleeping,
and says so if it was live. What it leaves is the session as it was created, at the start of its thread,
with another random source, other rates and another clock. -/
theorem renewed_by_reset (program : Program) (keyMap : KeyMap) (clockRate timerRate : Int)
    (random : Random.Source) (before : List Action) (paused : Bool) :
    let new := Session.create program keyMap clockRate timerRate random
    let h := History.of new before
    let halted := h.session.haltNow
    let g := h.act (.reset paused)
    halted.isLive = false ∧
      g.executed = h.executed ++ h.session.dueMachine?.toList ∧
      g.session =
        { new with
          machine :=
            { new.machine with
              keypad := {}
              awaiting := none
              random := halted.machine.random
              timers := { delay := 0, sound := 0, rate := h.session.timerRate, last := none } }
          clockRate := h.session.clockRate
          timerRate := h.session.timerRate
          position := .fresh
          paused
          cancelled := false
          phase := if paused then .paused else .running
          fault := none
          broken := false
          notifications := halted.notifications
          now := h.session.now
          journal := halted.journal ++ [.programLoaded program.size, .machineReset] } ∧
      g.sent = h.sent ++ waitNotes h.session.dueMachine?.toList ++
        (if h.session.isLive then [⟨.endOfExecution, halted.phase⟩] else []) ∧
      (Session.ClockInRange before → h.session.isLive = true →
        halted.phase = if h.session.raises then .failed else .cancelled) := by
  intro new h halted g
  have faithful : h.Faithful := faithful_of program keyMap clockRate timerRate random before
  have settings : halted.settings = h.session.cancel.settings := Session.settings_takeTurn _
  have origin := Session.origin_run new before
  rw [← session_of] at origin
  refine ⟨Session.isLive_haltNow h.session, executed_act_eq faithful (.reset paused), ?_, ?_, ?_⟩
  · have sameProgram : halted.program = program := (congrArg Session.Settings.program settings).trans origin.1
    have sameKeyMap : halted.keyMap = keyMap := (congrArg Session.Settings.keyMap settings).trans origin.2
    have sameClockRate : halted.clockRate = h.session.clockRate := congrArg Session.Settings.clockRate settings
    have sameTimerRate : halted.timerRate = h.session.timerRate := congrArg Session.Settings.timerRate settings
    have sameClock : halted.now = h.session.now := congrArg Session.Settings.now settings
    have restarted : g.session = halted.restart paused := session_act h (.reset paused)
    rw [restarted, Session.restart, Session.renew, sameProgram, sameKeyMap, sameTimerRate]
    simp only [Session.report, sameClockRate, sameClock, List.append_assoc]
    rfl
  · have sent : g.sent = h.fetched ++ halted.notifications := rfl
    rw [sent, Session.notifications_haltNow faithful.coherent]
    simp only [History.sent, List.append_assoc]
    rfl
  · intro clock live
    apply Session.Regular.phase_haltNow ?_ live
    rw [session_of]
    exact Session.regular_run program keyMap clockRate timerRate random clock

/-- Reset while the instruction in flight raises a fault, after the program has overwritten itself. -/
theorem renewed_during_a_fault :
    let program : Program := ⟨[0xA2, 0x00, 0xF0, 0x55, 0x00, 0xEE], by decide, by decide⟩
    let before : List Action :=
      [.start false, .press (some 48), .changeTimerRate 10, .turn, .turn, .turn,
        .clock ⟨0x3FF0000000000000⟩]
    let h := History.of (.create program .default 700 60 .silent) before
    let g := h.act (.reset true)
    h.session.machine.memory.read 0x200 = 0 ∧ h.session.haltNow.fault.isSome = true ∧
      g.executed.length = 3 ∧ g.sent = [⟨.endOfExecution, .failed⟩] ∧
      g.session.machine.memory.read 0x200 = 0xA2 ∧ g.session.machine.keypad.current = none ∧
      g.session.fault = none ∧ g.session.phase = .paused ∧ g.session.machine.timers.rate = 70 := by
  intro program before h g
  have clock : Session.ClockInRange before := by
    intro now member
    obtain rfl : now = ⟨0x3FF0000000000000⟩ := by simpa [before] using member
    exact Session.second_within
  obtain ⟨-, executed, -, sent, phase⟩ := renewed_by_reset program .default 700 60 .silent before true
  have reached : h.session.machine.memory.read 0x200 = 0 ∧ h.session.haltNow.fault.isSome = true ∧
      (h.executed ++ h.session.dueMachine?.toList).length = 3 ∧
      h.sent ++ waitNotes h.session.dueMachine?.toList = [] ∧ h.session.isLive = true ∧
      h.session.raises = true := by decide +kernel
  obtain ⟨overwritten, faulted, count, silent, live, raises⟩ := reached
  rw [phase clock live, silent, live, raises] at sent
  exact ⟨overwritten, faulted, (congrArg List.length executed).trans count, sent, by decide +kernel⟩

end History

end Chip8
