import Chip8.Proofs.Session.Regular

/-!
# Safety

Main statement: `never_crashes`, a session whose machine is not broken and whose clock stays in range
keeps its rates within their bounds, and its thread ends without a crash: a failed run has a fault.
-/

namespace Chip8.Session

open Countdown (maxReading)

structure Safe (s : Session) : Prop where
  clockRate : minClockRate ≤ s.clockRate ∧ s.clockRate ≤ maxClockRate
  timerRate : minTimerRate ≤ s.timerRate ∧ s.timerRate ≤ maxTimerRate
  bounded : s.machine.Bounded
  inRange : s.machine.timers.InRange
  reading : s.now.Within maxReading
  unbroken : s.broken = false
  uncrashed : .crashed ∉ s.journal
  failed : s.phase = .failed → s.fault.isSome = true

theorem Safe.regular {s : Session} (safe : s.Safe) : s.Regular :=
  { safe with }

theorem Safe.report {s : Session} (safe : s.Safe) {r : Report} (other : r ≠ .crashed) :
    (s.report r).Safe := by
  refine { safe with uncrashed := ?_ }
  intro member
  rcases List.mem_append.1 member with earlier | latest
  · exact safe.uncrashed earlier
  · exact other (List.mem_singleton.1 latest).symm

theorem Safe.finish {s : Session} (safe : s.Safe) {phase : Phase}
    (failed : phase = .failed → s.fault.isSome = true) : (s.finish phase).Safe := by
  have ended : Safe { s with phase, position := .done } := { safe with failed }
  exact { ended.report (r := .ended phase) nofun with }

theorem Safe.fail {s : Session} (safe : s.Safe) (fault : Fault) : (s.fail fault).Safe := by
  have raised : Safe { s with fault := some fault } := { safe with failed := fun _ => rfl }
  exact (raised.report (r := .faulted fault) nofun).finish fun _ => rfl

/-! ## Nothing on the thread raises -/

theorem Safe.clockPeriod {s : Session} (safe : s.Safe) :
    ∃ duration, Binary64.reciprocal s.clockRate = .ok duration :=
  safe.regular.clockPeriod

theorem Safe.timerPeriod {s : Session} (safe : s.Safe) :
    ∃ timeout, Binary64.reciprocal s.timerRate = .ok timeout :=
  safe.regular.timerPeriod

theorem Safe.tickTimers {s : Session} (safe : s.Safe) : ∃ t, s.tickTimers = .ok t ∧ t.Safe := by
  obtain ⟨count, timers, ticked, inRange⟩ :=
    Countdown.tick_within (c := { s.machine.timers with rate := s.timerRate }) safe.timerRate.1
      safe.timerRate.2 safe.reading safe.inRange
  have rated : Machine.Bounded { s.machine with timers := { s.machine.timers with rate := s.timerRate } } :=
    { safe.bounded with }
  refine ⟨{ s with machine := { s.machine with timers } }, ?_, ?_⟩
  · simp only [Session.tickTimers, ticked, bind, Except.bind, pure, Except.pure]
  · exact { safe with bounded := { rated.tick ticked with }, inRange }

/-! ## The stops of the thread -/

theorem Safe.goOn {s : Session} (safe : s.Safe) : s.goOn.Safe := by
  have running : Safe { s with phase := .running } := { safe with failed := nofun }
  unfold Session.goOn
  split
  · exact safe.finish nofun
  · split
    · exact running.finish nofun
    · obtain ⟨duration, isPeriod⟩ := safe.clockPeriod
      rw [isPeriod]
      exact { running with }

theorem Safe.proceed {s : Session} (safe : s.Safe) : s.proceed.Safe := by
  unfold Session.proceed
  split
  · exact { safe with failed := nofun }
  · exact safe.goOn

theorem Safe.completeCycle {s : Session} (safe : s.Safe) : s.completeCycle.Safe := by
  obtain ⟨t, ticked, safe⟩ := safe.tickTimers
  simp only [Session.completeCycle, ticked]
  exact safe.proceed

theorem Safe.stopForKey {s : Session} (safe : s.Safe) : s.stopForKey.Safe := by
  obtain ⟨timeout, isPeriod⟩ := safe.timerPeriod
  simp only [Session.stopForKey, isPeriod]
  exact { safe with }

theorem Safe.endKeyWait {s : Session} (safe : s.Safe) (outcome : Bool × Keypad) :
    (s.endKeyWait outcome).Safe := by
  obtain ⟨taken, keypad⟩ := outcome
  cases taken with
  | false => exact safe.finish nofun
  | true =>
      refine Safe.completeCycle { safe with bounded := ?_, failed := nofun }
      exact { safe.bounded with }

theorem Safe.enterKeyWait {s : Session} (safe : s.Safe) : s.enterKeyWait.Safe := by
  have waiting : Safe ({ s with phase := .waitingForKey }.notify .waitingForKey) :=
    { safe with failed := nofun }
  unfold Session.enterKeyWait
  simp only
  split
  · exact waiting.endKeyWait _
  · exact waiting.stopForKey

theorem Safe.cycled {s : Session} (safe : s.Safe) : s.cycled.Safe :=
  { safe.regular.cycled, safe with }

theorem Safe.executeCycle {s : Session} (safe : s.Safe) : s.executeCycle.Safe := by
  rcases executeCycle_cases s with ⟨broken, -⟩ | ⟨-, ⟨fault, -, ended⟩ | ⟨defect, failed, -⟩ |
    ⟨-, -, waits⟩ | ⟨-, -, goes⟩⟩
  · simp [safe.unbroken] at broken
  · exact ended ▸ safe.cycled.fail fault
  · obtain ⟨pc, fault | fault | fault⟩ := Machine.failure_cycle safe.bounded failed <;> cases fault
  · exact waits ▸ safe.cycled.enterKeyWait
  · exact goes ▸ safe.cycled.completeCycle

theorem Safe.takeTurn {s : Session} (safe : s.Safe) : s.takeTurn.Safe := by
  unfold Session.takeTurn
  split
  · exact safe
  · exact safe
  · exact safe.proceed
  · exact safe.executeCycle
  · unfold turnAtPause
    split
    · exact safe
    · exact Safe.goOn { safe with bounded := { safe.bounded with }, inRange := nofun }
  · unfold turnAtKeyWait
    split
    · exact safe.endKeyWait _
    · obtain ⟨t, ticked, safe⟩ := safe.tickTimers
      rw [ticked]
      exact safe.stopForKey

/-! ## Actions -/

theorem safe_create (program : Program) (keyMap : KeyMap) (clockRate timerRate : Int)
    (random : Random.Source) : (create program keyMap clockRate timerRate random).Safe :=
  { regular_create program keyMap clockRate timerRate random with
    unbroken := rfl
    uncrashed := by simp [create]
    failed := nofun }

theorem Safe.restart {s : Session} (safe : s.Safe) (paused : Bool) : (s.restart paused).Safe := by
  have renewed : s.renew.Safe :=
    { safe with
      bounded := bounded_buildMachine s.program s.keyMap s.timerRate s.machine.random
      inRange := nofun
      unbroken := rfl
      failed := nofun }
  have reported := (renewed.report (r := .programLoaded s.program.size) nofun).report
    (r := .machineReset) nofun
  refine { reported with failed := ?_ }
  cases paused <;> exact nofun

theorem Safe.start {s t : Session} (safe : s.Safe) {paused : Bool} (started : s.start paused = some t) :
    t.Safe := by
  obtain ⟨-, rfl⟩ := start_eq_some started
  refine { safe with failed := ?_ }
  cases paused <;> exact nofun

theorem Safe.changeClockRate {s : Session} (safe : s.Safe) (delta : Int) :
    (s.changeClockRate delta).Safe := by
  have changed : Safe { s with clockRate := stepRate s.clockRate delta minClockRate maxClockRate } :=
    { safe with clockRate := stepRate_bounds s.clockRate delta (by decide) }
  exact changed.report nofun

theorem Safe.changeTimerRate {s : Session} (safe : s.Safe) (delta : Int) :
    (s.changeTimerRate delta).Safe := by
  have changed : Safe { s with timerRate := stepRate s.timerRate delta minTimerRate maxTimerRate } :=
    { safe with timerRate := stepRate_bounds s.timerRate delta (by decide) }
  exact changed.report nofun

theorem Safe.act {s : Session} (safe : s.Safe) {a : Action} (sound : a ≠ .sabotage)
    (clock : ∀ now, a = .clock now → now.Within maxReading) : (s.act a).Safe := by
  cases a with
  | start paused =>
      simp only [Session.act]
      cases started : s.start paused with
      | none => exact safe
      | some t => exact safe.start started
  | reset paused =>
      have cancelled : s.cancel.Safe := { safe with }
      exact cancelled.takeTurn.restart paused
  | togglePause =>
      simp only [Session.act, togglePause]
      split <;> exact { safe with }
  | press key => exact { safe with bounded := { safe.bounded with } }
  | changeClockRate delta => exact safe.changeClockRate delta
  | changeTimerRate delta => exact safe.changeTimerRate delta
  | clock now => exact { safe with reading := clock now rfl }
  | sabotage => exact absurd rfl sound
  | turn => exact safe.takeTurn
  | _ => exact { safe with }

theorem Safe.run {s : Session} (safe : s.Safe) {actions : List Action} (sound : .sabotage ∉ actions)
    (clock : ∀ now, .clock now ∈ actions → now.Within maxReading) : (s.run actions).Safe := by
  induction actions generalizing s with
  | nil => exact safe
  | cons a rest ih =>
      apply ih
      · refine safe.act ?_ ?_
        · rintro rfl
          exact sound List.mem_cons_self
        · rintro now rfl
          exact clock now List.mem_cons_self
      · exact fun member => sound (List.mem_cons_of_mem a member)
      · exact fun now member => clock now (List.mem_cons_of_mem a member)

/-- Whatever the rates a session begins with and whatever its host does, short of breaking the machine:
its rates stay in their bounds, its thread never crashes, a run that has failed has a fault, and neither
the periods nor the timers raise anything. -/
theorem never_crashes (program : Program) (keyMap : KeyMap) (clockRate timerRate : Int)
    (random : Random.Source) (actions : List Action) (sound : .sabotage ∉ actions)
    (clock : ∀ now, .clock now ∈ actions → ∃ v, now.Reads v ∧ 0 ≤ v ∧ v ≤ 2 ^ 52) :
    let s := (create program keyMap clockRate timerRate random).run actions
    (200 ≤ s.clockRate ∧ s.clockRate ≤ 1000) ∧ (20 ≤ s.timerRate ∧ s.timerRate ≤ 80) ∧
      .crashed ∉ s.journal ∧
      (s.phase = .failed → ∃ pc, (∃ word, s.fault = some ⟨.unsupported word, pc⟩) ∨
        s.fault = some ⟨.stackOverflow, pc⟩ ∨ s.fault = some ⟨.stackUnderflow, pc⟩) ∧
      (∃ duration, Binary64.reciprocal s.clockRate = .ok duration) ∧
      (∃ timeout, Binary64.reciprocal s.timerRate = .ok timeout) ∧
      ∃ t, s.tickTimers = .ok t := by
  intro s
  have safe : s.Safe := (safe_create program keyMap clockRate timerRate random).run sound clock
  obtain ⟨t, ticked, -⟩ := safe.tickTimers
  refine ⟨safe.clockRate, safe.timerRate, safe.uncrashed, ?_, safe.clockPeriod, safe.timerPeriod,
    t, ticked⟩
  intro failed
  obtain ⟨⟨cause, pc⟩, raised⟩ := Option.isSome_iff_exists.1 (safe.failed failed)
  refine ⟨pc, ?_⟩
  cases cause with
  | unsupported word => exact Or.inl ⟨word, raised⟩
  | stackOverflow => exact Or.inr (Or.inl raised)
  | stackUnderflow => exact Or.inr (Or.inr raised)

/-- A return without a call, at rates out of bounds and a second and a half after the start. -/
theorem never_crashes_on_underflow :
    let program : Program := ⟨[0x00, 0xEE], by decide, by decide⟩
    let s := (create program .default (-5) 7000 .silent).run
      [.start false, .turn, .changeTimerRate 10, .clock ⟨0x3FF8000000000000⟩, .turn]
    s.phase = .failed ∧ s.clockRate = 200 ∧ s.timerRate = 80 ∧ .crashed ∉ s.journal := by
  intro program s
  have clock (now : Binary64) (member : Action.clock now ∈ [.start false, .turn, .changeTimerRate 10,
      .clock ⟨0x3FF8000000000000⟩, .turn]) : ∃ v, now.Reads v ∧ 0 ≤ v ∧ v ≤ 2 ^ 52 := by
    obtain rfl : now = ⟨0x3FF8000000000000⟩ := by simpa using member
    exact ⟨3 / 2, ⟨false, by decide +kernel⟩, by norm_num, by norm_num⟩
  refine ⟨by decide +kernel, by decide +kernel, by decide +kernel, ?_⟩
  exact (never_crashes program .default (-5) 7000 .silent _ (by simp) clock).2.2.1

end Chip8.Session
