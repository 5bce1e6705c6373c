import Chip8.Proofs.Countdown.Range
import Chip8.Proofs.Machine.Bounds
import Chip8.Proofs.Session.Ticking

/-!
# Regular sessions

The rates, the machine and the clock of a regular session are within their bounds, whether or not its
machine has been broken. Main statements: `Regular.tickTimers`, the timers of a regular session tick, and
`regular_run`, a session whose clock stays in range stays regular.
-/

namespace Chip8

open Countdown (maxReading)

theorem Countdown.inRange_after {c : Countdown Binary64} {k : Ticking} (least : 20 ≤ k.rate)
    (most : k.rate ≤ 80) (reading : k.reading.Within maxReading) (inRange : c.InRange) :
    (c.after k).InRange := by
  obtain ⟨count, ticked, result, inRange⟩ :=
    tick_within (c := { c with rate := k.rate }) least most reading inRange
  simpa only [Countdown.after, result] using inRange

namespace Machine

theorem Bounded.tickAfter {m : Machine} (bounded : m.Bounded) (k : Ticking) :
    Bounded { m with timers := m.timers.after k } := by
  have rated : Bounded { m with timers := { m.timers with rate := k.rate } } := { bounded with }
  unfold Countdown.after
  split
  · rename_i result
    exact { rated.tick result with }
  · exact bounded

theorem Bounded.of_core {m n : Machine} (bounded : m.Bounded) (core : n.core = m.core)
    (delay : IsByte n.timers.delay) (sound : IsByte n.timers.sound) : n.Bounded where
  index := by
    have same : n.index = m.index := congrArg Core.index core
    exact same ▸ bounded.index
  pc := by
    have same : n.pc = m.pc := congrArg Core.pc core
    exact same ▸ bounded.pc
  depth := by
    have same : n.stack = m.stack := congrArg Core.stack core
    exact same ▸ bounded.depth
  stack := by
    have same : n.stack = m.stack := congrArg Core.stack core
    exact same ▸ bounded.stack
  delay := delay
  sound := sound
  programEnd := by
    have same : n.programEnd = m.programEnd := congrArg Core.programEnd core
    exact same ▸ bounded.programEnd

end Machine

namespace Session

structure Regular (s : Session) : Prop where
  clockRate : minClockRate ≤ s.clockRate ∧ s.clockRate ≤ maxClockRate
  timerRate : minTimerRate ≤ s.timerRate ∧ s.timerRate ≤ maxTimerRate
  bounded : s.machine.Bounded
  inRange : s.machine.timers.InRange
  reading : s.now.Within maxReading

theorem Regular.clockPeriod {s : Session} (regular : s.Regular) :
    ∃ duration, Binary64.reciprocal s.clockRate = .ok duration := by
  obtain ⟨least, most⟩ := regular.clockRate
  simp only [minClockRate, maxClockRate] at least most
  obtain ⟨duration, -, isPeriod, -⟩ := Binary64.reciprocal_near (by omega : 1 ≤ s.clockRate) most
  exact ⟨duration, isPeriod⟩

theorem Regular.timerPeriod {s : Session} (regular : s.Regular) :
    ∃ timeout, Binary64.reciprocal s.timerRate = .ok timeout := by
  obtain ⟨timeout, -, isPeriod, -⟩ := Countdown.period_of_rate regular.timerRate.1 regular.timerRate.2
  exact ⟨timeout, isPeriod⟩

theorem Regular.tickTimers {s : Session} (regular : s.Regular) :
    ∃ timers, s.tickTimers = .ok { s with machine := { s.machine with timers } } := by
  obtain ⟨count, timers, ticked, -⟩ :=
    Countdown.tick_within (c := { s.machine.timers with rate := s.timerRate }) regular.timerRate.1
      regular.timerRate.2 regular.reading regular.inRange
  exact ⟨timers, by simp only [Session.tickTimers, ticked, bind, Except.bind, pure, Except.pure]⟩

theorem Regular.cycled {s : Session} (regular : s.Regular) : s.cycled.Regular := by
  have kept : s.cycled.machine.timers.last = s.machine.timers.last :=
    congrArg Machine.Setup.last (Machine.setup_cycle s.machine)
  refine { regular with bounded := regular.bounded.cycle, inRange := ?_ }
  exact fun last first => regular.inRange last (kept ▸ first)

/-! ## Turns -/

theorem Regular.inRange_nextMachine {s : Session} (regular : s.Regular) :
    s.nextMachine.timers.InRange := by
  unfold nextMachine
  cases due : s.dueMachine? with
  | none => exact regular.inRange
  | some m =>
      obtain ⟨rfl, -⟩ := takeTurn_of_due due
      exact regular.cycled.inRange

theorem Regular.bounded_nextMachine {s : Session} (regular : s.Regular) : s.nextMachine.Bounded := by
  unfold nextMachine
  cases due : s.dueMachine? with
  | none => exact regular.bounded
  | some m =>
      obtain ⟨rfl, -⟩ := takeTurn_of_due due
      exact regular.cycled.bounded

theorem ticking?_eq_some {s : Session} {k : Ticking} (ticks : s.ticking? = some k) :
    k = s.tickingAt k.inKeyWait := by
  unfold ticking? at ticks
  split at ticks
  · split at ticks <;> cases ticks
    rfl
  · split at ticks <;> cases ticks <;> rfl
  · cases ticks

theorem Regular.timers_takeTurn {s : Session} (regular : s.Regular) (coherent : s.Coherent) :
    s.takeTurn.machine.timers.InRange ∧ IsByte s.takeTurn.machine.timers.delay ∧
      IsByte s.takeTurn.machine.timers.sound := by
  have inRange := regular.inRange_nextMachine
  have bounded := regular.bounded_nextMachine
  rw [Session.timers_takeTurn coherent]
  cases ticks : s.ticking? with
  | none =>
      dsimp only
      split
      · exact ⟨nofun, bounded.delay, bounded.sound⟩
      · exact ⟨inRange, bounded.delay, bounded.sound⟩
  | some k =>
      have rate : k.rate = s.timerRate := congrArg Ticking.rate (ticking?_eq_some ticks)
      have reading : k.reading = s.now := congrArg Ticking.reading (ticking?_eq_some ticks)
      have ticked := bounded.tickAfter k
      refine ⟨?_, ticked.delay, ticked.sound⟩
      exact Countdown.inRange_after (rate ▸ regular.timerRate.1) (rate ▸ regular.timerRate.2)
        (reading ▸ regular.reading) inRange

theorem Regular.takeTurn {s : Session} (regular : s.Regular) (coherent : s.Coherent) :
    s.takeTurn.Regular := by
  have settings := settings_takeTurn s
  have clockRate : s.takeTurn.clockRate = s.clockRate := congrArg Settings.clockRate settings
  have timerRate : s.takeTurn.timerRate = s.timerRate := congrArg Settings.timerRate settings
  have now : s.takeTurn.now = s.now := congrArg Settings.now settings
  obtain ⟨inRange, delay, sound⟩ := regular.timers_takeTurn coherent
  exact
    { clockRate := clockRate ▸ regular.clockRate
      timerRate := timerRate ▸ regular.timerRate
      bounded := regular.bounded_nextMachine.of_core (core_takeTurn s) delay sound
      inRange
      reading := now ▸ regular.reading }

/-! ## Actions -/

theorem stepRate_bounds (value delta : Int) {lowest highest : Int} (ordered : lowest ≤ highest) :
    lowest ≤ stepRate value delta lowest highest ∧ stepRate value delta lowest highest ≤ highest := by
  unfold stepRate
  omega

theorem bounded_buildMachine (program : Program) (keyMap : KeyMap) (timerRate : Int)
    (random : Random.Source) : (buildMachine program keyMap timerRate random).Bounded :=
  { (Machine.bounded_fresh keyMap random).load program with }

theorem regular_create (program : Program) (keyMap : KeyMap) (clockRate timerRate : Int)
    (random : Random.Source) : (create program keyMap clockRate timerRate random).Regular where
  clockRate := stepRate_bounds clockRate 0 (by decide)
  timerRate := stepRate_bounds timerRate 0 (by decide)
  bounded := bounded_buildMachine program keyMap _ random
  inRange := nofun
  reading := ⟨0, Binary64.reads_zero false, le_refl 0, by norm_num [maxReading]⟩

theorem Regular.restart {s : Session} (regular : s.Regular) (paused : Bool) :
    (s.restart paused).Regular :=
  { regular with
    bounded := bounded_buildMachine s.program s.keyMap s.timerRate s.machine.random
    inRange := nofun }

theorem Regular.act {s : Session} (regular : s.Regular) (coherent : s.Coherent) {a : Action}
    (clock : ∀ now, a = .clock now → now.Within maxReading) : (s.act a).Regular := by
  cases a with
  | start paused =>
      simp only [Session.act]
      cases started : s.start paused with
      | none => exact regular
      | some t =>
          obtain ⟨-, rfl⟩ := start_eq_some started
          exact { regular with }
  | reset paused =>
      have cancelled : s.cancel.Regular := { regular with }
      exact (cancelled.takeTurn coherent).restart paused
  | togglePause =>
      simp only [Session.act, togglePause]
      split <;> exact { regular with }
  | press key => exact { regular with bounded := { regular.bounded with } }
  | changeClockRate delta =>
      exact { regular with clockRate := stepRate_bounds s.clockRate delta (by decide) }
  | changeTimerRate delta =>
      exact { regular with timerRate := stepRate_bounds s.timerRate delta (by decide) }
  | clock now => exact { regular with reading := clock now rfl }
  | turn => exact regular.takeTurn coherent
  | _ => exact { regular with }

/-- The clock only ever comes to show a finite time in range. -/
def ClockInRange (actions : List Action) : Prop :=
  ∀ now, .clock now ∈ actions → now.Within maxReading

theorem second_within : (⟨0x3FF0000000000000⟩ : Binary64).Within maxReading :=
  ⟨1, ⟨false, by decide +kernel⟩, by norm_num, by norm_num [maxReading]⟩

theorem Regular.run {s : Session} (regular : s.Regular) (coherent : s.Coherent) {actions : List Action}
    (clock : ClockInRange actions) : (s.run actions).Regular := by
  induction actions generalizing s with
  | nil => exact regular
  | cons a rest ih =>
      apply ih
      · refine regular.act coherent ?_
        rintro now rfl
        exact clock now List.mem_cons_self
      · exact coherent_act coherent a
      · exact fun now member => clock now (List.mem_cons_of_mem a member)

theorem regular_run (program : Program) (keyMap : KeyMap) (clockRate timerRate : Int)
    (random : Random.Source) {actions : List Action} (clock : ClockInRange actions) :
    ((create program keyMap clockRate timerRate random).run actions).Regular :=
  (regular_create program keyMap clockRate timerRate random).run
    (coherent_create program keyMap clockRate timerRate random) clock

end Session

end Chip8
