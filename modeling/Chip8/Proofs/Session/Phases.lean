import Chip8.Proofs.Session.KeyWait

/-!
# Phases

What the host sees of a session agrees with where its thread stands. Main statement:
`phase_fits_position`, in every session that the host and the thread can reach the phase, the recorded
fault and the awaited key are those of the place where the thread stands, and nothing but a reset takes a
session out of its final phase.
-/

namespace Chip8

namespace Session

variable {s : Session}

/-! ## Phases and positions -/

theorem Coherent.idle_iff (coherent : s.Coherent) : s.phase = .idle ↔ s.position = .absent := by
  simp only [Coherent, Settled] at coherent
  constructor
  · intro idle
    rw [idle] at coherent
    cases position : s.position <;> simp [position, Phase.isFinal] at coherent ⊢
  · intro absent
    rw [absent] at coherent
    exact coherent.1

theorem Coherent.isFinal_iff (coherent : s.Coherent) :
    s.phase.isFinal = true ↔ s.position = .done := by
  refine ⟨?_, coherent.isFinal_of_done⟩
  intro final
  simp only [Coherent, Settled] at coherent
  cases position : s.position with
  | done => rfl
  | fresh =>
      rw [position] at coherent
      rcases coherent.1 with phase | phase <;> simp [phase, Phase.isFinal] at final
  | absent | sleeping | pausing | awaitingKey =>
      rw [position] at coherent
      simp [coherent.1, Phase.isFinal] at final

/-! ## The recorded fault -/

/-- A recorded fault has ended the thread. -/
def FaultEnds (s : Session) : Prop :=
  s.fault.isSome = true → s.position = .done ∧ s.phase = .failed

theorem faultEnds_of_none (clear : s.fault = none) : s.FaultEnds := by
  intro faulted
  rw [clear] at faulted
  cases faulted

theorem FaultEnds.takeTurn (ends : s.FaultEnds) : s.takeTurn.FaultEnds := by
  by_cases done : s.position = .done
  · simpa [Session.takeTurn, done] using ends
  · have clear : s.fault = none := by
      cases fault : s.fault with
      | none => rfl
      | some f => exact absurd (ends (by rw [fault]; rfl)).1 done
    cases due : s.dueMachine? with
    | none => exact faultEnds_of_none ((keeps_takeTurn due).fault.trans clear)
    | some m =>
        obtain ⟨-, ⟨fault, -, ended⟩ | ⟨defect, -, ended⟩ | ⟨-, kept⟩⟩ := takeTurn_of_due due
        · rw [ended]
          exact fun _ => ⟨rfl, rfl⟩
        · rw [ended]
          exact faultEnds_of_none clear
        · exact faultEnds_of_none (kept.fault.trans clear)

theorem FaultEnds.act (ends : s.FaultEnds) (a : Action) : (s.act a).FaultEnds := by
  cases a with
  | start paused =>
      simp only [Session.act]
      cases started : s.start paused with
      | none => exact ends
      | some t =>
          obtain ⟨absent, rfl⟩ := start_eq_some started
          intro faulted
          have done := (ends faulted).1
          rw [absent] at done
          cases done
  | reset paused => exact faultEnds_of_none rfl
  | togglePause =>
      simp only [Session.act, togglePause]
      split <;> exact ends
  | turn => exact ends.takeTurn
  | _ => exact ends

theorem FaultEnds.run (ends : s.FaultEnds) (actions : List Action) : (s.run actions).FaultEnds := by
  induction actions generalizing s with
  | nil => exact ends
  | cons a rest ih => exact ih (ends.act a)

/-! ## The awaited key -/

/-- Only a thread that waits for a key, or has been cancelled at its wait, leaves a key awaited. -/
def QuietElsewhere (s : Session) : Prop :=
  s.machine.awaiting.isSome = true →
    (∃ timeout, s.position = .awaitingKey timeout) ∨ s.position = .done ∧ s.phase = .cancelled

theorem quietElsewhere_of_quiet (quiet : s.machine.awaiting = none) : s.QuietElsewhere := by
  intro awaits
  rw [quiet] at awaits
  cases awaits

theorem awaiting_cycled_of_failure (quiet : s.machine.awaiting = none) {failure : Failure}
    (failed : s.machine.cycle.failure = some failure) : s.cycled.machine.awaiting = none := by
  rw [cycled, Machine.machine_cycle_of_failure failed]
  exact quiet

theorem enterKeyWait_of_missed (missed : s.machine.keypad.current ≠ s.machine.awaiting) :
    s.enterKeyWait =
      let waiting := { s with phase := .waitingForKey }.notify .waitingForKey
      if s.cancelled then waiting.finish .cancelled else waiting.stopForKey := by
  have tested := testKeyWait_of_missed (s := { s with phase := .waitingForKey }.notify .waitingForKey)
    missed
  have same : ({ s with phase := .waitingForKey }.notify .waitingForKey).cancelled = s.cancelled := rfl
  rw [same] at tested
  simp only [enterKeyWait, tested]
  cases s.cancelled <;> rfl

theorem Regular.quietElsewhere_enterKeyWait (regular : s.Regular)
    (missed : s.machine.keypad.current ≠ s.machine.awaiting) : s.enterKeyWait.QuietElsewhere := by
  have waiting : Regular ({ s with phase := .waitingForKey }.notify .waitingForKey) := { regular with }
  rw [enterKeyWait_of_missed missed]
  dsimp only
  split
  · exact fun _ => Or.inr ⟨rfl, rfl⟩
  · exact fun _ => Or.inl (waiting.stopForKey rfl).1

theorem Regular.quietElsewhere_executeCycle (regular : s.Regular) (quiet : s.machine.awaiting = none) :
    s.executeCycle.QuietElsewhere := by
  have awaits : s.cycled.machine.awaiting.isSome = s.machine.missesKey :=
    Machine.isSome_awaiting_cycle quiet
  rcases executeCycle_cases s with ⟨-, ended⟩ | ⟨-, ⟨fault, failed, ended⟩ | ⟨defect, failed, ended⟩ |
    ⟨-, missed, waits⟩ | ⟨-, found, goes⟩⟩
  · rw [ended]
    exact quietElsewhere_of_quiet quiet
  · rw [ended]
    exact quietElsewhere_of_quiet (awaiting_cycled_of_failure quiet failed)
  · rw [ended]
    exact quietElsewhere_of_quiet (awaiting_cycled_of_failure quiet failed)
  · rw [waits]
    exact regular.cycled.quietElsewhere_enterKeyWait
      (Machine.current_ne_awaiting_cycle (awaits ▸ missed))
  · rw [goes]
    exact quietElsewhere_of_quiet ((congrArg Machine.awaiting (machine_completeCycle _)).trans found)

theorem Regular.quietElsewhere_takeTurn (regular : s.Regular) (coherent : s.Coherent)
    (before : s.QuietElsewhere) : s.takeTurn.QuietElsewhere := by
  cases position : s.position with
  | sleeping duration =>
      simp only [Session.takeTurn, position]
      exact regular.quietElsewhere_executeCycle (coherent.quiet_of_sleeping position)
  | awaitingKey timeout =>
      by_cases there : s.machine.keypad.current = s.machine.awaiting
      · rw [regular.takeTurn_of_there position there]
        exact quietElsewhere_of_quiet (congrArg Machine.awaiting (machine_proceed _))
      · cases clear : s.cancelled with
        | true =>
            simp only [Session.takeTurn, position, turnAtKeyWait, testKeyWait_of_missed there, clear, if_true,
              endKeyWait]
            exact fun _ => Or.inr ⟨rfl, rfl⟩
        | false =>
            obtain ⟨next, turned⟩ := regular.takeTurn_of_missed position clear there
            rw [turned]
            exact fun _ => Or.inl ⟨next, rfl⟩
  | absent | done => simpa [Session.takeTurn, position] using before
  | fresh =>
      simp only [Coherent, position] at coherent
      simp only [Session.takeTurn, position]
      exact quietElsewhere_of_quiet ((congrArg Machine.awaiting (machine_proceed s)).trans coherent.2)
  | pausing =>
      simp only [Coherent, Settled, position] at coherent
      simp only [Session.takeTurn, position, turnAtPause]
      split
      · exact before
      · exact quietElsewhere_of_quiet ((congrArg Machine.awaiting (machine_goOn _)).trans coherent.2)

theorem QuietElsewhere.act (before : s.QuietElsewhere) (regular : s.Regular) (coherent : s.Coherent)
    (a : Action) : (s.act a).QuietElsewhere := by
  cases a with
  | start paused =>
      simp only [Session.act]
      cases started : s.start paused with
      | none => exact before
      | some t =>
          obtain ⟨absent, rfl⟩ := start_eq_some started
          simp only [Coherent, absent] at coherent
          exact quietElsewhere_of_quiet coherent.2
  | reset paused => exact quietElsewhere_of_quiet rfl
  | togglePause =>
      simp only [Session.act, togglePause]
      split <;> exact before
  | turn => exact regular.quietElsewhere_takeTurn coherent before
  | _ => exact before

theorem QuietElsewhere.run (before : s.QuietElsewhere) (regular : s.Regular) (coherent : s.Coherent)
    {actions : List Action} (clock : ClockInRange actions) : (s.run actions).QuietElsewhere := by
  induction actions generalizing s with
  | nil => exact before
  | cons a rest ih =>
      apply ih (before.act regular coherent a)
      · apply regular.act coherent
        rintro now rfl
        exact clock now List.mem_cons_self
      · exact coherent_act coherent a
      · exact fun now member => clock now (List.mem_cons_of_mem a member)

/-! ## Where the awaited key comes from -/

theorem awaiting_endKeyWait (s : Session) (outcome : Bool × Keypad) :
    (s.endKeyWait outcome).machine.awaiting = none ∨
      (s.endKeyWait outcome).machine.awaiting = s.machine.awaiting := by
  obtain ⟨taken, keypad⟩ := outcome
  cases taken with
  | false => exact Or.inr rfl
  | true => exact Or.inl (congrArg Machine.awaiting (machine_completeCycle _))

theorem awaiting_enterKeyWait (s : Session) :
    s.enterKeyWait.machine.awaiting = none ∨ s.enterKeyWait.machine.awaiting = s.machine.awaiting := by
  unfold enterKeyWait
  simp only
  split
  · exact awaiting_endKeyWait _ _
  · exact Or.inr (congrArg Machine.awaiting (machine_stopForKey _))

theorem awaiting_executeCycle (sound : s.broken = false) :
    s.executeCycle.machine.awaiting = none ∨
      s.executeCycle.machine.awaiting = s.machine.cycle.machine.awaiting := by
  rcases executeCycle_cases s with ⟨broken, -⟩ | ⟨-, ⟨fault, -, ended⟩ | ⟨defect, -, ended⟩ |
    ⟨-, -, waits⟩ | ⟨-, -, goes⟩⟩
  · rw [sound] at broken
    cases broken
  · rw [ended]
    exact Or.inr rfl
  · rw [ended]
    exact Or.inr rfl
  · rw [waits]
    exact awaiting_enterKeyWait s.cycled
  · rw [goes, machine_completeCycle]
    exact Or.inr rfl

theorem awaiting_turnAtKeyWait (s : Session) :
    s.turnAtKeyWait.machine.awaiting = none ∨ s.turnAtKeyWait.machine.awaiting = s.machine.awaiting := by
  unfold turnAtKeyWait
  split
  · exact awaiting_endKeyWait s _
  · split
    · rename_i t ticked
      obtain ⟨timers, rfl⟩ := tickTimers_ok ticked
      exact Or.inr ((congrArg Machine.awaiting (machine_stopForKey _)).trans rfl)
    · exact Or.inr rfl

/-- A turn clears the awaited key, or leaves it as the instruction of the turn does. -/
theorem awaiting_takeTurn (s : Session) :
    s.takeTurn.machine.awaiting = none ∨ s.takeTurn.machine.awaiting = s.nextMachine.awaiting := by
  unfold takeTurn nextMachine dueMachine?
  cases s.position with
  | absent | done => exact Or.inr rfl
  | fresh => exact Or.inr (congrArg Machine.awaiting (machine_proceed s))
  | sleeping duration =>
      cases broken : s.broken with
      | true =>
          simp only [executeCycle, broken, if_true]
          exact Or.inr rfl
      | false => exact awaiting_executeCycle broken
  | pausing =>
      simp only [turnAtPause]
      split
      · exact Or.inr rfl
      · exact Or.inr ((congrArg Machine.awaiting (machine_goOn _)).trans rfl)
  | awaitingKey timeout => exact awaiting_turnAtKeyWait s

end Session

namespace History

/-- The awaited key is the one that the last instruction of the latest run has missed. -/
def AwaitsLast (h : History) : Prop :=
  h.session.machine.awaiting.isSome = true →
    ∃ r m, h.latest = some r ∧ r.cycles.getLast? = some m ∧ m.missesKey = true ∧
      m.cycle.machine.awaiting = h.session.machine.awaiting

theorem awaitsLast_of_quiet {h : History} (quiet : h.session.machine.awaiting = none) :
    h.AwaitsLast := by
  intro awaits
  rw [quiet] at awaits
  cases awaits

theorem AwaitsLast.of_same {h g : History} (last : h.AwaitsLast) (latest : g.latest = h.latest)
    (awaiting : g.session.machine.awaiting = h.session.machine.awaiting) : g.AwaitsLast := by
  intro awaits
  rw [awaiting] at awaits ⊢
  rw [latest]
  exact last awaits

theorem AwaitsLast.takeTurn {h : History} (last : h.AwaitsLast) (faithful : h.Faithful) :
    h.takeTurn.AwaitsLast := by
  intro awaits
  have same : h.session.takeTurn.machine.awaiting = h.session.nextMachine.awaiting := by
    rcases Session.awaiting_takeTurn h.session with cleared | same
    · simp [History.takeTurn, cleared] at awaits
    · exact same
  simp only [History.takeTurn, same] at awaits ⊢
  -- A turn without an instruction keeps both the awaited key and the last instruction.
  cases due : h.session.dueMachine? with
  | none =>
      simp only [Session.nextMachine, due, Option.elim_none] at awaits ⊢
      obtain ⟨r, m, latest, rest⟩ := last awaits
      refine ⟨r.turned h.session, m, by rw [latest]; rfl, ?_⟩
      simpa only [Record.turned, due, Option.toList_none, List.append_nil] using rest
  | some m =>
      obtain ⟨duration, position⟩ := Session.position_of_due due
      obtain ⟨rfl, -⟩ := Session.takeTurn_of_due due
      simp only [Session.nextMachine, due, Option.elim_some] at awaits ⊢
      have misses : h.session.machine.missesKey = true := by
        rw [← Machine.isSome_awaiting_cycle (faithful.coherent.quiet_of_sleeping position)]
        exact awaits
      cases latest : h.latest with
      | none =>
          rw [faithful.absent_iff.1 latest] at position
          cases position
      | some r =>
          refine ⟨r.turned h.session, h.session.machine, rfl, ?_, misses, rfl⟩
          simp only [Record.turned, due, Option.toList_some, List.getLast?_concat]

theorem AwaitsLast.act {h : History} (last : h.AwaitsLast) (faithful : h.Faithful) (a : Action) :
    (h.act a).AwaitsLast := by
  cases a with
  | start paused =>
      simp only [History.act]
      cases started : h.session.start paused with
      | none => exact last
      | some t =>
          obtain ⟨absent, rfl⟩ := Session.start_eq_some started
          have coherent := faithful.coherent
          simp only [Session.Coherent, absent] at coherent
          exact awaitsLast_of_quiet coherent.2
  | reset paused => exact awaitsLast_of_quiet rfl
  | togglePause =>
      refine last.of_same rfl ?_
      simp only [History.act, Session.act, Session.togglePause]
      split <;> rfl
  | turn => exact last.takeTurn faithful
  | _ => exact last.of_same rfl rfl

theorem AwaitsLast.run {h : History} (last : h.AwaitsLast) (faithful : h.Faithful)
    (actions : List Action) : (h.run actions).AwaitsLast := by
  induction actions generalizing h with
  | nil => exact last
  | cons a rest ih => exact ih (last.act faithful a) (faithful.act a)

/-- In every reachable session the phase tells where the thread stands. A fault is recorded only of a run
that has failed. A key is awaited only because the last instruction of the run has missed it, and then the
thread waits for it or, if its clock has stayed in range, has been cancelled at the wait. A final phase
lasts until a reset, and a session that has a thread refuses to start. -/
theorem phase_fits_position (program : Program) (keyMap : KeyMap) (clockRate timerRate : Int)
    (random : Random.Source) (actions : List Action) :
    let h := History.of (.create program keyMap clockRate timerRate random) actions
    let s := h.session
    (s.phase = .idle ↔ s.position = .absent) ∧
      (s.position = .fresh → s.phase = .running ∨ s.phase = .paused) ∧
      (∀ duration, s.position = .sleeping duration → s.phase = .running ∧ s.machine.awaiting = none) ∧
      (s.position = .pausing → s.phase = .paused ∧ s.machine.awaiting = none) ∧
      (∀ timeout, s.position = .awaitingKey timeout →
        s.phase = .waitingForKey ∧ s.machine.awaiting.isSome = true) ∧
      (s.phase.isFinal = true ↔ s.position = .done) ∧
      (s.fault.isSome = true → s.phase = .failed) ∧
      (s.machine.awaiting.isSome = true →
        (∃ r m, h.latest = some r ∧ r.cycles.getLast? = some m ∧ m.missesKey = true ∧
          m.cycle.machine.awaiting = s.machine.awaiting) ∧
        (Session.ClockInRange actions →
          (∃ timeout, s.position = .awaitingKey timeout) ∨
            s.position = .done ∧ s.phase = .cancelled)) ∧
      (s.phase.isFinal = true → ∀ more, (∀ paused, .reset paused ∉ more) →
        (s.run more).phase = s.phase) ∧
      (s.position ≠ .absent → ∀ paused, s.perform (.start paused) = (.refused, s)) := by
  intro h s
  have start := faithful_create program keyMap clockRate timerRate random
  have faithful : h.Faithful := start.run actions
  have coherent : s.Coherent := faithful.coherent
  have last : h.AwaitsLast := AwaitsLast.run (awaitsLast_of_quiet rfl) start actions
  have session : s = (Session.create program keyMap clockRate timerRate random).run actions :=
    session_of _ actions
  refine ⟨coherent.idle_iff, ?_, ?_, ?_, ?_, coherent.isFinal_iff, ?_, ?_, ?_, ?_⟩
  · intro position
    simp only [Session.Coherent, position] at coherent
    exact coherent.1
  · intro duration position
    simp only [Session.Coherent, Session.Settled, position] at coherent
    exact ⟨coherent.1, coherent.2.1⟩
  · intro position
    simpa only [Session.Coherent, Session.Settled, position] using coherent
  · intro timeout position
    simpa only [Session.Coherent, Session.Settled, position] using coherent
  · intro faulted
    have ends : s.FaultEnds := by
      rw [session]
      exact (Session.faultEnds_of_none rfl).run actions
    exact (ends faulted).2
  · intro awaits
    refine ⟨last awaits, fun clock => ?_⟩
    have quiet : s.QuietElsewhere := by
      rw [session]
      exact (Session.quietElsewhere_of_quiet rfl).run
        (Session.regular_create program keyMap clockRate timerRate random) start.coherent clock
    exact quiet awaits
  · intro final more kept
    have unmoved := unmoved_run_of_done faithful (coherent.isFinal_iff.1 final) kept
    rw [← session_run]
    exact unmoved.phase
  · intro present paused
    have refused : s.start paused = none := if_neg present
    simp only [Session.perform, refused]

/-- Cancelled at the wait for a key, which comes too late. -/
theorem phase_of_cancelled_wait :
    let program : Program := ⟨[0x60, 0x05, 0xF0, 0x0A, 0x70, 0x01], by decide, by decide⟩
    let actions : List Action :=
      [.start true, .turn, .resume, .turn, .turn, .turn, .clock ⟨0x3FF0000000000000⟩, .cancel, .turn]
    let h := History.of (.create program .default 700 60 .silent) actions
    h.session.position = .done ∧ h.session.phase = .cancelled ∧
      h.session.machine.awaiting = some 53 ∧
      (∃ r m, h.latest = some r ∧ r.cycles.getLast? = some m ∧ m.cycle.machine.awaiting = some 53) ∧
      (h.session.run [.press (some 53), .turn, .resume, .start false]).phase = .cancelled ∧
      h.session.perform (.start false) = (.refused, h.session) := by
  intro program actions h
  have clock : Session.ClockInRange actions := by
    intro now member
    obtain rfl : now = ⟨0x3FF0000000000000⟩ := by simpa [actions] using member
    exact Session.second_within
  obtain ⟨-, -, -, -, -, final, -, awaited, lasts, refuses⟩ :=
    phase_fits_position program .default 700 60 .silent actions
  have reached : h.session.machine.awaiting = some 53 ∧ h.session.position = .done := by decide +kernel
  obtain ⟨awaiting, done⟩ := reached
  have awaits : h.session.machine.awaiting.isSome = true := by rw [awaiting]; rfl
  obtain ⟨⟨r, m, latest, executed, -, missed⟩, place⟩ := awaited awaits
  have cancelled : h.session.phase = .cancelled := by
    rcases place clock with ⟨timeout, position⟩ | ⟨-, cancelled⟩
    · exact absurd (done.symm.trans position) nofun
    · exact cancelled
  have stays := lasts (final.2 done) [.press (some 53), .turn, .resume, .start false] (by simp)
  have present : h.session.position ≠ .absent := by rw [done]; nofun
  exact ⟨done, cancelled, awaiting, ⟨r, m, latest, executed, missed.trans awaiting⟩,
    stays.trans cancelled, refuses present false⟩

end History

end Chip8
