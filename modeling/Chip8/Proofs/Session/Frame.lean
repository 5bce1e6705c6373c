import Chip8.Proofs.Machine.Core
import Chip8.Proofs.Session.History

/-!
# What a turn leaves alone

Main statements: `keeps_takeTurn`, a turn without a cycle leaves the settings of the host, the recorded
fault and the core of the machine alone; `takeTurn_of_due`, a turn with a cycle does what that cycle
does and then leaves them alone as well, unless the cycle raises a fault; `core_takeTurn` and
`settings_takeTurn`, a turn does to the core what its cycle does and nothing to the settings of the host.
-/

namespace Chip8.Session

/-- The thread may have moved, but nothing that it shares with the host or runs on has changed. -/
structure Keeps (s t : Session) : Prop where
  program : t.program = s.program
  keyMap : t.keyMap = s.keyMap
  clockRate : t.clockRate = s.clockRate
  timerRate : t.timerRate = s.timerRate
  broken : t.broken = s.broken
  paused : t.paused = s.paused
  cancelled : t.cancelled = s.cancelled
  now : t.now = s.now
  fault : t.fault = s.fault
  core : t.machine.core = s.machine.core

theorem keeps_refl (s : Session) : s.Keeps s := by
  constructor <;> rfl

theorem keeps_finish (s : Session) (phase : Phase) : s.Keeps (s.finish phase) := by
  constructor <;> rfl

theorem keeps_crash (s : Session) : s.Keeps s.crash := by
  constructor <;> rfl

theorem keeps_goOn (s : Session) : s.Keeps s.goOn := by
  unfold goOn
  split
  · exact keeps_finish s _
  · split
    · constructor <;> rfl
    · split <;> constructor <;> rfl

theorem keeps_proceed (s : Session) : s.Keeps s.proceed := by
  unfold proceed
  split
  · constructor <;> rfl
  · exact keeps_goOn s

theorem keeps_completeCycle (s : Session) : s.Keeps s.completeCycle := by
  unfold completeCycle
  split
  · rename_i t ticked
    obtain ⟨timers, rfl⟩ := tickTimers_ok ticked
    exact { keeps_proceed _ with }
  · exact keeps_crash s

theorem keeps_stopForKey (s : Session) : s.Keeps s.stopForKey := by
  unfold stopForKey
  split
  · constructor <;> rfl
  · exact keeps_crash s

theorem keeps_endKeyWait (s : Session) (outcome : Bool × Keypad) : s.Keeps (s.endKeyWait outcome) := by
  obtain ⟨taken, keypad⟩ := outcome
  cases taken with
  | false => exact keeps_finish s _
  | true => exact { keeps_completeCycle _ with }

theorem keeps_enterKeyWait (s : Session) : s.Keeps s.enterKeyWait := by
  unfold enterKeyWait
  simp only
  split
  · exact { keeps_endKeyWait _ _ with }
  · exact { keeps_stopForKey _ with }

theorem keeps_takeTurn {s : Session} (idle : s.dueMachine? = none) : s.Keeps s.takeTurn := by
  unfold takeTurn
  cases position : s.position with
  | absent | done => exact keeps_refl s
  | fresh => exact keeps_proceed s
  | sleeping duration =>
      have broken : s.broken = true := by simpa [dueMachine?, position] using idle
      simp only [executeCycle, broken, if_true]
      exact keeps_crash s
  | pausing =>
      simp only [turnAtPause]
      split
      · exact keeps_refl s
      · exact { keeps_goOn _ with }
  | awaitingKey timeout =>
      simp only [turnAtKeyWait]
      split
      · exact keeps_endKeyWait s _
      · split
        · rename_i t ticked
          obtain ⟨timers, rfl⟩ := tickTimers_ok ticked
          exact { keeps_stopForKey _ with }
        · exact keeps_crash s

theorem position_of_due {s : Session} {m : Machine} (due : s.dueMachine? = some m) :
    ∃ duration, s.position = .sleeping duration := by
  unfold dueMachine? at due
  split at due
  · exact ⟨_, by assumption⟩
  · cases due

theorem takeTurn_of_due {s : Session} {m : Machine} (due : s.dueMachine? = some m) :
    m = s.machine ∧
      ((∃ fault, s.machine.cycle.failure = some (.fault fault) ∧ s.takeTurn = s.cycled.fail fault) ∨
        (∃ defect, s.machine.cycle.failure = some (.defect defect) ∧ s.takeTurn = s.cycled.crash) ∨
        (s.machine.cycle.failure = none ∧ s.cycled.Keeps s.takeTurn)) := by
  obtain ⟨duration, position⟩ := position_of_due due
  have sound : s.broken = false ∧ s.machine = m := by simpa [dueMachine?, position] using due
  refine ⟨sound.2.symm, ?_⟩
  have turn : s.takeTurn = s.executeCycle := by simp only [takeTurn, position]
  rw [turn]
  rcases executeCycle_cases s with ⟨broken, -⟩ | ⟨-, raised | crashed | ⟨works, -, waits⟩ |
    ⟨works, -, goes⟩⟩
  · simp [sound.1] at broken
  · exact Or.inl raised
  · exact Or.inr (Or.inl crashed)
  · exact Or.inr (Or.inr ⟨works, waits ▸ keeps_enterKeyWait s.cycled⟩)
  · exact Or.inr (Or.inr ⟨works, goes ▸ keeps_completeCycle s.cycled⟩)

/-- The machine after the instruction of the next turn, if that turn executes one. -/
def nextMachine (s : Session) : Machine :=
  s.dueMachine?.elim s.machine fun m => m.cycle.machine

theorem core_takeTurn (s : Session) : s.takeTurn.machine.core = s.nextMachine.core := by
  unfold nextMachine
  cases due : s.dueMachine? with
  | none => exact (keeps_takeTurn due).core
  | some m =>
      obtain ⟨rfl, ⟨fault, -, ended⟩ | ⟨defect, -, ended⟩ | ⟨-, kept⟩⟩ := takeTurn_of_due due
      · rw [ended]
        rfl
      · rw [ended]
        rfl
      · exact kept.core

/-! ## Settings -/

/-- What only the host changes. -/
structure Settings where
  program : Program
  keyMap : KeyMap
  clockRate : Int
  timerRate : Int
  broken : Bool
  paused : Bool
  cancelled : Bool
  now : Binary64

def settings (s : Session) : Settings :=
  { s with }

theorem Keeps.settings {s t : Session} (kept : s.Keeps t) : t.settings = s.settings := by
  simp only [Session.settings, kept.program, kept.keyMap, kept.clockRate, kept.timerRate, kept.broken,
    kept.paused, kept.cancelled, kept.now]

theorem settings_takeTurn (s : Session) : s.takeTurn.settings = s.settings := by
  cases due : s.dueMachine? with
  | none => exact (keeps_takeTurn due).settings
  | some m =>
      obtain ⟨-, ⟨fault, -, ended⟩ | ⟨defect, -, ended⟩ | ⟨-, kept⟩⟩ := takeTurn_of_due due
      · rw [ended]
        rfl
      · rw [ended]
        rfl
      · exact kept.settings

/-! ## Actions of the host -/

theorem position_phase_act {s : Session} {a : Action} (host : a ≠ .turn)
    (kept : ∀ paused, a ≠ .reset paused) (present : s.position ≠ .absent) :
    (s.act a).position = s.position ∧ (s.act a).phase = s.phase := by
  cases a with
  | turn => exact absurd rfl host
  | reset paused => exact absurd rfl (kept paused)
  | start paused => simp [act, start, present]
  | togglePause =>
      simp only [act, togglePause]
      split <;> exact ⟨rfl, rfl⟩
  | _ => exact ⟨rfl, rfl⟩

theorem machine_act {s : Session} {a : Action} (host : a ≠ .turn) (kept : ∀ paused, a ≠ .reset paused) :
    (s.act a).machine = { s.machine with keypad := (s.act a).machine.keypad } := by
  cases a with
  | turn => exact absurd rfl host
  | reset paused => exact absurd rfl (kept paused)
  | start paused =>
      simp only [act]
      cases started : s.start paused with
      | none => rfl
      | some t =>
          obtain ⟨-, rfl⟩ := start_eq_some started
          rfl
  | togglePause =>
      simp only [act, togglePause]
      split <;> rfl
  | _ => rfl

theorem timers_act {s : Session} {a : Action} (host : a ≠ .turn) (kept : ∀ paused, a ≠ .reset paused) :
    (s.act a).machine.timers = s.machine.timers := by
  rw [machine_act host kept]

theorem cancelled_act {s : Session} {a : Action} (kept : ∀ paused, a ≠ .reset paused) :
    (s.act a).cancelled = (s.cancelled || a = .cancel) := by
  cases a with
  | reset paused => exact absurd rfl (kept paused)
  | start paused =>
      simp only [act]
      cases started : s.start paused with
      | none => simp
      | some t =>
          obtain ⟨-, rfl⟩ := start_eq_some started
          simp
  | togglePause =>
      simp only [act, togglePause]
      split <;> simp [pause, resume]
  | cancel => simp [act, cancel]
  | turn =>
      have same : s.takeTurn.cancelled = s.cancelled := congrArg Settings.cancelled (settings_takeTurn s)
      simp [act, same]
  | _ => simp [act, pause, resume, press, changeClockRate, changeTimerRate, report]

theorem cancelled_run_iff {s : Session} {actions : List Action}
    (kept : ∀ paused, .reset paused ∉ actions) :
    (s.run actions).cancelled = true ↔ s.cancelled = true ∨ .cancel ∈ actions := by
  induction actions generalizing s with
  | nil => simp [run]
  | cons a rest ih =>
      have first : (s.act a).cancelled = (s.cancelled || a = .cancel) := by
        apply cancelled_act
        exact fun paused same => kept paused (by simp [same])
      rw [run_cons, ih fun paused member => kept paused (List.mem_cons_of_mem a member), first,
        Bool.or_eq_true, decide_eq_true_iff, List.mem_cons, or_assoc, eq_comm (a := a)]

/-! ## The program and the mapping of the keys -/

theorem origin_act (s : Session) (a : Action) :
    (s.act a).program = s.program ∧ (s.act a).keyMap = s.keyMap := by
  have kept (t : Session) : t.takeTurn.program = t.program ∧ t.takeTurn.keyMap = t.keyMap :=
    ⟨congrArg Settings.program (settings_takeTurn t), congrArg Settings.keyMap (settings_takeTurn t)⟩
  cases a with
  | start paused =>
      simp only [act]
      cases started : s.start paused with
      | none => exact ⟨rfl, rfl⟩
      | some t =>
          obtain ⟨-, rfl⟩ := start_eq_some started
          exact ⟨rfl, rfl⟩
  | reset paused => exact kept s.cancel
  | togglePause =>
      simp only [act, togglePause]
      split <;> exact ⟨rfl, rfl⟩
  | turn => exact kept s
  | _ => exact ⟨rfl, rfl⟩

theorem origin_run (s : Session) (actions : List Action) :
    (s.run actions).program = s.program ∧ (s.run actions).keyMap = s.keyMap := by
  induction actions generalizing s with
  | nil => exact ⟨rfl, rfl⟩
  | cons a rest ih =>
      obtain ⟨program, keyMap⟩ := origin_act s a
      exact ⟨(ih (s.act a)).1.trans program, (ih (s.act a)).2.trans keyMap⟩

end Chip8.Session
