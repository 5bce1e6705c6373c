import Chip8.Proofs.Machine.Cycle
import Chip8.Session.Action

/-!
# The life of a session

Main statement: `coherent_run`, whatever happens to a session, its phase and the key that its machine
awaits fit the place where its thread stands.
-/

namespace Chip8.Session

/-- The thread has come to a stop or to its end, and the phase and the awaited key fit. -/
def Settled (s : Session) : Prop :=
  match s.position with
  | .absent | .fresh => False
  | .sleeping _ => s.phase = .running ∧ s.machine.awaiting = none ∧ s.machine.finished = false
  | .pausing => s.phase = .paused ∧ s.machine.awaiting = none
  | .awaitingKey _ => s.phase = .waitingForKey ∧ s.machine.awaiting.isSome = true
  | .done => s.phase.isFinal = true ∧ (s.phase = .terminated → s.machine.finished = true)

def Coherent (s : Session) : Prop :=
  match s.position with
  | .absent => s.phase = .idle ∧ s.machine.awaiting = none
  | .fresh => (s.phase = .running ∨ s.phase = .paused) ∧ s.machine.awaiting = none
  | _ => s.Settled

theorem Settled.coherent {s : Session} (settled : s.Settled) : s.Coherent := by
  unfold Coherent
  unfold Settled at settled ⊢
  split
  · rename_i position
    rw [position] at settled
    exact settled.elim
  · rename_i position
    rw [position] at settled
    exact settled.elim
  · exact settled

theorem Settled.position_ne_absent {s : Session} (settled : s.Settled) : s.position ≠ .absent := by
  intro absent
  simp [Settled, absent] at settled

theorem Coherent.isFinal_of_done {s : Session} (coherent : s.Coherent) (done : s.position = .done) :
    s.phase.isFinal = true := by
  simp only [Coherent, Settled, done] at coherent
  exact coherent.1

theorem Coherent.quiet_of_sleeping {s : Session} {duration : Binary64} (coherent : s.Coherent)
    (position : s.position = .sleeping duration) : s.machine.awaiting = none := by
  simp only [Coherent, Settled, position] at coherent
  exact coherent.2.1

theorem coherent_create (program : Program) (keyMap : KeyMap) (clockRate timerRate : Int)
    (random : Random.Source) : (create program keyMap clockRate timerRate random).Coherent :=
  ⟨rfl, rfl⟩

/-! ## The stops of the thread -/

theorem tickTimers_ok {s t : Session} (ticked : s.tickTimers = .ok t) :
    ∃ timers, t = { s with machine := { s.machine with timers } } := by
  simp only [tickTimers, bind, Except.bind, pure, Except.pure] at ticked
  split at ticked
  · cases ticked
  · cases ticked
    exact ⟨_, rfl⟩

theorem settled_finish {s : Session} {phase : Phase} (final : phase.isFinal = true)
    (finished : phase = .terminated → s.machine.finished = true) : (s.finish phase).Settled :=
  ⟨final, finished⟩

theorem settled_crash (s : Session) : s.crash.Settled :=
  settled_finish rfl nofun

theorem settled_fail (s : Session) (fault : Fault) : (s.fail fault).Settled :=
  settled_finish rfl nofun

theorem settled_goOn {s : Session} (quiet : s.machine.awaiting = none) : s.goOn.Settled := by
  unfold goOn
  split
  · exact settled_finish rfl nofun
  · split
    · rename_i finished
      exact settled_finish rfl fun _ => finished
    · rename_i going
      split
      · exact ⟨rfl, quiet, by simpa using going⟩
      · exact settled_crash _

theorem settled_proceed {s : Session} (quiet : s.machine.awaiting = none) : s.proceed.Settled := by
  unfold proceed
  split
  · exact ⟨rfl, quiet⟩
  · exact settled_goOn quiet

theorem settled_completeCycle {s : Session} (quiet : s.machine.awaiting = none) :
    s.completeCycle.Settled := by
  unfold completeCycle
  split
  · rename_i t ticked
    obtain ⟨timers, rfl⟩ := tickTimers_ok ticked
    exact settled_proceed quiet
  · exact settled_crash s

theorem settled_stopForKey {s : Session} (waiting : s.phase = .waitingForKey)
    (awaits : s.machine.awaiting.isSome = true) : s.stopForKey.Settled := by
  unfold stopForKey
  split
  · exact ⟨waiting, awaits⟩
  · exact settled_crash s

theorem settled_endKeyWait (s : Session) (outcome : Bool × Keypad) :
    (s.endKeyWait outcome).Settled := by
  obtain ⟨taken, keypad⟩ := outcome
  cases taken with
  | false => exact settled_finish rfl nofun
  | true => exact settled_completeCycle rfl

theorem settled_enterKeyWait {s : Session} (awaits : s.machine.awaiting.isSome = true) :
    s.enterKeyWait.Settled := by
  unfold enterKeyWait
  simp only
  split
  · exact settled_endKeyWait _ _
  · exact settled_stopForKey rfl awaits

/-! ## Turns and actions -/

/-- The session with its machine after one more cycle. -/
def cycled (s : Session) : Session :=
  { s with machine := s.machine.cycle.machine }

theorem executeCycle_cases (s : Session) :
    (s.broken = true ∧ s.executeCycle = s.crash) ∨
    (s.broken = false ∧
      ((∃ fault, s.machine.cycle.failure = some (.fault fault) ∧
          s.executeCycle = s.cycled.fail fault) ∨
        (∃ defect, s.machine.cycle.failure = some (.defect defect) ∧
          s.executeCycle = s.cycled.crash) ∨
        (s.machine.cycle.failure = none ∧ s.cycled.machine.awaiting.isSome = true ∧
          s.executeCycle = s.cycled.enterKeyWait) ∨
        (s.machine.cycle.failure = none ∧ s.cycled.machine.awaiting = none ∧
          s.executeCycle = s.cycled.completeCycle))) := by
  unfold executeCycle cycled
  cases sound : s.broken with
  | true => exact Or.inl ⟨rfl, rfl⟩
  | false =>
      refine Or.inr ⟨rfl, ?_⟩
      simp only [Bool.false_eq_true, if_false]
      rcases s.machine.cycle with ⟨machine, _ | (fault | defect)⟩
      · cases awaits : machine.awaiting with
        | none => exact Or.inr (Or.inr (Or.inr ⟨rfl, rfl, by simp [awaits]⟩))
        | some key => exact Or.inr (Or.inr (Or.inl ⟨rfl, rfl, by simp [awaits]⟩))
      · exact Or.inl ⟨fault, rfl, rfl⟩
      · exact Or.inr (Or.inl ⟨defect, rfl, rfl⟩)

theorem executeCycle_of_works {s : Session} (quiet : s.machine.awaiting = none)
    (sound : s.broken = false) (works : s.machine.cycle.failure = none) :
    s.executeCycle = if s.machine.missesKey then s.cycled.enterKeyWait else s.cycled.completeCycle := by
  have awaits : s.cycled.machine.awaiting.isSome = s.machine.missesKey :=
    Machine.isSome_awaiting_cycle quiet
  rcases executeCycle_cases s with ⟨broken, -⟩ | ⟨-, ⟨fault, failed, -⟩ | ⟨defect, failed, -⟩ |
    ⟨-, missed, waits⟩ | ⟨-, found, goes⟩⟩
  · simp [sound] at broken
  · simp [works] at failed
  · simp [works] at failed
  · rw [waits, if_pos (awaits ▸ missed)]
  · have takes : ¬ s.machine.missesKey = true := by simp [← awaits, found]
    rw [goes, if_neg takes]

theorem settled_executeCycle (s : Session) : s.executeCycle.Settled := by
  rcases executeCycle_cases s with ⟨-, ended⟩ | ⟨-, ⟨fault, -, ended⟩ | ⟨defect, -, ended⟩ |
    ⟨-, awaits, waits⟩ | ⟨-, quiet, goes⟩⟩
  · exact ended ▸ settled_crash s
  · exact ended ▸ settled_fail s.cycled fault
  · exact ended ▸ settled_crash s.cycled
  · exact waits ▸ settled_enterKeyWait awaits
  · exact goes ▸ settled_completeCycle quiet

theorem settled_takeTurn {s : Session} (coherent : s.Coherent) (present : s.position ≠ .absent) :
    s.takeTurn.Settled := by
  unfold Coherent at coherent
  unfold takeTurn
  split at coherent
  · rename_i absent
    exact absurd absent present
  · rename_i position
    simp only [position]
    exact settled_proceed coherent.2
  · have settled := coherent
    unfold Settled at coherent
    split at coherent <;> rename_i position <;> simp only [position]
    · exact coherent.elim
    · exact coherent.elim
    · exact settled_executeCycle s
    · unfold turnAtPause
      split
      · exact settled
      · exact settled_goOn coherent.2
    · unfold turnAtKeyWait
      split
      · exact settled_endKeyWait _ _
      · split
        · rename_i t ticked
          obtain ⟨timers, rfl⟩ := tickTimers_ok ticked
          exact settled_stopForKey coherent.1 coherent.2
        · exact settled_crash s
    · exact settled

theorem coherent_takeTurn {s : Session} (coherent : s.Coherent) : s.takeTurn.Coherent := by
  by_cases absent : s.position = .absent
  · simpa [takeTurn, absent] using coherent
  · exact (settled_takeTurn coherent absent).coherent

theorem coherent_restart (s : Session) (paused : Bool) : (s.restart paused).Coherent := by
  cases paused with
  | false => exact ⟨Or.inl rfl, rfl⟩
  | true => exact ⟨Or.inr rfl, rfl⟩

theorem start_eq_some {s t : Session} {paused : Bool} (started : s.start paused = some t) :
    s.position = .absent ∧
      t = { s with paused, phase := if paused then .paused else .running, position := .fresh } := by
  unfold start at started
  split at started <;> cases started
  rename_i absent
  exact ⟨absent, rfl⟩

theorem coherent_start {s t : Session} {paused : Bool} (coherent : s.Coherent)
    (started : s.start paused = some t) : t.Coherent := by
  obtain ⟨absent, rfl⟩ := start_eq_some started
  have quiet : s.machine.awaiting = none := by
    simp only [Coherent, absent] at coherent
    exact coherent.2
  cases paused with
  | false => exact ⟨Or.inl rfl, quiet⟩
  | true => exact ⟨Or.inr rfl, quiet⟩

theorem coherent_act {s : Session} (coherent : s.Coherent) (a : Action) : (s.act a).Coherent := by
  cases a with
  | start paused =>
      simp only [act]
      cases started : s.start paused with
      | none => exact coherent
      | some t => exact coherent_start coherent started
  | reset paused => exact coherent_restart _ _
  | togglePause =>
      simp only [act, togglePause]
      split <;> exact coherent
  | turn => exact coherent_takeTurn coherent
  | _ => exact coherent

theorem coherent_run {s : Session} (coherent : s.Coherent) (actions : List Action) :
    (s.run actions).Coherent := by
  induction actions generalizing s with
  | nil => exact coherent
  | cons a rest ih => exact ih (coherent_act coherent a)

end Chip8.Session
