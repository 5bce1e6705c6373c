import Chip8.Proofs.Machine.Bounds
import Chip8.Proofs.Session.Frame

/-!
# Independence of the schedule

Main statement: `core_independent_of_schedule`, as long as no instruction has read the delay timer or
the keypad, a session that is never reset has done to its machine what the bare cycles do to a fresh one,
however the turns of its thread and the actions of its host are interleaved.
-/

namespace Chip8

namespace Session

theorem act_of_host (s : Session) {a : Action} (host : a ≠ .turn) (kept : ∀ paused, a ≠ .reset paused) :
    (s.act a).machine.core = s.machine.core ∧ (s.act a).fault = s.fault ∧
      ((s.act a).position = .done ↔ s.position = .done) := by
  cases a with
  | turn => exact absurd rfl host
  | reset paused => exact absurd rfl (kept paused)
  | start paused =>
      simp only [act]
      cases started : s.start paused with
      | none => simp
      | some t =>
          obtain ⟨absent, rfl⟩ := start_eq_some started
          simp [absent]
  | togglePause =>
      simp only [act, togglePause]
      split <;> simp [pause, resume]
  | _ => exact ⟨rfl, rfl, Iff.rfl⟩

theorem Coherent.finished_of_due {s : Session} {m : Machine} (coherent : s.Coherent)
    (due : s.dueMachine? = some m) : m.finished = false := by
  obtain ⟨duration, position⟩ := position_of_due due
  obtain ⟨rfl, -⟩ := takeTurn_of_due due
  simp only [Coherent, Settled, position] at coherent
  exact coherent.2.2

theorem Coherent.finished_of_terminated {s : Session} (coherent : s.Coherent)
    (terminated : s.phase = .terminated) : s.machine.finished = true := by
  unfold Coherent Settled at coherent
  rw [terminated] at coherent
  cases position : s.position <;> simp_all

end Session

namespace History

/-- The machines whose next instruction has been executed in any of the runs, the first one first. -/
def executed (h : History) : List Machine :=
  h.records.flatMap Record.cycles

theorem executed_begin (h : History) (started : Session) : (h.begin started).executed = h.executed := by
  simp [executed, begin, records]

theorem executed_takeTurn {h : History} (faithful : h.Faithful) :
    h.takeTurn.executed = h.executed ++ h.session.dueMachine?.toList := by
  cases latest : h.latest with
  | none =>
      have absent := faithful.absent_iff.1 latest
      simp [executed, records, takeTurn, latest, Session.dueMachine?, absent]
  | some r => simp [executed, records, takeTurn, latest, Record.turned]

theorem executed_act (h : History) {a : Action} (host : a ≠ .turn) (kept : ∀ paused, a ≠ .reset paused) :
    (h.act a).executed = h.executed := by
  cases a with
  | turn => exact absurd rfl host
  | reset paused => exact absurd rfl (kept paused)
  | start paused =>
      simp only [act]
      split
      · exact executed_begin h _
      · rfl
  | _ => rfl

theorem executed_act_eq {h : History} (faithful : h.Faithful) (a : Action) :
    (h.act a).executed = h.executed ++ (h.session.atTurn Session.dueMachine? a).toList := by
  cases a with
  | turn => exact executed_takeTurn faithful
  | reset paused =>
      have cancelled : Faithful { h with session := h.session.cancel } :=
        faithful.of_same faithful.coherent rfl rfl rfl
      exact (executed_begin _ _).trans (executed_takeTurn cancelled)
  | _ =>
      rw [executed_act h (by simp) (by simp)]
      exact (List.append_nil _).symm

theorem executed_run {h : History} (faithful : h.Faithful) (actions : List Action) :
    (h.run actions).executed = h.executed ++ h.session.atTurns Session.dueMachine? actions := by
  induction actions generalizing h with
  | nil => exact (List.append_nil _).symm
  | cons a rest ih =>
      have later := ih (faithful.act a)
      rw [executed_act_eq faithful, session_act, List.append_assoc] at later
      exact later

end History

/-! ## The bare machine -/

/-- The session stands where the bare cycles stand that began at `start`, one for each machine of
`executed`: they have failed only if the thread has ended with a fault, which is that of the last one. -/
structure Follows (start : Machine) (executed : List Machine) (s : Session) : Prop where
  core : s.machine.core = (start.cycles executed.length).machine.core
  failure : (start.cycles executed.length).failure = s.fault.map .fault
  running : s.position ≠ .done → s.fault = none
  raised : ∀ fault, s.fault = some fault → ∃ k, executed.length = k + 1 ∧
    (start.cycles k).failure = none ∧ (start.cycles k).machine.cycle.failure = some (.fault fault)

theorem Follows.of_same {start : Machine} {executed : List Machine} {s t : Session}
    (follows : Follows start executed s) (core : t.machine.core = s.machine.core)
    (fault : t.fault = s.fault) (done : s.position = .done → t.position = .done) :
    Follows start executed t where
  core := core.trans follows.core
  failure := fault ▸ follows.failure
  running := fun going => fault.trans (follows.running fun ended => going (done ended))
  raised := fault ▸ follows.raised

theorem Follows.takeTurn {start : Machine} {executed : List Machine} {s : Session}
    (bounded : start.Bounded) (follows : Follows start executed s)
    (blind : ∀ m ∈ s.dueMachine?, m.readsHost = false) :
    Follows start (executed ++ s.dueMachine?.toList) s.takeTurn := by
  cases due : s.dueMachine? with
  | none =>
      rw [Option.toList_none, List.append_nil]
      have kept := Session.keeps_takeTurn due
      refine follows.of_same kept.core kept.fault ?_
      intro done
      simp [Session.takeTurn, done]
  | some m =>
      obtain ⟨rfl, outcome⟩ := Session.takeTurn_of_due due
      obtain ⟨duration, position⟩ := Session.position_of_due due
      have clear := follows.running (by simp [position])
      have worked : (start.cycles executed.length).failure = none := by
        rw [follows.failure, clear, Option.map_none]
      have count : (executed ++ (some s.machine).toList).length = executed.length + 1 := by simp
      have next : start.cycles (executed ++ (some s.machine).toList).length =
          (start.cycles executed.length).machine.cycle := by
        rw [count, Machine.cycles_succ worked]
      obtain ⟨core, failure⟩ := Machine.core_cycle follows.core (blind _ due)
      rw [← next] at core failure
      rcases outcome with ⟨fault, failed, ended⟩ | ⟨defect, failed, ended⟩ | ⟨works, kept⟩
      · rw [ended]
        refine ⟨core, failure.symm.trans failed, fun going => absurd rfl going, ?_⟩
        rintro _ ⟨⟩
        exact ⟨_, count, worked, next ▸ failure ▸ failed⟩
      · -- The bare machine stays within its bounds, where no cycle fails with a defect.
        rw [next] at failure
        obtain ⟨pc, fault | fault | fault⟩ :=
          Machine.failure_cycle (bounded.cycles executed.length) (failure ▸ failed) <;> cases fault
      · have unraised : s.takeTurn.fault = none := kept.fault.trans clear
        refine ⟨kept.core.trans core, ?_, fun _ => unraised, ?_⟩
        · rw [← failure, unraised]
          exact works
        · intro fault raised
          simp [unraised] at raised

namespace History

/-- The history has executed nothing past the end of the program, and as long as no instruction has read
the delay timer or the keypad it follows the bare machine. -/
structure Tracks (start : Machine) (h : History) : Prop where
  bounded : start.Bounded
  faithful : h.Faithful
  unfinished : ∀ m ∈ h.executed, m.finished = false
  follows : (∀ m ∈ h.executed, m.readsHost = false) → Follows start h.executed h.session

theorem tracks_create (program : Program) (keyMap keyMap' : KeyMap) (clockRate timerRate : Int)
    (random : Random.Source) :
    Tracks ((Machine.fresh keyMap' random).load program)
      { session := .create program keyMap clockRate timerRate random } where
  bounded := (Machine.bounded_fresh keyMap' random).load program
  faithful := faithful_create program keyMap clockRate timerRate random
  unfinished := by simp [executed, records]
  follows := fun _ => ⟨rfl, rfl, fun _ => rfl, nofun⟩

theorem Tracks.takeTurn {start : Machine} {h : History} (tracks : h.Tracks start) :
    h.takeTurn.Tracks start := by
  have executed := executed_takeTurn tracks.faithful
  refine ⟨tracks.bounded, tracks.faithful.takeTurn, ?_, ?_⟩
  · intro m member
    rw [executed] at member
    rcases List.mem_append.1 member with earlier | due
    · exact tracks.unfinished m earlier
    · exact tracks.faithful.coherent.finished_of_due (by simpa using due)
  · intro blind
    rw [executed] at blind ⊢
    have before := tracks.follows fun m earlier => blind m (List.mem_append_left _ earlier)
    refine before.takeTurn tracks.bounded ?_
    intro m due
    exact blind m (List.mem_append_right _ (by simpa using due))

theorem Tracks.act {start : Machine} {h : History} (tracks : h.Tracks start) {a : Action}
    (kept : ∀ paused, a ≠ .reset paused) : (h.act a).Tracks start := by
  by_cases turn : a = .turn
  · subst turn
    exact tracks.takeTurn
  · have executed := executed_act h turn kept
    obtain ⟨core, fault, done⟩ := Session.act_of_host h.session turn kept
    refine ⟨tracks.bounded, tracks.faithful.act a, ?_, ?_⟩
    · rw [executed]
      exact tracks.unfinished
    · rw [executed, session_act]
      intro blind
      exact (tracks.follows blind).of_same core fault done.2

theorem Tracks.run {start : Machine} {h : History} (tracks : h.Tracks start) {actions : List Action}
    (kept : ∀ paused, .reset paused ∉ actions) : (h.run actions).Tracks start := by
  induction actions generalizing h with
  | nil => exact tracks
  | cons a rest ih =>
      apply ih (tracks.act fun paused same => kept paused (by simp [same]))
      intro paused member
      exact kept paused (List.mem_cons_of_mem a member)

/-- A session that is never reset only executes instructions before the end of the program and only
terminates behind it. If none of the executed instructions has read the delay timer or the keypad, the
core of its machine is that of a fresh machine after as many bare cycles, which have not failed unless
the thread has ended with a fault, and then it is the last of them that raises this fault. -/
theorem core_independent_of_schedule (program : Program) (keyMap : KeyMap) (clockRate timerRate : Int)
    (random : Random.Source) (actions : List Action) (kept : ∀ paused, .reset paused ∉ actions) :
    let h := History.of (.create program keyMap clockRate timerRate random) actions
    (∀ m ∈ h.executed, m.pc < m.programEnd) ∧
      (h.session.phase = .terminated → h.session.machine.programEnd ≤ h.session.machine.pc) ∧
      ((∀ m ∈ h.executed, m.readsHost = false) → ∀ keyMap' : KeyMap,
        let bare := (Machine.fresh keyMap' random).load program
        h.session.machine.core = (bare.cycles h.executed.length).machine.core ∧
          (bare.cycles h.executed.length).failure = h.session.fault.map .fault ∧
          ∀ fault, h.session.fault = some fault →
            ∃ k, h.executed.length = k + 1 ∧ (bare.cycles k).failure = none ∧
              (bare.cycles k).machine.cycle.failure = some (.fault fault)) := by
  intro h
  have tracks (keyMap' : KeyMap) : h.Tracks ((Machine.fresh keyMap' random).load program) :=
    (tracks_create program keyMap keyMap' clockRate timerRate random).run kept
  refine ⟨?_, ?_, ?_⟩
  · intro m member
    simpa [Machine.finished] using (tracks keyMap).unfinished m member
  · intro terminated
    simpa [Machine.finished] using (tracks keyMap).faithful.coherent.finished_of_terminated terminated
  · intro blind keyMap' bare
    have follows := (tracks keyMap').follows blind
    exact ⟨follows.core, follows.failure, follows.raised⟩

/-- One instruction, with pauses before and after it and a key pressed meanwhile. -/
theorem core_after_pauses :
    let program : Program := ⟨[0x60, 0x05], by decide, by decide⟩
    let h := History.of (.create program .default 700 60 .silent)
      [.start true, .turn, .resume, .turn, .pause, .press (some 48), .turn, .resume, .turn]
    h.executed.length = 1 ∧ h.session.phase = .terminated ∧
      h.session.machine.core =
        (((Machine.fresh .default .silent).load program).cycles h.executed.length).machine.core := by
  intro program h
  have blind : ∀ m ∈ h.executed, m.readsHost = false := by decide +kernel
  refine ⟨by decide +kernel, by decide +kernel, ?_⟩
  exact ((core_independent_of_schedule program .default 700 60 .silent _ (by simp)).2.2 blind .default).1

end History

end Chip8
