import Chip8.Proofs.Machine.Straight
import Chip8.Proofs.Session.Cancellation

/-!
# Runs of straight programs

A thread that runs a straight program executes its words one after another. Main statements: `Ready.turn`,
what one turn does to a thread that is about to execute a word; `Ready.run`, where any number of turns
takes it; `straight_run`, a run terminates behind the last word of its program, unless the program fills
the memory, when the program counter goes around to the font and the run fails there.
-/

namespace Chip8

open Instruction (decode?)

def Action.disturbs : Action → Bool
  | .pause | .togglePause | .cancel | .reset _ | .sabotage => true
  | _ => false

namespace Session

variable {s : Session}

/-! ## Before the first turn -/

/-- The machine is as the program was loaded into it, unless the thread has taken a turn. -/
def Loaded (s : Session) : Prop :=
  s.position = .absent ∨ s.position = .fresh →
    s.machine.memory = s.program.image ∧ s.machine.pc = programStart ∧
      s.machine.programEnd = s.program.finish

theorem loaded_restart (s : Session) (again : Bool) : (s.restart again).Loaded :=
  fun _ => ⟨rfl, rfl, rfl⟩

theorem loaded_act (coherent : s.Coherent) (loaded : s.Loaded) (a : Action) : (s.act a).Loaded := by
  cases a with
  | start paused =>
      simp only [act]
      cases started : s.start paused with
      | none => exact loaded
      | some t =>
          obtain ⟨absent, rfl⟩ := start_eq_some started
          exact fun _ => loaded (Or.inl absent)
  | reset again => exact loaded_restart _ again
  | togglePause =>
      simp only [act, togglePause]
      split <;> exact loaded
  | turn =>
      by_cases absent : s.position = .absent
      · simpa [act, takeTurn, absent] using loaded
      · intro early
        have settled := settled_takeTurn coherent absent
        rcases early with early | early <;> simp [Settled, act] at settled early <;>
          simp [early] at settled
  | _ => exact loaded

theorem loaded_run (coherent : s.Coherent) (loaded : s.Loaded) (actions : List Action) :
    (s.run actions).Loaded := by
  induction actions generalizing s with
  | nil => exact loaded
  | cons a rest ih => exact ih (coherent_act coherent a) (loaded_act coherent loaded a)

/-! ## The run goes on -/

theorem kept_of_quiet {a : Action} (quiet : a.disturbs = false) (paused : Bool) : a ≠ .reset paused := by
  rintro rfl
  cases quiet

/-- Nothing but the machine can stop the thread. -/
structure Undisturbed (s : Session) : Prop where
  unpaused : s.paused = false
  uncancelled : s.cancelled = false
  sound : s.broken = false

theorem Undisturbed.of_settings {t : Session} (undisturbed : s.Undisturbed)
    (settings : t.settings = s.settings) : t.Undisturbed where
  unpaused := (congrArg Settings.paused settings).trans undisturbed.unpaused
  uncancelled := (congrArg Settings.cancelled settings).trans undisturbed.uncancelled
  sound := (congrArg Settings.broken settings).trans undisturbed.sound

theorem Undisturbed.act (undisturbed : s.Undisturbed) (present : s.position ≠ .absent) {a : Action}
    (quiet : a.disturbs = false) : (s.act a).Undisturbed := by
  cases a with
  | start paused => simpa [Session.act, start, present] using undisturbed
  | pause | togglePause | cancel | reset again | sabotage => cases quiet
  | resume => exact { undisturbed with unpaused := rfl }
  | turn => exact undisturbed.of_settings (settings_takeTurn s)
  | _ => exact { undisturbed with }

def Terminated (s : Session) : Prop :=
  s.position = .done ∧ s.phase = .terminated

def Sleeps (s : Session) : Prop :=
  ∃ duration, s.position = .sleeping duration

theorem proceed_of_undisturbed (undisturbed : s.Undisturbed) {duration : Binary64}
    (isPeriod : Binary64.reciprocal s.clockRate = .ok duration) :
    if s.machine.finished then s.proceed.Terminated else s.proceed.Sleeps := by
  simp only [proceed, undisturbed.unpaused, Bool.false_and, Bool.false_eq_true, if_false, goOn,
    undisturbed.uncancelled, isPeriod]
  cases s.machine.finished with
  | true => exact ⟨rfl, rfl⟩
  | false => exact ⟨duration, rfl⟩

theorem executeCycle_of_undisturbed (regular : s.Regular) (undisturbed : s.Undisturbed)
    (quiet : s.machine.awaiting = none) (works : s.machine.cycle.failure = none)
    (takes : s.machine.missesKey = false) :
    if s.machine.cycle.machine.finished then s.executeCycle.Terminated else s.executeCycle.Sleeps := by
  obtain ⟨timers, ticked⟩ := regular.cycled.tickTimers
  obtain ⟨duration, isPeriod⟩ := regular.clockPeriod
  rw [executeCycle_of_works quiet undisturbed.sound works]
  simp only [takes, Bool.false_eq_true, if_false, completeCycle, ticked]
  have undisturbed : Undisturbed { s.cycled with machine := { s.cycled.machine with timers } } :=
    { undisturbed with }
  exact proceed_of_undisturbed undisturbed isPeriod

/-! ## One word after another -/

variable {p : Program} {k : Nat}

/-- The thread goes on with the word `k` of the program, or behind its last one. -/
structure AtWord (p : Program) (k : Nat) (s : Session) : Prop where
  undisturbed : s.Undisturbed
  regular : s.Regular
  coherent : s.Coherent
  memory : s.machine.memory = p.image
  pc : s.machine.pc = wrap (programStart + 2 * k)
  programEnd : s.machine.programEnd = p.finish

structure Ready (p : Program) (k : Nat) (s : Session) : Prop extends AtWord p k s where
  sleeps : s.Sleeps

theorem AtWord.act (there : AtWord p k s) (present : s.position ≠ .absent) {a : Action}
    (host : a ≠ .turn) (quiet : a.disturbs = false)
    (clock : ∀ now, a = .clock now → now.Within Countdown.maxReading) : AtWord p k (s.act a) := by
  have core := (act_of_host s host (kept_of_quiet quiet)).1
  exact
    { undisturbed := there.undisturbed.act present quiet
      regular := there.regular.act there.coherent clock
      coherent := coherent_act there.coherent a
      memory := (congrArg Machine.Core.memory core).trans there.memory
      pc := (congrArg Machine.Core.pc core).trans there.pc
      programEnd := (congrArg Machine.Core.programEnd core).trans there.programEnd }

theorem AtWord.takeTurn {next : Nat} (there : AtWord p k s) (memory : s.nextMachine.memory = p.image)
    (pc : s.nextMachine.pc = wrap (programStart + 2 * next))
    (programEnd : s.nextMachine.programEnd = p.finish) : AtWord p next s.takeTurn := by
  have core := core_takeTurn s
  exact
    { undisturbed := there.undisturbed.of_settings (settings_takeTurn s)
      regular := there.regular.takeTurn there.coherent
      coherent := coherent_takeTurn there.coherent
      memory := (congrArg Machine.Core.memory core).trans memory
      pc := (congrArg Machine.Core.pc core).trans pc
      programEnd := (congrArg Machine.Core.programEnd core).trans programEnd }

theorem finished_iff {m : Machine} (pc : m.pc = wrap (programStart + 2 * k))
    (programEnd : m.programEnd = p.finish) (inside : k ≤ p.wordCount) :
    m.finished = true ↔ k = p.wordCount ∧ p.size < 3583 := by
  have size := p.size_le
  have positive := p.size_pos
  simp only [maxProgramSize] at size
  simp only [Program.wordCount, Program.size] at inside ⊢
  -- Behind the last two bytes of memory the program counter goes around to zero.
  simp only [Machine.finished, pc, programEnd, Program.finish, Program.size, programStart, wrap,
    decide_eq_true_eq]
  omega

theorem AtWord.turn_of_fresh (there : AtWord p 0 s) (fresh : s.position = .fresh) :
    Ready p 0 s.takeTurn := by
  have same : s.nextMachine = s.machine := by simp [nextMachine, dueMachine?, fresh]
  obtain ⟨duration, isPeriod⟩ := there.regular.clockPeriod
  have stops := proceed_of_undisturbed there.undisturbed isPeriod
  have going : ¬ (0 = p.wordCount ∧ p.size < 3583) := by
    have positive := p.size_pos
    simp only [Program.wordCount, Program.size]
    omega
  simp only [finished_iff there.pc there.programEnd (Nat.zero_le _), if_neg going] at stops
  refine { there.takeTurn ?_ ?_ ?_ with sleeps := ?_ }
  · exact same ▸ there.memory
  · exact same ▸ there.pc
  · exact same ▸ there.programEnd
  · simpa only [Session.takeTurn, fresh] using stops

theorem Ready.act (ready : Ready p k s) {a : Action} (host : a ≠ .turn) (quiet : a.disturbs = false)
    (clock : ∀ now, a = .clock now → now.Within Countdown.maxReading) : Ready p k (s.act a) := by
  obtain ⟨duration, position⟩ := ready.sleeps
  have present : s.position ≠ .absent := by simp [position]
  have same := (position_phase_act host (kept_of_quiet quiet) present).1
  exact { ready.toAtWord.act present host quiet clock with sleeps := ⟨duration, same.trans position⟩ }

theorem Ready.due (ready : Ready p k s) : s.dueMachine? = some s.machine := by
  obtain ⟨duration, position⟩ := ready.sleeps
  simp [dueMachine?, position, ready.undisturbed.sound]

theorem Ready.next (ready : Ready p k s) : s.nextMachine = s.machine.cycle.machine := by
  rw [nextMachine, ready.due]
  rfl

theorem Ready.takeTurn_eq (ready : Ready p k s) : s.takeTurn = s.executeCycle := by
  obtain ⟨duration, position⟩ := ready.sleeps
  simp only [Session.takeTurn, position]

theorem Ready.decoded (ready : Ready p k s) (straight : p.isStraight = true)
    (inside : k < p.wordCount) : ∃ i, decode? s.machine.fetch = some i ∧ i.isStraight = true := by
  have size := p.size_le
  have here : s.machine.pc = programStart + 2 * k := by
    simp only [Program.wordCount, Program.size, maxProgramSize] at inside size
    rw [ready.pc, wrap, programStart]
    omega
  rw [Machine.fetch_image ready.memory inside here]
  exact Program.decode?_word straight inside

theorem Ready.turn_of_straight (ready : Ready p k s) (straight : p.isStraight = true)
    (inside : k < p.wordCount) :
    if k + 1 = p.wordCount ∧ p.size < 3583 then s.takeTurn.Terminated
    else Ready p (k + 1) s.takeTurn := by
  obtain ⟨i, decoded, isStraight⟩ := ready.decoded straight inside
  obtain ⟨works, takes, pc, memory⟩ :=
    Machine.cycle_of_straight ready.regular.bounded decoded isStraight
  have quiet : s.machine.awaiting = none := by
    obtain ⟨duration, position⟩ := ready.sleeps
    exact ready.coherent.quiet_of_sleeping position
  have pc : s.machine.cycle.machine.pc = wrap (programStart + 2 * (k + 1 : Nat)) := by
    rw [pc, ready.pc]
    simp only [wrap]
    omega
  have programEnd : s.machine.cycle.machine.programEnd = p.finish :=
    (congrArg Machine.Setup.programEnd (Machine.setup_cycle s.machine)).trans ready.programEnd
  have stops := executeCycle_of_undisturbed ready.regular ready.undisturbed quiet works takes
  simp only [finished_iff pc programEnd inside, ← ready.takeTurn_eq] at stops
  split
  · rename_i last
    rwa [if_pos last] at stops
  · rename_i going
    rw [if_neg going] at stops
    refine { ready.takeTurn ?_ ?_ ?_ with sleeps := stops }
    · rw [ready.next, memory, ready.memory]
    · rw [ready.next, pc]
    · rw [ready.next, programEnd]

structure Ended (p : Program) (s : Session) : Prop where
  done : s.position = .done
  phase : s.phase = if p.size < 3583 then .terminated else .failed
  fault : 3583 ≤ p.size → s.fault = some ⟨.unsupported 0xF090, 0⟩

theorem Ready.turn_of_wrapped (ready : Ready p p.wordCount s) (full : 3583 ≤ p.size) :
    s.takeTurn.Ended p := by
  have wrapped : s.machine.pc = 0 := by
    have size := p.size_le
    simp only [Program.size, maxProgramSize] at full size
    simp only [ready.pc, wrap, programStart, Program.wordCount, Program.size]
    omega
  have failed := Machine.cycle_of_font (Machine.fetch_image_wrapped ready.memory wrapped) wrapped
  have long : ¬ p.size < 3583 := Nat.not_lt.2 full
  obtain ⟨-, ⟨fault, raised, ended⟩ | ⟨defect, crashed, -⟩ | ⟨works, -⟩⟩ := takeTurn_of_due ready.due
  · obtain rfl : fault = ⟨.unsupported 0xF090, 0⟩ := by simpa [failed] using raised.symm
    rw [ended]
    exact ⟨rfl, (if_neg long).symm, fun _ => rfl⟩
  · simp [failed] at crashed
  · simp [failed] at works

end Session

/-- The number of instructions that a run of a straight program executes, the one that fails included. -/
def Program.runLength (p : Program) : Nat :=
  if p.size < 3583 then p.wordCount else p.wordCount + 1

namespace Session

variable {s : Session} {p : Program} {k : Nat}

theorem Ready.turn (ready : Ready p k s) (straight : p.isStraight = true) (inside : k < p.runLength) :
    if k + 1 = p.runLength then s.takeTurn.Ended p else Ready p (k + 1) s.takeTurn := by
  unfold Program.runLength at inside ⊢
  by_cases short : p.size < 3583
  · rw [if_pos short] at inside ⊢
    have stops := ready.turn_of_straight straight inside
    simp only [short, and_true] at stops
    split
    · rename_i last
      rw [if_pos last] at stops
      exact ⟨stops.1, stops.2.trans (if_pos short).symm, fun full => absurd short (Nat.not_lt.2 full)⟩
    · rename_i going
      rwa [if_neg going] at stops
  · rw [if_neg short] at inside ⊢
    rcases Nat.lt_succ_iff_lt_or_eq.1 inside with before | rfl
    · have stops := ready.turn_of_straight straight before
      simp only [short, and_false, if_false] at stops
      rwa [if_neg (by omega)]
    · rw [if_pos rfl]
      exact ready.turn_of_wrapped (Nat.not_lt.1 short)

/-! ## Any number of turns -/

theorem Ended.act (ended : s.Ended p) {a : Action} (quiet : a.disturbs = false) :
    (s.act a).Ended p ∧ s.atTurn dueMachine? a = none := by
  by_cases turn : a = .turn
  · subst turn
    have same : s.takeTurn = s := by simp [takeTurn, ended.done]
    have idle : s.dueMachine? = none := by simp [dueMachine?, ended.done]
    have acted : s.act .turn = s := same
    exact ⟨acted.symm ▸ ended, idle⟩
  · have kept := kept_of_quiet quiet
    have present : s.position ≠ .absent := by simp [ended.done]
    obtain ⟨position, phase⟩ := position_phase_act turn kept present
    have fault := (act_of_host s turn kept).2.1
    exact ⟨⟨position.trans ended.done, phase.trans ended.phase, fun full => fault.trans (ended.fault full)⟩,
      atTurn_of_host turn kept⟩

theorem Ended.run (ended : s.Ended p) {actions : List Action}
    (quiet : ∀ a ∈ actions, a.disturbs = false) :
    (s.run actions).Ended p ∧ s.atTurns dueMachine? actions = [] := by
  induction actions generalizing s with
  | nil => exact ⟨ended, rfl⟩
  | cons a rest ih =>
      rw [List.forall_mem_cons] at quiet
      obtain ⟨still, idle⟩ := ended.act quiet.1
      obtain ⟨later, none⟩ := ih still quiet.2
      refine ⟨later, ?_⟩
      rw [atTurns, idle, none]
      rfl

theorem Ready.run (ready : Ready p k s) (straight : p.isStraight = true) (inside : k < p.runLength)
    {actions : List Action} (quiet : ∀ a ∈ actions, a.disturbs = false) (clock : ClockInRange actions) :
    (s.atTurns dueMachine? actions).length = min (actions.count .turn) (p.runLength - k) ∧
      if k + actions.count .turn < p.runLength then Ready p (k + actions.count .turn) (s.run actions)
      else (s.run actions).Ended p := by
  -- Each turn moves on by one word; what the host does in between leaves the thread at its word.
  induction actions generalizing s k with
  | nil =>
      rw [List.count_nil, Nat.add_zero, if_pos inside, Nat.zero_min]
      exact ⟨rfl, ready⟩
  | cons a rest ih =>
      rw [List.forall_mem_cons] at quiet
      have later : ClockInRange rest := fun now member => clock now (List.mem_cons_of_mem a member)
      by_cases turn : a = .turn
      · subst turn
        have stops := ready.turn straight inside
        rw [List.count_cons_self, atTurns, List.length_append, atTurn, ready.due]
        split at stops
        · rename_i last
          obtain ⟨ended, none⟩ := stops.run quiet.2
          have none : (s.act .turn).atTurns dueMachine? rest = [] := none
          rw [none, if_neg (by omega)]
          refine ⟨?_, ended⟩
          simp only [Option.toList_some, List.length_singleton, List.length_nil]
          omega
        · rename_i going
          obtain ⟨length, reached⟩ := ih stops (by omega) quiet.2 later
          have next : k + 1 + rest.count .turn = k + (rest.count .turn + 1) := by omega
          rw [next] at reached
          have length : ((s.act .turn).atTurns dueMachine? rest).length = _ := length
          refine ⟨?_, reached⟩
          rw [length, Option.toList_some, List.length_singleton]
          omega
      · have same : Ready p k (s.act a) := ready.act turn quiet.1 (fun now same => clock now (by simp [same]))
        obtain ⟨length, reached⟩ := ih same inside quiet.2 later
        rw [List.count_cons_of_ne turn, atTurns, atTurn_of_host turn (kept_of_quiet quiet.1)]
        exact ⟨length, reached⟩

theorem Program.runLength_pos (p : Program) : 0 < p.runLength := by
  have positive : 0 < p.wordCount := by
    have nonempty := p.size_pos
    simp only [Program.wordCount, Program.size]
    omega
  unfold Program.runLength
  split
  · exact positive
  · exact Nat.succ_pos _

theorem AtWord.run_of_fresh (there : AtWord p 0 s) (fresh : s.position = .fresh)
    (straight : p.isStraight = true) {actions : List Action}
    (quiet : ∀ a ∈ actions, a.disturbs = false) (clock : ClockInRange actions) :
    (s.atTurns dueMachine? actions).length = min (actions.count .turn - 1) p.runLength ∧
      if p.runLength < actions.count .turn then (s.run actions).Ended p
      else (s.run actions).position ≠ .done := by
  induction actions generalizing s with
  | nil => exact ⟨(Nat.zero_min _).symm, by simp [Session.run, fresh]⟩
  | cons a rest ih =>
      rw [List.forall_mem_cons] at quiet
      have later : ClockInRange rest := fun now member => clock now (List.mem_cons_of_mem a member)
      by_cases turn : a = .turn
      · subst turn
        have idle : s.atTurn dueMachine? .turn = none := by simp [atTurn, dueMachine?, fresh]
        obtain ⟨length, reached⟩ :=
          (there.turn_of_fresh fresh).run straight (Program.runLength_pos p) quiet.2 later
        rw [List.count_cons_self, atTurns, idle]
        refine ⟨length, ?_⟩
        by_cases many : p.runLength < rest.count .turn + 1
        · rw [if_pos many]
          rwa [if_neg (by omega)] at reached
        · rw [if_neg many]
          rw [if_pos (by omega)] at reached
          obtain ⟨duration, sleeps⟩ := reached.sleeps
          intro done
          rw [run_cons] at done
          exact Position.noConfusion (sleeps.symm.trans done)
      · have kept := kept_of_quiet quiet.1
        have present : s.position ≠ .absent := by simp [fresh]
        have same := (position_phase_act turn kept present).1.trans fresh
        have acted := there.act present turn quiet.1 (fun now same => clock now (by simp [same]))
        rw [List.count_cons_of_ne turn, atTurns, atTurn_of_host turn kept]
        exact ih acted same quiet.2 later

theorem atWord_of_fresh (program : Program) (keyMap : KeyMap) (clockRate timerRate : Int)
    (random : Random.Source) (before : List Action) (clock : ClockInRange before)
    (fresh : ((create program keyMap clockRate timerRate random).run before).position = .fresh)
    (undisturbed : ((create program keyMap clockRate timerRate random).run before).Undisturbed) :
    AtWord program 0 ((create program keyMap clockRate timerRate random).run before) := by
  have coherent := coherent_create program keyMap clockRate timerRate random
  have loaded : (create program keyMap clockRate timerRate random).Loaded := fun _ => ⟨rfl, rfl, rfl⟩
  obtain ⟨memory, pc, programEnd⟩ := loaded_run coherent loaded before (Or.inr fresh)
  have same := (origin_run (create program keyMap clockRate timerRate random) before).1
  exact
    { undisturbed
      regular := regular_run program keyMap clockRate timerRate random clock
      coherent := coherent_run coherent before
      memory := memory.trans (congrArg Program.image same)
      pc := pc
      programEnd := programEnd.trans (congrArg Program.finish same) }

theorem ended_of_start {keyMap : KeyMap} {clockRate timerRate : Int} {random : Random.Source}
    (straight : p.isStraight = true) {after : List Action} (quiet : ∀ a ∈ after, a.disturbs = false)
    (clock : ClockInRange after) (many : p.runLength < after.count .turn) :
    (((create p keyMap clockRate timerRate random).act (.start false)).run after).Ended p := by
  have there := atWord_of_fresh p keyMap clockRate timerRate random [.start false]
    (by simp [ClockInRange]) rfl ⟨rfl, rfl, rfl⟩
  have reached := (there.run_of_fresh rfl straight quiet clock).2
  rwa [if_pos many] at reached

end Session

namespace History

/-- A thread with a straight program that nobody pauses or cancels executes one word after another. If the
program ends before the last two bytes of memory, the run terminates behind its last word; otherwise the
program counter goes around to the font, whose first word is no instruction, and the run fails there. -/
theorem straight_run (program : Program) (keyMap : KeyMap) (clockRate timerRate : Int)
    (random : Random.Source) (before after : List Action) (straight : program.isStraight = true)
    (clock : Session.ClockInRange (before ++ after))
    (fresh : ((Session.create program keyMap clockRate timerRate random).run before).position = .fresh)
    (undisturbed :
      ((Session.create program keyMap clockRate timerRate random).run before).Undisturbed)
    (quiet : ∀ a ∈ after, a.disturbs = false) :
    let h := History.of (.create program keyMap clockRate timerRate random) before
    let g := h.run after
    let turns := after.count .turn
    (program.size < 3583 →
      g.executed.length = h.executed.length + min (turns - 1) program.wordCount ∧
        (g.session.position = .done ↔ program.wordCount < turns) ∧
        (g.session.position = .done → g.session.phase = .terminated)) ∧
      (3583 ≤ program.size →
        g.executed.length = h.executed.length + min (turns - 1) (program.wordCount + 1) ∧
          (g.session.position = .done ↔ program.wordCount + 1 < turns) ∧
          (g.session.position = .done →
            g.session.phase = .failed ∧ g.session.fault = some ⟨.unsupported 0xF090, 0⟩)) := by
  intro h g turns
  have faithful : h.Faithful := faithful_of program keyMap clockRate timerRate random before
  have there := Session.atWord_of_fresh program keyMap clockRate timerRate random before
    (fun now member => clock now (List.mem_append_left after member)) fresh undisturbed
  rw [← session_of] at there fresh
  obtain ⟨length, reached⟩ := there.run_of_fresh fresh straight quiet
    (fun now member => clock now (List.mem_append_right before member))
  rw [← session_run] at reached
  have executed : g.executed.length = h.executed.length + min (turns - 1) program.runLength := by
    rw [executed_run faithful, List.length_append, length]
  have done : g.session.position = .done ↔ program.runLength < turns := by
    constructor
    · intro done
      by_contra going
      rw [if_neg going] at reached
      exact reached done
    · intro many
      rw [if_pos many] at reached
      exact reached.done
  have ended (stopped : g.session.position = .done) : g.session.Ended program := by
    rwa [if_pos (done.1 stopped)] at reached
  constructor
  · intro short
    have count : program.runLength = program.wordCount := if_pos short
    rw [count] at executed done
    exact ⟨executed, done, fun stopped => (ended stopped).phase.trans (if_pos short)⟩
  · intro full
    have count : program.runLength = program.wordCount + 1 := if_neg (Nat.not_lt.2 full)
    rw [count] at executed done
    exact ⟨executed, done, fun stopped =>
      ⟨(ended stopped).phase.trans (if_neg (Nat.not_lt.2 full)), (ended stopped).fault full⟩⟩

/-- Three bytes make two words, the second of which ends with the zero byte behind the program. -/
theorem straight_run_of_three_bytes :
    let program : Program := ⟨[0x60, 0x05, 0x71], by decide, by decide⟩
    let h := History.of (.create program .default 700 60 .silent) [.start true, .resume]
    let g := h.run [.turn, .press (some 48), .turn, .clock ⟨0x3FF0000000000000⟩, .turn]
    program.isStraight = true ∧ h.executed.length = 0 ∧ g.executed.length = 2 ∧
      g.session.phase = .terminated := by
  intro program h g
  have straight : program.isStraight = true := by decide
  have clock : Session.ClockInRange ([.start true, .resume] ++
      [.turn, .press (some 48), .turn, .clock ⟨0x3FF0000000000000⟩, .turn]) := by
    intro now member
    obtain rfl : now = ⟨0x3FF0000000000000⟩ := by simpa using member
    exact ⟨1, ⟨false, by decide +kernel⟩, by norm_num, by norm_num [Countdown.maxReading]⟩
  obtain ⟨executed, done, terminated⟩ :=
    (straight_run program .default 700 60 .silent [.start true, .resume] _ straight clock rfl
      ⟨rfl, rfl, rfl⟩ (by decide)).1 (by decide)
  exact ⟨straight, rfl, executed.trans (by decide), terminated (done.2 (by decide))⟩

/-- A program of equal straight words that fills the memory. -/
def brimful : Program where
  bytes := .replicate 3584 0x60
  size_pos := by rw [List.length_replicate]; decide
  size_le := by rw [List.length_replicate]; decide

theorem isStraight_brimful : brimful.isStraight = true := by
  have load : decode? 0x6060 = some (.load (.ofNat 0) 0x60) := by decide
  refine List.all_eq_true.2 fun k inside => ?_
  have size : brimful.size = 3584 := List.length_replicate
  have small : k < 1792 := by simpa [Program.wordCount, size] using inside
  have word : brimful.word k = 0x6060 := by
    simp only [Program.word, Program.byte, brimful, List.getElem?_replicate]
    rw [if_pos (by omega), if_pos (by omega)]
    rfl
  rw [word, load]
  rfl

/-- A straight program that runs off its end fails when the end is the end of memory. -/
theorem brimful_fails :
    let start := Session.create brimful .default 700 60 .silent
    let g := (start.act (.start false)).run (.replicate 1794 .turn)
    brimful.isStraight = true ∧ brimful.size ≤ maxProgramSize ∧ g.phase = .failed ∧
      g.fault = some ⟨.unsupported 0xF090, 0⟩ := by
  intro start g
  have size : brimful.size = 3584 := List.length_replicate
  have ended : g.Ended brimful := by
    apply Session.ended_of_start isStraight_brimful
    · intro a member
      rw [List.eq_of_mem_replicate member]
      rfl
    · intro now member
      cases List.eq_of_mem_replicate member
    · rw [List.count_replicate_self, Program.runLength, Program.wordCount, size]
      decide
  have phase := ended.phase
  rw [size, if_neg (by decide)] at phase
  exact ⟨isStraight_brimful, brimful.size_le, phase, ended.fault (by rw [size]; decide)⟩

end History

end Chip8
