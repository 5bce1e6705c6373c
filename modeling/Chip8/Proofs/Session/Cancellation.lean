import Chip8.Proofs.Session.Independence
import Chip8.Proofs.Session.Regular

/-!
# Cancellation

Main statement: `cancelled_within_a_turn`, wherever a live thread stands when its run is cancelled and
whatever the host does next, its next turn ends it, with a notification of its own, and from then on it
stays ended until it is reset.
-/

namespace Chip8

def endings (notifications : List Notification) : List Notification :=
  notifications.filter fun n => n.event = .endOfExecution

theorem endings_append (before after : List Notification) :
    endings (before ++ after) = endings before ++ endings after :=
  List.filter_append ..

theorem endings_waitNotes (cycles : List Machine) : endings (waitNotes cycles) = [] := by
  simp [endings, waitNotes]

namespace Session

/-! ## The phase of a cancelled run -/

theorem goOn_of_cancelled {s : Session} (cancelled : s.cancelled = true) :
    s.goOn = s.finish .cancelled :=
  if_pos cancelled

theorem proceed_of_cancelled {s : Session} (cancelled : s.cancelled = true) :
    s.proceed = s.finish .cancelled := by
  simp [proceed, cancelled, goOn_of_cancelled]

theorem phase_completeCycle_of_cancelled {s : Session} (regular : s.Regular)
    (cancelled : s.cancelled = true) : s.completeCycle.phase = .cancelled := by
  obtain ⟨timers, ticked⟩ := regular.tickTimers
  simp only [completeCycle, ticked]
  exact congrArg phase (proceed_of_cancelled (by exact cancelled))

theorem phase_endKeyWait_of_cancelled {s : Session} (regular : s.Regular)
    (cancelled : s.cancelled = true) (outcome : Bool × Keypad) :
    (s.endKeyWait outcome).phase = .cancelled := by
  obtain ⟨taken, keypad⟩ := outcome
  cases taken with
  | false => rfl
  | true =>
      have taken : Regular { s with
          phase := .running, machine := { s.machine with keypad, awaiting := none } } :=
        { regular with bounded := { regular.bounded with } }
      exact phase_completeCycle_of_cancelled taken cancelled

theorem phase_enterKeyWait_of_cancelled {s : Session} (regular : s.Regular)
    (cancelled : s.cancelled = true) : s.enterKeyWait.phase = .cancelled := by
  have waiting : Regular ({ s with phase := .waitingForKey }.notify .waitingForKey) := { regular with }
  have tested := testKeyWait_of_cancelled (s := { s with phase := .waitingForKey }.notify .waitingForKey)
    cancelled
  simp only [enterKeyWait, tested]
  exact phase_endKeyWait_of_cancelled waiting cancelled _

theorem phase_executeCycle_of_cancelled {s : Session} (regular : s.Regular)
    (cancelled : s.cancelled = true) :
    s.executeCycle.phase =
      if s.broken || s.machine.cycle.failure.isSome then .failed else .cancelled := by
  rcases executeCycle_cases s with ⟨broken, ended⟩ | ⟨sound, ⟨fault, failed, ended⟩ |
    ⟨defect, failed, ended⟩ | ⟨works, -, waits⟩ | ⟨works, -, goes⟩⟩
  · rw [ended, broken]
    rfl
  · rw [ended, failed, Option.isSome_some, Bool.or_true]
    rfl
  · rw [ended, failed, Option.isSome_some, Bool.or_true]
    rfl
  · rw [waits, sound, works]
    exact phase_enterKeyWait_of_cancelled regular.cycled cancelled
  · rw [goes, sound, works]
    exact phase_completeCycle_of_cancelled regular.cycled cancelled

theorem phase_takeTurn_of_cancelled {s : Session} (regular : s.Regular) (live : s.isLive = true)
    (cancelled : s.cancelled = true) :
    s.takeTurn.phase = if s.raises then .failed else .cancelled := by
  unfold takeTurn raises
  cases position : s.position with
  | absent | done => simp [isLive, position] at live
  | fresh => exact congrArg phase (proceed_of_cancelled cancelled)
  | sleeping duration => exact phase_executeCycle_of_cancelled regular cancelled
  | pausing =>
      simp only [turnAtPause, cancelled, Bool.not_true, Bool.and_false, Bool.false_eq_true, if_false]
      exact congrArg phase (goOn_of_cancelled rfl)
  | awaitingKey timeout =>
      simp only [turnAtKeyWait, testKeyWait_of_cancelled cancelled]
      exact phase_endKeyWait_of_cancelled regular cancelled _

theorem position_takeTurn_of_cancelled {s : Session} (coherent : s.Coherent) (live : s.isLive = true)
    (cancelled : s.cancelled = true) : s.takeTurn.position = .done := by
  have dead := isLive_takeTurn_of_cancelled cancelled
  have present : s.position ≠ .absent := by
    intro absent
    simp [isLive, absent] at live
  have settled := settled_takeTurn coherent present
  simpa [isLive, settled.position_ne_absent] using dead

end Session

namespace History

/-! ## After the end -/

theorem sent_act_of_host (h : History) {a : Action} (host : a ≠ .turn)
    (kept : ∀ paused, a ≠ .reset paused) : (h.act a).sent = h.sent := by
  cases a with
  | turn => exact absurd rfl host
  | reset paused => exact absurd rfl (kept paused)
  | start paused =>
      simp only [act]
      cases started : h.session.start paused with
      | none => rfl
      | some s =>
          obtain ⟨-, rfl⟩ := Session.start_eq_some started
          rfl
  | togglePause =>
      simp only [act, sent, Session.act, Session.togglePause]
      split <;> rfl
  | poll => exact List.append_nil _
  | _ => rfl

/-- The thread of `g` stands where that of `h` does, and nothing has been executed or sent in between. -/
structure Unmoved (h g : History) : Prop where
  position : g.session.position = h.session.position
  phase : g.session.phase = h.session.phase
  executed : g.executed = h.executed
  sent : g.sent = h.sent

theorem unmoved_refl (h : History) : h.Unmoved h :=
  ⟨rfl, rfl, rfl, rfl⟩

theorem Unmoved.trans {h g k : History} (first : h.Unmoved g) (later : g.Unmoved k) : h.Unmoved k where
  position := later.position.trans first.position
  phase := later.phase.trans first.phase
  executed := later.executed.trans first.executed
  sent := later.sent.trans first.sent

theorem unmoved_act_of_host {h : History} (present : h.session.position ≠ .absent) {a : Action}
    (host : a ≠ .turn) (kept : ∀ paused, a ≠ .reset paused) : h.Unmoved (h.act a) := by
  obtain ⟨position, phase⟩ := Session.position_phase_act host kept present
  refine ⟨?_, ?_, executed_act h host kept, sent_act_of_host h host kept⟩
  · rw [session_act, position]
  · rw [session_act, phase]

theorem unmoved_turn {h : History} (faithful : h.Faithful) (same : h.session.takeTurn = h.session)
    (idle : h.session.dueMachine? = none) : h.Unmoved (h.act .turn) where
  position := by simp only [act, takeTurn, same]
  phase := by simp only [act, takeTurn, same]
  executed := (executed_takeTurn faithful).trans (by simp [idle])
  sent := by simp only [act, takeTurn, sent, same]

theorem unmoved_act_of_done {h : History} (faithful : h.Faithful) (done : h.session.position = .done)
    {a : Action} (kept : ∀ paused, a ≠ .reset paused) : h.Unmoved (h.act a) := by
  by_cases turn : a = .turn
  · subst turn
    exact unmoved_turn faithful (by simp [Session.takeTurn, done]) (by simp [Session.dueMachine?, done])
  · exact unmoved_act_of_host (by simp [done]) turn kept

theorem unmoved_run_of_host {h : History} (present : h.session.position ≠ .absent) {actions : List Action}
    (host : .turn ∉ actions) (kept : ∀ paused, .reset paused ∉ actions) : h.Unmoved (h.run actions) := by
  induction actions generalizing h with
  | nil => exact unmoved_refl h
  | cons a rest ih =>
      have first : h.Unmoved (h.act a) :=
        unmoved_act_of_host present (fun same => host (by simp [same])) fun paused same =>
          kept paused (by simp [same])
      refine first.trans (ih (first.position ▸ present) ?_ ?_)
      · exact fun member => host (List.mem_cons_of_mem a member)
      · exact fun paused member => kept paused (List.mem_cons_of_mem a member)

theorem unmoved_run_of_done {h : History} (faithful : h.Faithful) (done : h.session.position = .done)
    {actions : List Action} (kept : ∀ paused, .reset paused ∉ actions) : h.Unmoved (h.run actions) := by
  induction actions generalizing h with
  | nil => exact unmoved_refl h
  | cons a rest ih =>
      have first : h.Unmoved (h.act a) :=
        unmoved_act_of_done faithful done fun paused same => kept paused (by simp [same])
      refine first.trans (ih (faithful.act a) (first.position.trans done) ?_)
      exact fun paused member => kept paused (List.mem_cons_of_mem a member)

/-! ## The last turn -/

theorem sent_takeTurn {h : History} (coherent : h.session.Coherent) (going : h.session.position ≠ .done) :
    h.takeTurn.sent =
      h.sent ++ waitNotes h.session.dueMachine?.toList ++ endNotes h.session.takeTurn.ending? := by
  simp only [sent, takeTurn, Session.notifications_takeTurn coherent going, List.append_assoc]

theorem endings_sent_takeTurn {h : History} (coherent : h.session.Coherent)
    (going : h.session.position ≠ .done) (done : h.session.takeTurn.position = .done) :
    endings h.takeTurn.sent = endings h.sent ++ [⟨.endOfExecution, h.session.takeTurn.phase⟩] := by
  have ending : h.session.takeTurn.ending? = some h.session.takeTurn.phase := if_pos done
  rw [sent_takeTurn coherent going, endings_append, endings_append, endings_waitNotes, ending,
    List.append_nil]
  rfl

theorem regular_of_act (program : Program) (keyMap : KeyMap) (clockRate timerRate : Int)
    (random : Random.Source) {before after : List Action} {a : Action}
    (clock : Session.ClockInRange (before ++ a :: after)) :
    (((of (.create program keyMap clockRate timerRate random) before).act a).run after).session.Regular := by
  rw [session_run, session_act, session_of, ← Session.run_cons, ← Session.run_append]
  exact Session.regular_run program keyMap clockRate timerRate random clock

theorem cancelled_run {s : Session} (cancelled : s.cancelled = true) {actions : List Action}
    (kept : ∀ paused, .reset paused ∉ actions) : (s.run actions).cancelled = true :=
  (Session.cancelled_run_iff kept).2 (Or.inl cancelled)

/-- A live thread whose run is cancelled stands where it is until its next turn, whatever its host does.
That turn executes an instruction only if the thread was sleeping before it, and ends the thread, as
failed if the instruction raises and otherwise as cancelled, with one notification of the end. From then
on nothing moves. The clock matters to the phase alone: at a reading out of range the last tick may
crash. -/
theorem cancelled_within_a_turn (program : Program) (keyMap : KeyMap) (clockRate timerRate : Int)
    (random : Random.Source) (before ops after : List Action)
    (live : ((Session.create program keyMap clockRate timerRate random).run before).isLive = true)
    (host : .turn ∉ ops) (kept : ∀ paused, .reset paused ∉ ops ++ after) :
    let h := History.of (.create program keyMap clockRate timerRate random) before
    let asked := (h.act .cancel).run ops
    let ended := asked.act .turn
    h.Unmoved asked ∧
      ended.session.position = .done ∧
      ended.executed = h.executed ++ asked.session.dueMachine?.toList ∧
      (asked.session.dueMachine?.isSome = true → ∃ duration, h.session.position = .sleeping duration) ∧
      (Session.ClockInRange (before ++ ops) →
        ended.session.phase = if asked.session.raises then .failed else .cancelled) ∧
      endings ended.sent = endings h.sent ++ [⟨.endOfExecution, ended.session.phase⟩] ∧
      ended.Unmoved (ended.run after) := by
  intro h asked ended
  have keptOps : ∀ paused, .reset paused ∉ ops := fun paused member =>
    kept paused (List.mem_append_left after member)
  have keptAfter : ∀ paused, .reset paused ∉ after := fun paused member =>
    kept paused (List.mem_append_right ops member)
  have live : h.session.isLive = true := by rwa [session_of]
  have present : h.session.position ≠ .absent := by
    intro absent
    simp [Session.isLive, absent] at live
  have unmoved : h.Unmoved asked :=
    (unmoved_act_of_host (a := .cancel) present (by simp) (by simp)).trans
      (unmoved_run_of_host (h := h.act .cancel) present host keptOps)
  have faithful : asked.Faithful :=
    ((faithful_of program keyMap clockRate timerRate random before).act .cancel).run ops
  have cancelled : asked.session.cancelled = true := by
    rw [session_run]
    exact cancelled_run rfl keptOps
  have live : asked.session.isLive = true := by rwa [Session.isLive, unmoved.position]
  have done : ended.session.position = .done :=
    Session.position_takeTurn_of_cancelled faithful.coherent live cancelled
  refine ⟨unmoved, done, ?_, ?_, ?_, ?_, unmoved_run_of_done (faithful.act .turn) done keptAfter⟩
  · rw [← unmoved.executed]
    exact executed_takeTurn faithful
  · intro due
    obtain ⟨m, due⟩ := Option.isSome_iff_exists.1 due
    exact unmoved.position ▸ Session.position_of_due due
  · intro clock
    have regular : asked.session.Regular :=
      regular_of_act program keyMap clockRate timerRate random (by simpa [Session.ClockInRange] using clock)
    exact Session.phase_takeTurn_of_cancelled regular live cancelled
  · rw [← unmoved.sent]
    refine endings_sent_takeTurn faithful.coherent ?_ done
    intro ended
    simp [Session.isLive, ended] at live

/-- Cancelled at the key wait, with the awaited key and a pause coming after the cancellation. -/
theorem cancelled_with_the_key :
    let program : Program := ⟨[0x60, 0x05, 0xF0, 0x0A, 0x70, 0x01], by decide, by decide⟩
    let before : List Action := [.start false, .turn, .turn, .turn]
    let ops : List Action := [.pause, .press (some 53), .clock ⟨0x3FF0000000000000⟩]
    let h := History.of (.create program .default 700 60 .silent) before
    let ended := ((h.act .cancel).run ops).act .turn
    h.session.phase = .waitingForKey ∧ ended.session.phase = .cancelled ∧ ended.executed.length = 2 ∧
      endings ended.sent = [⟨.endOfExecution, .cancelled⟩] ∧
      (ended.run [.resume, .turn]).session.phase = .cancelled := by
  intro program before ops h ended
  have clock : Session.ClockInRange (before ++ ops) := by
    intro now member
    obtain rfl : now = ⟨0x3FF0000000000000⟩ := by simpa [before, ops] using member
    exact ⟨1, ⟨false, by decide +kernel⟩, by norm_num, by norm_num [Countdown.maxReading]⟩
  obtain ⟨-, -, executed, -, phase, endings, unmoved⟩ :=
    cancelled_within_a_turn program .default 700 60 .silent before ops [.resume, .turn]
      (by decide +kernel) (by simp [ops]) (by simp [ops])
  have unraised : ((h.act .cancel).run ops).session.raises = false := by decide +kernel
  have phase : ended.session.phase = .cancelled := by rw [phase clock, unraised]; rfl
  refine ⟨by decide +kernel, phase, ?_, ?_, unmoved.phase.trans phase⟩
  · rw [executed]
    decide +kernel
  · rw [endings, phase]
    decide +kernel

end History

end Chip8
