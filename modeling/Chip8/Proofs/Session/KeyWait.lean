import Chip8.Proofs.Session.Pausing

/-!
# The wait for a key

A thread that waits for a key looks for it at every turn. Main statements: `waited_run`, while the key is
missing nothing moves but the keypad, by the hand of the host, and the timers, by one tick at each turn;
`waits_for_the_key`, that and what the first turn does that finds the key.
-/

namespace Chip8

/-- The keypad after an action of the host. -/
def Keypad.touched (k : Keypad) : Action → Keypad
  | .press key => k.press key
  | _ => k

namespace Session

/-- Whether an action ends the wait for a key. -/
def endsKeyWait (s : Session) : Action → Bool
  | .cancel | .reset _ => true
  | .turn => s.machine.keypad.current = s.machine.awaiting
  | _ => false

/-- Whether no action of a run that begins at the wait for a key ends it. -/
def keepsWaiting : Session → List Action → Bool
  | _, [] => true
  | s, a :: rest => !s.endsKeyWait a && keepsWaiting (s.act a) rest

/-- The ticks of the timers during a wait, one at each turn. -/
def waitTicks (s : Session) (actions : List Action) : List Ticking :=
  s.atTurns (fun s => some (s.tickingAt true)) actions

/-- The session after a wait: the key is consumed and the timers have ticked. -/
def withKey (s : Session) : Session :=
  { s with
    phase := .running
    machine :=
      { s.machine with
        keypad := {}
        awaiting := none
        timers := s.machine.timers.after (s.tickingAt false) } }

variable {s : Session}

/-! ## A turn at the wait -/

theorem Regular.tickTimers_eq (regular : s.Regular) (inKeyWait : Bool) :
    s.tickTimers = .ok { s with
      machine := { s.machine with timers := s.machine.timers.after (s.tickingAt inKeyWait) } } := by
  obtain ⟨timers, ticked⟩ := regular.tickTimers
  rcases s.tickTimers_cases inKeyWait with ⟨t, same, machine⟩ | ⟨failure, failed, -⟩
  · rw [ticked] at same
    cases same
    rw [ticked, ← machine]
  · rw [ticked] at failed
    cases failed

theorem Regular.completeCycle_eq (regular : s.Regular) :
    s.completeCycle = proceed { s with
      machine := { s.machine with timers := s.machine.timers.after (s.tickingAt false) } } := by
  rw [completeCycle, regular.tickTimers_eq false]

theorem Regular.takeTurn_of_missed (regular : s.Regular) {timeout : Binary64}
    (position : s.position = .awaitingKey timeout) (clear : s.cancelled = false)
    (missed : s.machine.keypad.current ≠ s.machine.awaiting) :
    ∃ next, s.takeTurn =
      { s with
        position := .awaitingKey next
        machine := { s.machine with timers := s.machine.timers.after (s.tickingAt true) } } := by
  obtain ⟨next, isPeriod⟩ := regular.timerPeriod
  have turn : s.takeTurn = s.turnAtKeyWait := by simp only [Session.takeTurn, position]
  have tested : s.testKeyWait = none := by
    rw [testKeyWait_of_missed missed, clear]
    rfl
  refine ⟨next, ?_⟩
  rw [turn]
  simp only [turnAtKeyWait, tested, regular.tickTimers_eq true, Session.stopForKey, isPeriod]

theorem Regular.takeTurn_of_there (regular : s.Regular) {timeout : Binary64}
    (position : s.position = .awaitingKey timeout)
    (there : s.machine.keypad.current = s.machine.awaiting) : s.takeTurn = s.withKey.proceed := by
  have taken : Regular { s with
      phase := .running, machine := { s.machine with keypad := {}, awaiting := none } } :=
    { regular with bounded := { regular.bounded with } }
  have turn : s.takeTurn = s.endKeyWait (true, {}) := by
    simp only [Session.takeTurn, position, turnAtKeyWait, testKeyWait_of_there there]
  exact turn.trans taken.completeCycle_eq

theorem Regular.withKey (regular : s.Regular) : s.withKey.Regular where
  clockRate := regular.clockRate
  timerRate := regular.timerRate
  bounded := { regular.bounded.tickAfter (s.tickingAt false) with }
  inRange :=
    Countdown.inRange_after regular.timerRate.1 regular.timerRate.2 regular.reading regular.inRange
  reading := regular.reading

theorem Regular.stops (regular : s.Regular) (clear : s.cancelled = false) :
    if s.paused then s.proceed.StandsPaused
    else if s.machine.finished then s.proceed.position = .done ∧ s.proceed.phase = .terminated
    else (∃ duration, s.proceed.position = .sleeping duration) ∧ s.proceed.phase = .running := by
  cases paused : s.paused with
  | true =>
      rw [proceed_of_paused paused clear]
      exact ⟨rfl, rfl⟩
  | false =>
      obtain ⟨duration, isPeriod⟩ := regular.clockPeriod
      have goes : s.proceed = s.goOn := by simp [proceed, paused]
      rw [goes, goOn, clear, isPeriod]
      cases s.machine.finished with
      | true => exact ⟨rfl, rfl⟩
      | false => exact ⟨⟨duration, rfl⟩, rfl⟩

/-! ## An action during the wait -/

theorem kept_of_waits {a : Action} (waits : s.endsKeyWait a = false) (paused : Bool) :
    a ≠ .reset paused := by
  rintro rfl
  cases waits

theorem keypad_act {a : Action} (host : a ≠ .turn) (kept : ∀ paused, a ≠ .reset paused) :
    (s.act a).machine.keypad = s.machine.keypad.touched a := by
  cases a with
  | turn => exact absurd rfl host
  | reset paused => exact absurd rfl (kept paused)
  | start paused =>
      simp only [act]
      cases started : s.start paused with
      | none => rfl
      | some t =>
          obtain ⟨-, rfl⟩ := start_eq_some started
          rfl
  | togglePause =>
      simp only [act, togglePause]
      split <;> rfl
  | _ => rfl

theorem length_waitTicks {actions : List Action} (waiting : s.keepsWaiting actions = true) :
    (s.waitTicks actions).length = actions.count .turn := by
  induction actions generalizing s with
  | nil => rfl
  | cons a rest ih =>
      simp only [keepsWaiting, Bool.and_eq_true, Bool.not_eq_true'] at waiting
      have later := ih waiting.2
      rw [waitTicks, atTurns, List.length_append, ← waitTicks, later]
      by_cases turn : a = .turn
      · subst turn
        rw [List.count_cons_self, Nat.add_comm]
        rfl
      · rw [atTurn_of_host turn (kept_of_waits waiting.1), List.count_cons_of_ne turn]
        exact Nat.zero_add _

end Session

namespace History

/-- The thread has waited for a key throughout a run: it has executed, sent and consumed nothing. -/
structure Waited (h : History) (actions : List Action) : Prop where
  awaits : (h.run actions).session.AwaitsKey
  clear : (h.run actions).session.cancelled = false
  executed : (h.run actions).executed = h.executed
  sent : (h.run actions).sent = h.sent
  machine : (h.run actions).session.machine =
    { h.session.machine with
      keypad := actions.foldl Keypad.touched h.session.machine.keypad
      timers := (h.session.waitTicks actions).foldl Countdown.after h.session.machine.timers }

theorem waited_turn {h : History} (faithful : h.Faithful) (regular : h.session.Regular)
    (awaits : h.session.AwaitsKey) (clear : h.session.cancelled = false)
    (missed : h.session.machine.keypad.current ≠ h.session.machine.awaiting) : h.Waited [.turn] := by
  obtain ⟨⟨timeout, position⟩, phase⟩ := awaits
  obtain ⟨next, turned⟩ := regular.takeTurn_of_missed position clear missed
  have going : h.session.position ≠ .done := by simp [position]
  have idle : h.session.dueMachine? = none := by simp only [Session.dueMachine?, position]
  have session : (h.run [.turn]).session = h.session.takeTurn := rfl
  constructor
  · rw [session, turned]
    exact ⟨⟨next, rfl⟩, phase⟩
  · rw [session, turned]
    exact clear
  · exact (executed_takeTurn faithful).trans (by rw [idle]; exact List.append_nil _)
  · refine (sent_takeTurn faithful.coherent going).trans ?_
    rw [idle, turned]
    exact (List.append_nil _).trans (List.append_nil _)
  · rw [session, turned]
    rfl

theorem waited_host {h : History} (awaits : h.session.AwaitsKey) (clear : h.session.cancelled = false)
    {a : Action} (host : a ≠ .turn) (waits : h.session.endsKeyWait a = false) : h.Waited [a] := by
  have kept := Session.kept_of_waits waits
  obtain ⟨⟨timeout, position⟩, phase⟩ := awaits
  have same := Session.position_phase_act host kept (s := h.session) (by simp [position])
  have uncancelled : a ≠ .cancel := by
    rintro rfl
    cases waits
  have session : (h.run [a]).session = h.session.act a := session_act h a
  constructor
  · rw [session]
    exact ⟨⟨timeout, same.1.trans position⟩, same.2.trans phase⟩
  · rw [session, Session.cancelled_act kept, clear]
    simp [uncancelled]
  · exact executed_act h host kept
  · exact sent_act_of_host h host kept
  · rw [session, Session.machine_act host kept, Session.keypad_act host kept, Session.waitTicks,
      Session.atTurns, Session.atTurn_of_host host kept]
    rfl

theorem Waited.cons {h : History} {a : Action} {rest : List Action} (first : h.Waited [a])
    (later : (h.act a).Waited rest) : h.Waited (a :: rest) where
  awaits := later.awaits
  clear := later.clear
  executed := later.executed.trans first.executed
  sent := later.sent.trans first.sent
  machine := by
    have machine : (h.act a).session.machine = _ := first.machine
    have session := session_act h a
    refine later.machine.trans ?_
    rw [machine, session]
    simp only [Session.waitTicks, Session.atTurns, List.foldl_append, List.append_nil, List.foldl_cons,
      List.foldl_nil]

theorem waited_run {h : History} (faithful : h.Faithful) (regular : h.session.Regular)
    (awaits : h.session.AwaitsKey) (clear : h.session.cancelled = false) {actions : List Action}
    (clock : Session.ClockInRange actions) (waiting : h.session.keepsWaiting actions = true) :
    h.Waited actions := by
  induction actions generalizing h with
  | nil => exact ⟨awaits, clear, rfl, rfl, rfl⟩
  | cons a rest ih =>
      simp only [Session.keepsWaiting, Bool.and_eq_true, Bool.not_eq_true'] at waiting
      have first : h.Waited [a] := by
        by_cases turn : a = .turn
        · subst turn
          exact waited_turn faithful regular awaits clear (by simpa [Session.endsKeyWait] using waiting.1)
        · exact waited_host awaits clear turn waiting.1
      have regular : (h.act a).session.Regular := by
        rw [session_act]
        apply regular.act faithful.coherent
        rintro now rfl
        exact clock now List.mem_cons_self
      refine first.cons (ih (faithful.act a) regular first.awaits first.clear ?_ ?_)
      · exact fun now member => clock now (List.mem_cons_of_mem a member)
      · rw [session_act]
        exact waiting.2

/-- The turn that finds the key consumes it and goes on, without an instruction. -/
theorem found_turn {h : History} (faithful : h.Faithful) (regular : h.session.Regular)
    (awaits : h.session.AwaitsKey) (clear : h.session.cancelled = false)
    (there : h.session.machine.keypad.current = h.session.machine.awaiting) :
    let found := h.act .turn
    found.executed = h.executed ∧
      found.session.machine =
        { h.session.machine with
          keypad := { current := none }
          awaiting := none
          timers := h.session.machine.timers.after (h.session.tickingAt false) } ∧
      found.sent = h.sent ++ endNotes found.session.ending? ∧
      if h.session.paused then found.session.StandsPaused
      else if h.session.machine.finished then
        found.session.position = .done ∧ found.session.phase = .terminated
      else (∃ duration, found.session.position = .sleeping duration) ∧ found.session.phase = .running := by
  intro found
  obtain ⟨⟨timeout, position⟩, -⟩ := awaits
  have going : h.session.position ≠ .done := by simp [position]
  have idle : h.session.dueMachine? = none := by simp only [Session.dueMachine?, position]
  have turned : found.session = h.session.withKey.proceed := regular.takeTurn_of_there position there
  refine ⟨?_, ?_, ?_, ?_⟩
  · exact (executed_takeTurn faithful).trans (by rw [idle]; exact List.append_nil _)
  · rw [turned, Session.machine_proceed]
    rfl
  · refine (sent_takeTurn faithful.coherent going).trans ?_
    rw [idle]
    exact congrArg (· ++ _) (List.append_nil _)
  · rw [turned]
    exact regular.withKey.stops clear

/-- From the time a thread waits for a key, and as long as it is neither cancelled nor reset and finds the
key at no turn, it stays at the wait, whatever the host does: each turn ticks the timers once at the rate
of the session, and only the host touches the keypad. The first turn that finds the key consumes it,
executes nothing, ticks the timers once more and goes on. -/
theorem waits_for_the_key (program : Program) (keyMap : KeyMap) (clockRate timerRate : Int)
    (random : Random.Source) (before waits : List Action) {timeout : Binary64}
    (clock : Session.ClockInRange (before ++ waits))
    (reached : ((Session.create program keyMap clockRate timerRate random).run before).position =
      .awaitingKey timeout)
    (clear : ((Session.create program keyMap clockRate timerRate random).run before).cancelled = false)
    (waiting : ((Session.create program keyMap clockRate timerRate random).run before).keepsWaiting waits =
      true) :
    let h := History.of (.create program keyMap clockRate timerRate random) before
    let g := h.run waits
    let ticks := h.session.atTurns (fun s => some (s.tickingAt true)) waits
    g.session.AwaitsKey ∧ g.session.machine.awaiting.isSome = true ∧
      g.executed = h.executed ∧ g.sent = h.sent ∧
      g.session.machine =
        { h.session.machine with
          keypad := waits.foldl Keypad.touched h.session.machine.keypad
          timers := ticks.foldl Countdown.after h.session.machine.timers } ∧
      ticks.length = waits.count .turn ∧
      (g.session.machine.keypad.current = g.session.machine.awaiting →
        let found := g.act .turn
        found.executed = g.executed ∧
          found.session.machine =
            { g.session.machine with
              keypad := { current := none }
              awaiting := none
              timers := g.session.machine.timers.after (g.session.tickingAt false) } ∧
          found.sent = g.sent ++ endNotes found.session.ending? ∧
          if g.session.paused then found.session.StandsPaused
          else if g.session.machine.finished then
            found.session.position = .done ∧ found.session.phase = .terminated
          else (∃ duration, found.session.position = .sleeping duration) ∧
            found.session.phase = .running) := by
  intro h g ticks
  rw [← session_of] at reached clear waiting
  have faithful : h.Faithful := faithful_of program keyMap clockRate timerRate random before
  have awaits : h.session.AwaitsKey := by
    have coherent := faithful.coherent
    simp only [Session.Coherent, Session.Settled, h, reached] at coherent
    exact ⟨⟨timeout, reached⟩, coherent.1⟩
  have regular : h.session.Regular := by
    rw [session_of]
    exact Session.regular_run program keyMap clockRate timerRate random fun now member =>
      clock now (List.mem_append_left waits member)
  have inRange : Session.ClockInRange waits := fun now member =>
    clock now (List.mem_append_right before member)
  have waited : h.Waited waits := waited_run faithful regular awaits clear inRange waiting
  have faithful' : g.Faithful := faithful.run waits
  have awaited : g.session.machine.awaiting.isSome = true := by
    obtain ⟨⟨last, position⟩, -⟩ := waited.awaits
    have coherent := faithful'.coherent
    simp only [Session.Coherent, Session.Settled, g, position] at coherent
    exact coherent.2
  have regular' : g.session.Regular := by
    rw [session_run]
    exact regular.run faithful.coherent inRange
  exact ⟨waited.awaits, awaited, waited.executed, waited.sent, waited.machine,
    Session.length_waitTicks waiting, found_turn faithful' regular' waited.awaits waited.clear⟩

/-- Another key, a pause, a change of the timer rate and a second come before the awaited key. -/
theorem waits_through_a_pause :
    let program : Program := ⟨[0x60, 0x05, 0xF0, 0x0A, 0x70, 0x01], by decide, by decide⟩
    let before : List Action := [.start false, .turn, .turn, .turn]
    let waits : List Action :=
      [.press (some 49), .turn, .pause, .changeTimerRate 10, .clock ⟨0x3FF0000000000000⟩, .turn,
        .press (some 53)]
    let h := History.of (.create program .default 700 60 .silent) before
    let g := h.run waits
    let found := g.act .turn
    g.session.AwaitsKey ∧ g.executed.length = 2 ∧ g.sent = [⟨.waitingForKey, .waitingForKey⟩] ∧
      g.session.machine.keypad = { current := some 53 } ∧ found.session.StandsPaused ∧
      found.executed.length = 2 ∧ found.session.machine.keypad.current = none ∧
      found.session.machine.awaiting = none := by
  intro program before waits h g found
  have clock : Session.ClockInRange (before ++ waits) := by
    intro now member
    obtain rfl : now = ⟨0x3FF0000000000000⟩ := by simpa [before, waits] using member
    exact Session.second_within
  have reached : h.session.position = .awaitingKey ⟨0x3F91111111111111⟩ := by decide +kernel
  obtain ⟨awaits, -, executed, sent, machine, -, finds⟩ :=
    waits_for_the_key program .default 700 60 .silent before waits clock reached (by decide +kernel)
      (by decide +kernel)
  have evaluated : h.executed.length = 2 ∧ h.sent = [⟨.waitingForKey, .waitingForKey⟩] ∧
      g.session.paused = true ∧ g.session.machine.keypad.current = some 53 ∧
      g.session.machine.awaiting = some 53 := by decide +kernel
  obtain ⟨count, notes, paused, pressed, awaited⟩ := evaluated
  obtain ⟨still, taken, -, stops⟩ := finds (pressed.trans awaited.symm)
  rw [paused] at stops
  have executed : g.executed.length = 2 := (congrArg List.length executed).trans count
  refine ⟨awaits, executed, sent.trans notes, congrArg Machine.keypad machine, stops,
    (congrArg List.length still).trans executed, ?_, ?_⟩
  · exact congrArg (fun m => m.keypad.current) taken
  · exact congrArg Machine.awaiting taken

end History

end Chip8
