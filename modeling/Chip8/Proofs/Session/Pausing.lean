import Chip8.Proofs.Session.Cancellation

/-!
# Pausing

Between its pause and the action that releases it, the thread finishes the cycle that it has begun and
then stands still. Main statements: `takeTurn_of_paused`, where a turn takes a paused thread;
`length_atTurns_le_one`, what a cycle does once a paused thread does at most once; `stopped_by_pause`, what
a pause does to a reachable session.
-/

namespace Chip8

/-- How many turns a paused thread that misses no key takes before it stands still. -/
def Position.ahead : Position → Nat
  | .sleeping _ => 2
  | .awaitingKey _ => 1
  | _ => 0

namespace Session

def releases (s : Session) : Action → Bool
  | .resume | .togglePause | .cancel | .reset _ => true
  | .start paused => s.position = .absent && !paused
  | _ => false

/-- Whether no action of a run that begins paused releases the thread. -/
def staysPaused : Session → List Action → Bool
  | _, [] => true
  | s, a :: rest => !s.releases a && staysPaused (s.act a) rest

/-! ## Positions under a pause -/

section

variable {s : Session}

theorem proceed_of_paused (paused : s.paused = true) (clear : s.cancelled = false) :
    s.proceed = { s with phase := .paused, position := .pausing } := by
  simp [proceed, paused, clear]

theorem ahead_proceed_of_paused (paused : s.paused = true) : s.proceed.position.ahead = 0 := by
  cases cancelled : s.cancelled with
  | false =>
      rw [proceed_of_paused paused cancelled]
      rfl
  | true =>
      rw [proceed_of_cancelled cancelled]
      rfl

theorem ahead_completeCycle_of_paused (paused : s.paused = true) :
    s.completeCycle.position.ahead = 0 := by
  unfold completeCycle
  split
  · rename_i t ticked
    obtain ⟨timers, rfl⟩ := tickTimers_ok ticked
    exact ahead_proceed_of_paused paused
  · rfl

theorem ahead_stopForKey_le (s : Session) : s.stopForKey.position.ahead ≤ 1 := by
  unfold stopForKey
  split
  · exact le_refl 1
  · exact Nat.zero_le 1

theorem ahead_endKeyWait_of_paused (paused : s.paused = true) (outcome : Bool × Keypad) :
    (s.endKeyWait outcome).position.ahead = 0 := by
  obtain ⟨taken, keypad⟩ := outcome
  cases taken with
  | false => rfl
  | true => exact ahead_completeCycle_of_paused paused

theorem ahead_enterKeyWait_of_paused (paused : s.paused = true) :
    s.enterKeyWait.position.ahead ≤ 1 := by
  unfold enterKeyWait
  simp only
  split
  · rw [ahead_endKeyWait_of_paused (by exact paused)]
    exact Nat.zero_le 1
  · exact ahead_stopForKey_le _

theorem ahead_executeCycle_of_paused (paused : s.paused = true) :
    s.executeCycle.position.ahead ≤ 1 := by
  rcases executeCycle_cases s with ⟨-, ended⟩ | ⟨-, ⟨fault, -, ended⟩ | ⟨defect, -, ended⟩ |
    ⟨-, -, waits⟩ | ⟨-, -, goes⟩⟩
  · rw [ended]
    exact Nat.zero_le 1
  · rw [ended]
    exact Nat.zero_le 1
  · rw [ended]
    exact Nat.zero_le 1
  · rw [waits]
    exact ahead_enterKeyWait_of_paused paused
  · rw [goes, ahead_completeCycle_of_paused (by exact paused)]
    exact Nat.zero_le 1

theorem ahead_turnAtKeyWait_of_paused (paused : s.paused = true) :
    s.turnAtKeyWait.position.ahead ≤ 1 := by
  unfold turnAtKeyWait
  split
  · rw [ahead_endKeyWait_of_paused paused]
    exact Nat.zero_le 1
  · split
    · exact ahead_stopForKey_le _
    · exact Nat.zero_le 1

theorem ahead_takeTurn_of_paused (paused : s.paused = true) :
    s.takeTurn.position.ahead ≤ min 1 s.position.ahead := by
  unfold takeTurn
  cases position : s.position with
  | absent | done => simp [position, Position.ahead]
  | fresh => simp [ahead_proceed_of_paused paused]
  | sleeping duration => exact ahead_executeCycle_of_paused paused
  | pausing =>
      dsimp only [turnAtPause]
      split
      · simp [position, Position.ahead]
      · rename_i released
        have cancelled : s.cancelled = true := by simpa [paused] using released
        rw [position_goOn_of_cancelled (by exact cancelled)]
        exact Nat.zero_le _
  | awaitingKey timeout => exact ahead_turnAtKeyWait_of_paused paused

/-! ## Where a turn takes a paused thread -/

/-- Whether the key that the next turn looks for is not there. -/
def missesKey (s : Session) : Bool :=
  match s.position with
  | .sleeping _ => s.machine.missesKey
  | .awaitingKey _ => s.machine.keypad.current ≠ s.machine.awaiting
  | _ => false

def StandsPaused (s : Session) : Prop :=
  s.position = .pausing ∧ s.phase = .paused

def AwaitsKey (s : Session) : Prop :=
  (∃ timeout, s.position = .awaitingKey timeout) ∧ s.phase = .waitingForKey

theorem Regular.completeCycle_of_paused (regular : s.Regular) (paused : s.paused = true)
    (clear : s.cancelled = false) : s.completeCycle.StandsPaused := by
  obtain ⟨timers, ticked⟩ := regular.tickTimers
  simp only [completeCycle, ticked]
  rw [proceed_of_paused (by exact paused) (by exact clear)]
  exact ⟨rfl, rfl⟩

theorem Regular.stopForKey (regular : s.Regular) (waiting : s.phase = .waitingForKey) :
    s.stopForKey.AwaitsKey := by
  obtain ⟨timeout, isPeriod⟩ := regular.timerPeriod
  simp only [Session.stopForKey, isPeriod]
  exact ⟨⟨timeout, rfl⟩, waiting⟩

theorem Regular.executeCycle_of_paused (regular : s.Regular) (quiet : s.machine.awaiting = none)
    (paused : s.paused = true) (clear : s.cancelled = false) (sound : s.broken = false)
    (works : s.machine.cycle.failure = none) :
    if s.machine.missesKey then s.executeCycle.AwaitsKey else s.executeCycle.StandsPaused := by
  rw [executeCycle_of_works quiet sound works]
  split
  · rename_i misses
    have absent := Machine.current_ne_awaiting_cycle misses
    have tested := testKeyWait_of_missed (s := { s.cycled with phase := .waitingForKey }.notify
      .waitingForKey) absent
    have clear : ({ s.cycled with phase := .waitingForKey }.notify .waitingForKey).cancelled = false :=
      clear
    rw [clear] at tested
    simp only [enterKeyWait, tested, Bool.false_eq_true, if_false]
    exact Regular.stopForKey { regular.cycled with } rfl
  · exact regular.cycled.completeCycle_of_paused paused clear

theorem Regular.turnAtKeyWait_of_paused (regular : s.Regular) (waiting : s.phase = .waitingForKey)
    (paused : s.paused = true) (clear : s.cancelled = false) :
    if s.machine.keypad.current = s.machine.awaiting then s.turnAtKeyWait.StandsPaused
    else s.turnAtKeyWait.AwaitsKey := by
  unfold turnAtKeyWait
  split
  · rename_i there
    simp only [testKeyWait_of_there there, endKeyWait]
    refine completeCycle_of_paused ?_ paused clear
    exact { regular with bounded := { regular.bounded with } }
  · rename_i missed
    simp only [testKeyWait_of_missed missed, clear, Bool.false_eq_true, if_false]
    obtain ⟨timers, ticked⟩ := regular.tickTimers
    obtain ⟨timeout, isPeriod⟩ := regular.timerPeriod
    simp only [ticked, Session.stopForKey, isPeriod]
    exact ⟨⟨timeout, rfl⟩, waiting⟩

theorem takeTurn_of_raises (raises : s.raises = true) :
    s.takeTurn.position = .done ∧ s.takeTurn.phase = .failed := by
  unfold Session.raises at raises
  split at raises
  · rename_i duration position
    simp only [takeTurn, position]
    rcases executeCycle_cases s with ⟨-, ended⟩ | ⟨sound, ⟨fault, -, ended⟩ | ⟨defect, -, ended⟩ |
      ⟨works, -, -⟩ | ⟨works, -, -⟩⟩
    · rw [ended]
      exact ⟨rfl, rfl⟩
    · rw [ended]
      exact ⟨rfl, rfl⟩
    · rw [ended]
      exact ⟨rfl, rfl⟩
    · simp [sound, works] at raises
    · simp [sound, works] at raises
  · cases raises

theorem takeTurn_of_works (regular : s.Regular) (coherent : s.Coherent) (live : s.isLive = true)
    (paused : s.paused = true) (clear : s.cancelled = false) (works : s.raises = false) :
    if s.missesKey then s.takeTurn.AwaitsKey else s.takeTurn.StandsPaused := by
  unfold takeTurn missesKey
  cases position : s.position with
  | absent | done => simp [isLive, position] at live
  | fresh =>
      rw [proceed_of_paused paused clear]
      exact ⟨rfl, rfl⟩
  | sleeping duration =>
      have quiet := coherent.quiet_of_sleeping position
      simp only [raises, position, Bool.or_eq_false_iff] at works
      exact regular.executeCycle_of_paused quiet paused clear works.1 (by simpa using works.2)
  | pausing =>
      simp only [Coherent, Settled, position] at coherent
      simp only [turnAtPause, paused, clear, Bool.not_false, Bool.and_self, if_true]
      exact ⟨position, coherent.1⟩
  | awaitingKey timeout =>
      simp only [Coherent, Settled, position] at coherent
      simpa using regular.turnAtKeyWait_of_paused coherent.1 paused clear

theorem takeTurn_of_paused (regular : s.Regular) (coherent : s.Coherent) (live : s.isLive = true)
    (paused : s.paused = true) (clear : s.cancelled = false) :
    if s.raises then s.takeTurn.position = .done ∧ s.takeTurn.phase = .failed
    else if s.missesKey then s.takeTurn.AwaitsKey else s.takeTurn.StandsPaused := by
  split
  · rename_i raises
    exact takeTurn_of_raises raises
  · rename_i works
    exact takeTurn_of_works regular coherent live paused clear (Bool.eq_false_iff.2 works)

end

/-! ## Runs under a pause -/

section

variable {s : Session}

theorem paused_act {a : Action} (paused : s.paused = true) (stays : s.releases a = false) :
    (s.act a).paused = true := by
  cases a with
  | start again =>
      simp only [act]
      cases started : s.start again with
      | none => exact paused
      | some t =>
          obtain ⟨absent, rfl⟩ := start_eq_some started
          simpa [releases, absent] using stays
  | reset again | resume | togglePause | cancel => cases stays
  | turn => exact (congrArg Settings.paused (settings_takeTurn s)).trans paused
  | pause => rfl
  | _ => exact paused

theorem kept_of_stays {a : Action} (stays : s.releases a = false) (again : Bool) : a ≠ .reset again := by
  rintro rfl
  cases stays

theorem cancelled_act_of_stays {a : Action} (stays : s.releases a = false) :
    (s.act a).cancelled = s.cancelled := by
  have uncancelled : a ≠ .cancel := by
    rintro rfl
    cases stays
  simp [cancelled_act (kept_of_stays stays), uncancelled]

theorem ahead_act {a : Action} (host : a ≠ .turn) (stays : s.releases a = false) :
    (s.act a).position.ahead = s.position.ahead := by
  cases a with
  | turn => exact absurd rfl host
  | start again =>
      simp only [act]
      cases started : s.start again with
      | none => rfl
      | some t =>
          obtain ⟨absent, rfl⟩ := start_eq_some started
          rw [absent]
          rfl
  | reset again | resume | togglePause | cancel => cases stays
  | _ => rfl

theorem ahead_act_le {a : Action} (paused : s.paused = true) (stays : s.releases a = false) :
    (s.act a).position.ahead ≤ s.position.ahead := by
  by_cases turn : a = .turn
  · subst turn
    exact (ahead_takeTurn_of_paused paused).trans (Nat.min_le_right _ _)
  · exact (ahead_act turn stays).le

section

variable {α : Type} {f : Session → Option α} {bound : Nat}
variable (rests : ∀ {s : Session}, s.position.ahead ≤ bound → f s = none)

include rests

theorem atTurns_eq_nil (paused : s.paused = true) (near : s.position.ahead ≤ bound)
    {actions : List Action} (stays : s.staysPaused actions = true) : s.atTurns f actions = [] := by
  induction actions generalizing s with
  | nil => rfl
  | cons a rest ih =>
      simp only [staysPaused, Bool.and_eq_true, Bool.not_eq_true'] at stays
      have later := ih (paused_act paused stays.1) ((ahead_act_le paused stays.1).trans near) stays.2
      have first : s.atTurn f a = none := by
        by_cases turn : a = .turn
        · subst turn
          exact rests near
        · exact atTurn_of_host turn (kept_of_stays stays.1)
      rw [atTurns, first, later]
      rfl

/-- What happens at most once in a cycle happens at most once while the thread is paused. -/
theorem length_atTurns_le_one
    (spends : ∀ {s : Session}, s.Coherent → s.paused = true → (f s).isSome = true →
      s.takeTurn.position.ahead ≤ bound)
    (coherent : s.Coherent) (paused : s.paused = true) {actions : List Action}
    (stays : s.staysPaused actions = true) : (s.atTurns f actions).length ≤ 1 := by
  induction actions generalizing s with
  | nil => exact Nat.zero_le 1
  | cons a rest ih =>
      simp only [staysPaused, Bool.and_eq_true, Bool.not_eq_true'] at stays
      have held := paused_act paused stays.1
      rw [atTurns, List.length_append]
      -- Before the first find nothing is spent, and after it nothing is left to spend.
      cases first : s.atTurn f a with
      | none => simpa using ih (coherent_act coherent a) held stays.2
      | some found =>
          have turn : a = .turn := by
            by_contra host
            rw [atTurn_of_host host (kept_of_stays stays.1)] at first
            cases first
          subst turn
          have near := spends coherent paused (by simpa [atTurn] using congrArg Option.isSome first)
          rw [atTurns_eq_nil rests held near stays.2]
          exact le_refl 1

end

theorem dueMachine?_of_ahead (near : s.position.ahead ≤ 1) : s.dueMachine? = none := by
  unfold dueMachine?
  split
  · rename_i duration position
    simp [position, Position.ahead] at near
  · rfl

theorem length_instructions_le_one (coherent : s.Coherent) (paused : s.paused = true)
    {actions : List Action} (stays : s.staysPaused actions = true) :
    (s.atTurns dueMachine? actions).length ≤ 1 := by
  apply length_atTurns_le_one dueMachine?_of_ahead ?_ coherent paused stays
  intro s _ paused _
  exact (ahead_takeTurn_of_paused paused).trans (Nat.min_le_left _ _)

theorem paused_run (paused : s.paused = true) {actions : List Action}
    (stays : s.staysPaused actions = true) : (s.run actions).paused = true := by
  induction actions generalizing s with
  | nil => exact paused
  | cons a rest ih =>
      simp only [staysPaused, Bool.and_eq_true, Bool.not_eq_true'] at stays
      exact ih (paused_act paused stays.1) stays.2

theorem cancelled_run_of_staysPaused {actions : List Action} (stays : s.staysPaused actions = true) :
    (s.run actions).cancelled = s.cancelled := by
  induction actions generalizing s with
  | nil => rfl
  | cons a rest ih =>
      simp only [staysPaused, Bool.and_eq_true, Bool.not_eq_true'] at stays
      exact (ih stays.2).trans (cancelled_act_of_stays stays.1)

/-! ## The wait while paused -/

theorem takeTurn_of_pausing (pausing : s.position = .pausing) (paused : s.paused = true)
    (clear : s.cancelled = false) : s.takeTurn = s := by
  simp [takeTurn, pausing, turnAtPause, paused, clear]

theorem position_goOn (s : Session) :
    (∃ duration, s.goOn.position = .sleeping duration ∧ s.goOn.phase = .running) ∨
      s.goOn.position = .done := by
  unfold goOn
  split
  · exact Or.inr rfl
  · split
    · exact Or.inr rfl
    · split
      · exact Or.inl ⟨_, rfl, rfl⟩
      · exact Or.inr rfl

theorem leaves_pause (pausing : s.position = .pausing) (released : s.paused = false) :
    (∃ duration, s.takeTurn.position = .sleeping duration ∧ s.takeTurn.phase = .running) ∨
      s.takeTurn.position = .done := by
  simp only [takeTurn, pausing, turnAtPause, released, Bool.false_and, Bool.false_eq_true, if_false]
  exact position_goOn _

theorem machine_act_of_pausing {a : Action} (pausing : s.position = .pausing) (paused : s.paused = true)
    (clear : s.cancelled = false) (stays : s.releases a = false) :
    (s.act a).machine = { s.machine with keypad := (s.act a).machine.keypad } := by
  by_cases turn : a = .turn
  · subst turn
    simp only [act, takeTurn_of_pausing pausing paused clear]
  · exact machine_act turn (kept_of_stays stays)

end

end Session

namespace History

theorem unmoved_act_of_pausing {h : History} (faithful : h.Faithful)
    (pausing : h.session.position = .pausing) (paused : h.session.paused = true)
    (clear : h.session.cancelled = false) {a : Action} (stays : h.session.releases a = false) :
    h.Unmoved (h.act a) := by
  by_cases turn : a = .turn
  · subst turn
    exact unmoved_turn faithful (Session.takeTurn_of_pausing pausing paused clear)
      (by simp [Session.dueMachine?, pausing])
  · exact unmoved_act_of_host (by simp [pausing]) turn (Session.kept_of_stays stays)

theorem unmoved_run_of_pausing {h : History} (faithful : h.Faithful)
    (pausing : h.session.position = .pausing) (paused : h.session.paused = true)
    (clear : h.session.cancelled = false) {actions : List Action}
    (stays : h.session.staysPaused actions = true) :
    h.Unmoved (h.run actions) ∧
      (h.run actions).session.machine =
        { h.session.machine with keypad := (h.run actions).session.machine.keypad } := by
  induction actions generalizing h with
  | nil => exact ⟨unmoved_refl h, rfl⟩
  | cons a rest ih =>
      simp only [Session.staysPaused, Bool.and_eq_true, Bool.not_eq_true'] at stays
      have first := unmoved_act_of_pausing faithful pausing paused clear stays.1
      have machine := Session.machine_act_of_pausing pausing paused clear stays.1
      rw [← session_act] at machine
      have held : (h.act a).session.paused = true ∧ (h.act a).session.cancelled = false := by
        rw [session_act]
        exact ⟨Session.paused_act paused stays.1, (Session.cancelled_act_of_stays stays.1).trans clear⟩
      have later := ih (faithful.act a) (first.position.trans pausing) held.1 held.2
        (by rw [session_act]; exact stays.2)
      refine ⟨first.trans later.1, later.2.trans ?_⟩
      rw [machine]
      rfl

theorem length_executed_le_of_paused {h : History} (faithful : h.Faithful)
    (paused : h.session.paused = true) {actions : List Action}
    (stays : h.session.staysPaused actions = true) :
    (h.run actions).executed.length ≤ h.executed.length + 1 := by
  rw [executed_run faithful, List.length_append]
  exact Nat.add_le_add_left (Session.length_instructions_le_one faithful.coherent paused stays) _

theorem held_run {h : History} (paused : h.session.paused = true) (clear : h.session.cancelled = false)
    {actions : List Action} (stays : h.session.staysPaused actions = true) :
    (h.run actions).session.paused = true ∧ (h.run actions).session.cancelled = false := by
  rw [session_run]
  exact ⟨Session.paused_run paused stays, (Session.cancelled_run_of_staysPaused stays).trans clear⟩

theorem stands_run_of_pausing {h : History} (faithful : h.Faithful)
    (pausing : h.session.position = .pausing) (paused : h.session.paused = true)
    (clear : h.session.cancelled = false) {actions : List Action}
    (stays : h.session.staysPaused actions = true) :
    (h.run actions).session.StandsPaused ∧
      (h.run actions).session.takeTurn = (h.run actions).session := by
  have unmoved := (unmoved_run_of_pausing faithful pausing paused clear stays).1
  have held := held_run paused clear stays
  have still : (h.run actions).session.position = .pausing := unmoved.position.trans pausing
  have phase : h.session.phase = .paused := by
    have coherent := faithful.coherent
    simp only [Session.Coherent, Session.Settled, pausing] at coherent
    exact coherent.1
  exact ⟨⟨still, unmoved.phase.trans phase⟩, Session.takeTurn_of_pausing still held.1 held.2⟩

/-- After a pause at most one more instruction is executed until the thread is released. If the run is
not cancelled, each turn of the live thread takes it to the key wait, if its key is missing, to the end,
if its instruction raises, or into the pause, wherever the program counter is; there every further turn
leaves it. Once the pause is over, its next turn leaves it. -/
theorem stopped_by_pause (program : Program) (keyMap : KeyMap) (clockRate timerRate : Int)
    (random : Random.Source) (before after : List Action)
    (stays : (((Session.create program keyMap clockRate timerRate random).run before).act
      .pause).staysPaused after = true) :
    let h := History.of (.create program keyMap clockRate timerRate random) before
    let g := (h.act .pause).run after
    g.executed.length ≤ h.executed.length + 1 ∧
      (Session.ClockInRange (before ++ after) → h.session.cancelled = false →
        g.session.isLive = true →
        if g.session.raises then g.session.takeTurn.position = .done ∧ g.session.takeTurn.phase = .failed
        else if g.session.missesKey then g.session.takeTurn.AwaitsKey
        else g.session.takeTurn.StandsPaused) ∧
      (g.session.position = .pausing → h.session.cancelled = false →
        ∀ more, g.session.staysPaused more = true →
          let k := g.run more
          k.session.StandsPaused ∧ k.session.takeTurn = k.session ∧
            k.session.machine = { g.session.machine with keypad := k.session.machine.keypad } ∧
            k.executed = g.executed ∧ k.sent = g.sent) ∧
      (g.session.position = .pausing →
        ∀ ops, .turn ∉ ops → (∀ paused, .reset paused ∉ ops) →
          let r := ((g.act .resume).run ops).session
          r.paused = false →
            (∃ duration, r.takeTurn.position = .sleeping duration ∧ r.takeTurn.phase = .running) ∨
              r.takeTurn.position = .done) := by
  intro h g
  have asked : (h.act .pause).Faithful :=
    (faithful_of program keyMap clockRate timerRate random before).act .pause
  have stays : (h.act .pause).session.staysPaused after = true := by rwa [session_act, session_of]
  have faithful : g.Faithful := asked.run after
  refine ⟨length_executed_le_of_paused asked rfl stays, ?_, ?_, ?_⟩
  · intro clock clear live
    obtain ⟨paused, clear⟩ := held_run (h := h.act .pause) rfl clear stays
    have regular : g.session.Regular :=
      regular_of_act program keyMap clockRate timerRate random (by simpa [Session.ClockInRange] using clock)
    exact Session.takeTurn_of_paused regular faithful.coherent live paused clear
  · intro pausing clear more still
    obtain ⟨paused, clear⟩ := held_run (h := h.act .pause) rfl clear stays
    obtain ⟨stands, same⟩ := stands_run_of_pausing faithful pausing paused clear still
    obtain ⟨unmoved, machine⟩ := unmoved_run_of_pausing faithful pausing paused clear still
    exact ⟨stands, same, machine, unmoved.executed, unmoved.sent⟩
  · intro pausing ops host kept r released
    have waits : (g.act .resume).session.position = .pausing := pausing
    have unmoved := unmoved_run_of_host (h := g.act .resume) (by simp only [waits]; decide) host kept
    exact Session.leaves_pause (unmoved.position.trans waits) released

/-- Paused in its sleep, with a key pressed meanwhile; then resumed, paused and resumed again. -/
theorem stopped_in_its_sleep :
    let program : Program := ⟨[0x70, 0x01, 0x70, 0x01, 0x70, 0x01], by decide, by decide⟩
    let h := History.of (.create program .default 700 60 .silent) [.start false, .turn]
    let g := (h.act .pause).run [.turn, .turn]
    let k := g.run [.press (some 48), .turn, .turn]
    h.session.phase = .running ∧ g.executed.length ≤ 1 ∧ g.session.position = .pausing ∧
      k.session.StandsPaused ∧ k.session.machine.pc = 0x202 ∧
      ((g.act .resume).run [.pause, .resume]).session.takeTurn.phase = .running := by
  intro program h g k
  obtain ⟨executed, -, stands, leaves⟩ := stopped_by_pause program .default 700 60 .silent
    [.start false, .turn] [.turn, .turn] (by decide +kernel)
  have pausing : g.session.position = .pausing := by decide +kernel
  obtain ⟨paused, -, machine, -, -⟩ :=
    stands pausing (by decide +kernel) [.press (some 48), .turn, .turn] (by decide +kernel)
  refine ⟨by decide +kernel, executed, pausing, paused, ?_, ?_⟩
  · have pc : k.session.machine.pc = g.session.machine.pc := (congrArg Machine.pc machine).trans rfl
    rw [pc]
    decide +kernel
  · rcases leaves pausing [.pause, .resume] (by simp) (by simp) rfl with ⟨duration, -, phase⟩ | ended
    · exact phase
    · revert ended
      decide +kernel

/-- A pause before the thread starts does not hold a thread that starts unpaused, and one after the
cancellation does not hold a thread that is about to end. -/
theorem start_overrides_pause :
    let program : Program := ⟨[0x70, 0x01, 0x70, 0x01, 0x70, 0x01], by decide, by decide⟩
    let h := History.of (.create program .default 700 60 .silent) []
    let g := (h.act .pause).run [.start false, .turn, .turn, .turn]
    let cancelled := History.of (.create program .default 700 60 .silent) [.start false, .turn, .cancel]
    ¬ g.executed.length ≤ h.executed.length + 1 ∧ cancelled.session.isLive = true ∧
      ¬ ((cancelled.act .pause).act .turn).session.StandsPaused := by
  intro program h g cancelled
  refine ⟨by decide +kernel, by decide +kernel, ?_⟩
  rintro ⟨pausing, -⟩
  revert pausing
  decide +kernel

end History

end Chip8
