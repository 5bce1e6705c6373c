import Chip8.Proofs.Session.Pausing

/-!
# The timers under a pause

A thread that is paused in its sleep ticks its timers at most once more, at the end of its cycle, but one
that waits for a key ticks them at every period of its wait, paused or not. Main statements:
`counters_run_of_paused`, the counters fall by the ticks of the thread alone; `ticks_while_paused`, which
ticks these are, and that a thread which has stood in the pause only takes a reading with its next tick.
-/

namespace Chip8

def Countdown.counters {Time : Type} (c : Countdown Time) : Int × Int :=
  (c.delay, c.sound)

namespace Session

variable {s : Session}

theorem ticking?_of_ahead (near : s.position.ahead ≤ 0) : s.ticking? = none := by
  cases position : s.position with
  | sleeping duration => simp [position, Position.ahead] at near
  | awaitingKey timeout => simp [position, Position.ahead] at near
  | absent | fresh | pausing | done => simp only [ticking?, position]

/-! ## The last tick of a paused thread -/

theorem ahead_executeCycle_of_found (quiet : s.machine.awaiting = none) (paused : s.paused = true)
    (found : s.broken = false → s.machine.missesKey = false) : s.executeCycle.position.ahead = 0 := by
  have awaits : s.cycled.machine.awaiting.isSome = s.machine.missesKey :=
    Machine.isSome_awaiting_cycle quiet
  rcases executeCycle_cases s with ⟨-, ended⟩ | ⟨sound, ⟨fault, -, ended⟩ | ⟨defect, -, ended⟩ |
    ⟨-, missed, -⟩ | ⟨-, -, goes⟩⟩
  · rw [ended]
    rfl
  · rw [ended]
    rfl
  · rw [ended]
    rfl
  · rw [awaits, found sound] at missed
    cases missed
  · rw [goes]
    exact ahead_completeCycle_of_paused paused

theorem ahead_takeTurn_of_found (coherent : s.Coherent) (paused : s.paused = true)
    (elsewhere : s.position.ahead ≠ 1) (found : ∀ m ∈ s.dueMachine?, m.missesKey = false) :
    s.takeTurn.position.ahead = 0 := by
  by_cases rested : s.position.ahead = 0
  · have still := ahead_takeTurn_of_paused paused
    rw [rested] at still
    exact Nat.le_zero.1 (still.trans (Nat.min_le_right _ _))
  · cases position : s.position with
    | sleeping duration =>
        have quiet := coherent.quiet_of_sleeping position
        simp only [takeTurn, position]
        refine ahead_executeCycle_of_found quiet paused fun sound => ?_
        exact found s.machine (by simp [dueMachine?, position, sound])
    | awaitingKey timeout => exact absurd (by rw [position]; rfl) elsewhere
    | absent | fresh | pausing | done => exact absurd (by rw [position]; rfl) rested

theorem ahead_takeTurn_of_ticking (coherent : s.Coherent) (paused : s.paused = true) {k : Ticking}
    (ticks : s.ticking? = some k) (atEnd : k.inKeyWait = false) : s.takeTurn.position.ahead = 0 := by
  cases position : s.position with
  | sleeping duration =>
      apply ahead_takeTurn_of_found coherent paused (by simp [position, Position.ahead])
      intro m due
      obtain ⟨rfl, -⟩ := takeTurn_of_due due
      simp only [ticking?, position] at ticks
      split at ticks
      · cases ticks
      · rename_i works
        simp only [Bool.not_eq_true, Bool.or_eq_false_iff] at works
        exact works.2
  | awaitingKey timeout =>
      simp only [ticking?, position] at ticks
      simp only [takeTurn, position, turnAtKeyWait]
      split at ticks
      · cases ticks
        cases atEnd
      · rename_i keypad there
        rw [there]
        exact ahead_endKeyWait_of_paused paused _
      · cases ticks
  | absent | fresh | pausing | done => simp [ticking?, position] at ticks

theorem filter_atTurns {α : Type} (f : Session → Option α) (p : α → Bool) (s : Session)
    (actions : List Action) :
    (s.atTurns f actions).filter p = s.atTurns (fun s => (f s).filter p) actions := by
  induction actions generalizing s with
  | nil => rfl
  | cons a rest ih =>
      have first : (s.atTurn f a).filter p = s.atTurn (fun s => (f s).filter p) a := by
        cases a <;> rfl
      simp only [atTurns, List.filter_append, ih, ← first]
      cases s.atTurn f a with
      | none => rfl
      | some found => cases holds : p found <;> simp [Option.filter, holds]

theorem length_cycle_ticks_le_one (coherent : s.Coherent) (paused : s.paused = true)
    {actions : List Action} (stays : s.staysPaused actions = true) :
    ((s.atTurns ticking? actions).filter fun k => !k.inKeyWait).length ≤ 1 := by
  rw [filter_atTurns]
  have rests {s : Session} (near : s.position.ahead ≤ 0) :
      (s.ticking?.filter fun k => !k.inKeyWait) = none := by
    rw [ticking?_of_ahead near]
    rfl
  refine length_atTurns_le_one rests ?_ coherent paused stays
  intro s coherent paused some
  obtain ⟨k, ticks⟩ := Option.isSome_iff_exists.1 some
  obtain ⟨ticks, atEnd⟩ := Option.filter_eq_some_iff.1 ticks
  exact (ahead_takeTurn_of_ticking coherent paused ticks (by simpa using atEnd)).le

theorem length_ticks_le_one (coherent : s.Coherent) (paused : s.paused = true)
    (elsewhere : s.position.ahead ≠ 1) {actions : List Action} (stays : s.staysPaused actions = true)
    (found : ∀ m ∈ s.atTurns dueMachine? actions, m.missesKey = false) :
    (s.atTurns ticking? actions).length ≤ 1 := by
  induction actions generalizing s with
  | nil => exact Nat.zero_le 1
  | cons a rest ih =>
      simp only [staysPaused, Bool.and_eq_true, Bool.not_eq_true'] at stays
      rw [atTurns, List.forall_mem_append] at found
      rw [atTurns, List.length_append]
      have held := paused_act paused stays.1
      by_cases turn : a = .turn
      · subst turn
        have near : (s.act .turn).position.ahead ≤ 0 :=
          (ahead_takeTurn_of_found coherent paused elsewhere (by simpa [atTurn] using found.1)).le
        rw [atTurns_eq_nil ticking?_of_ahead held near stays.2]
        exact Option.length_toList_le
      · rw [atTurn_of_host turn (kept_of_stays stays.1)]
        have elsewhere : (s.act a).position.ahead ≠ 1 := by rwa [ahead_act turn stays.1]
        simpa using ih (coherent_act coherent a) held elsewhere stays.2 found.2

/-! ## The counters -/

/-- The timers after the instruction that the thread still executes under a pause, if there is one. -/
def instructed (s : Session) (actions : List Action) : Countdown Binary64 :=
  match s.atTurns dueMachine? actions with
  | m :: _ => m.cycle.machine.timers
  | [] => s.machine.timers

theorem instructed_of_host {a : Action} (host : a ≠ .turn) (kept : ∀ paused, a ≠ .reset paused)
    (rest : List Action) : s.instructed (a :: rest) = (s.act a).instructed rest := by
  simp only [instructed, atTurns, atTurn_of_host host kept, timers_act host kept]
  rfl

theorem instructed_of_turn (paused : s.paused = true) {rest : List Action}
    (stays : (s.act .turn).staysPaused rest = true) :
    s.instructed (.turn :: rest) = s.nextMachine.timers ∧
      (s.act .turn).instructed rest = s.takeTurn.machine.timers := by
  -- Only the first turn under a pause can execute an instruction.
  have near : (s.act .turn).position.ahead ≤ 1 :=
    (ahead_takeTurn_of_paused paused).trans (Nat.min_le_left _ _)
  have none : (s.act .turn).atTurns dueMachine? rest = [] :=
    atTurns_eq_nil dueMachine?_of_ahead (paused_act paused rfl) near stays
  constructor
  · simp only [instructed, atTurns, atTurn, none, List.append_nil, nextMachine]
    cases s.dueMachine? <;> rfl
  · rw [instructed, none]
    rfl

/-- All that moves the counters under a pause is the instruction in flight, and then the ticks. -/
theorem counters_run_of_paused (coherent : s.Coherent) (paused : s.paused = true)
    {actions : List Action} (stays : s.staysPaused actions = true) :
    (s.run actions).machine.timers.counters =
      ((s.atTurns ticking? actions).foldl Countdown.after (s.instructed actions)).counters := by
  induction actions generalizing s with
  | nil => rfl
  | cons a rest ih =>
      simp only [staysPaused, Bool.and_eq_true, Bool.not_eq_true'] at stays
      have held := paused_act paused stays.1
      rw [run_cons, ih (coherent_act coherent a) held stays.2]
      by_cases turn : a = .turn
      · subst turn
        obtain ⟨first, second⟩ := instructed_of_turn paused stays.2
        rw [first, second, timers_takeTurn coherent, atTurns, atTurn, List.foldl_append]
        cases ticks : s.ticking? with
        | some k => rfl
        | none =>
            dsimp only
            split
            · -- Under a pause only a cancelled thread leaves the wait, and it ticks no more.
              rename_i leaves
              simp only [leavesPause, Bool.and_eq_true, decide_eq_true_eq] at leaves
              have near : (s.act .turn).position.ahead ≤ 0 := by
                have still := ahead_takeTurn_of_paused paused
                rw [leaves.1] at still
                exact still
              rw [atTurns_eq_nil ticking?_of_ahead held near stays.2]
              rfl
            · rfl
      · have kept := kept_of_stays stays.1
        rw [instructed_of_host turn kept, atTurns, atTurn_of_host turn kept]
        rfl

/-! ## After the pause -/

theorem last_act (coherent : s.Coherent) (restarted : s.machine.timers.last = none) {a : Action}
    (unticked : s.atTurn ticking? a = none) : (s.act a).machine.timers.last = none := by
  cases a with
  | turn =>
      have unticked : s.ticking? = none := unticked
      have next : s.nextMachine.timers.last = none := (last_nextMachine s).trans restarted
      simp only [act, timers_takeTurn coherent, unticked]
      split
      · rfl
      · exact next
  | reset paused => rfl
  | _ =>
      rw [timers_act (by simp) (by simp)]
      exact restarted

theorem last_run (coherent : s.Coherent) (restarted : s.machine.timers.last = none)
    {actions : List Action} (unticked : s.atTurns ticking? actions = []) :
    (s.run actions).machine.timers.last = none := by
  induction actions generalizing s with
  | nil => exact restarted
  | cons a rest ih =>
      simp only [atTurns, List.append_eq_nil_iff, Option.toList_eq_nil_iff] at unticked
      exact ih (coherent_act coherent a) (last_act coherent restarted unticked.1) unticked.2

theorem last_takeTurn_of_leavesPause (coherent : s.Coherent) (leaves : s.leavesPause = true) :
    s.takeTurn.machine.timers.last = none := by
  have position : s.position = .pausing := by
    simp only [leavesPause, Bool.and_eq_true, decide_eq_true_eq] at leaves
    exact leaves.1
  have unticked : s.ticking? = none := by simp only [ticking?, position]
  simp only [timers_takeTurn coherent, unticked, leaves, if_true]
  rfl

/-- From a pause to the release of the thread the counters fall by the ticks of the thread alone. At most
one of them is at the end of a cycle, and a thread that neither is at the key wait nor comes to one has no
others. A thread that leaves the pause counts no periods with its next tick, whatever the clock shows. -/
theorem ticks_while_paused (program : Program) (keyMap : KeyMap) (clockRate timerRate : Int)
    (random : Random.Source) (before after : List Action)
    (stays : (((create program keyMap clockRate timerRate random).run before).act .pause).staysPaused
      after = true) :
    let reached := (create program keyMap clockRate timerRate random).run before
    let asked := reached.act .pause
    let ticks := asked.atTurns ticking? after
    (asked.run after).machine.timers.counters =
        (ticks.foldl Countdown.after (asked.instructed after)).counters ∧
      (ticks.filter fun k => !k.inKeyWait).length ≤ 1 ∧
      ((∀ timeout, reached.position ≠ .awaitingKey timeout) →
        (∀ m ∈ asked.atTurns dueMachine? after, m.missesKey = false) → ticks.length ≤ 1) ∧
      (reached.leavesPause = true → ∀ more, reached.takeTurn.atTurns ticking? more = [] →
        ∀ rate now, ∃ ticked,
          { (reached.takeTurn.run more).nextMachine.timers with rate }.tick .binary64 now =
            .ok (0, ticked)) := by
  intro reached asked ticks
  have coherent : reached.Coherent :=
    coherent_run (coherent_create program keyMap clockRate timerRate random) before
  have held : asked.Coherent := coherent_act coherent .pause
  refine ⟨counters_run_of_paused held rfl stays, length_cycle_ticks_le_one held rfl stays, ?_, ?_⟩
  · intro elsewhere found
    refine length_ticks_le_one held rfl ?_ stays found
    intro waiting
    cases position : reached.position with
    | awaitingKey timeout => exact elsewhere timeout position
    | _ => simp [asked, act, pause, position, Position.ahead] at waiting
  · intro leaves more unticked rate now
    have restarted := last_takeTurn_of_leavesPause coherent leaves
    have last := last_run (coherent_takeTurn coherent) restarted unticked
    simp only [Countdown.tick, last_nextMachine, last]
    exact ⟨_, rfl⟩

/-- Paused in its sleep, where a second passes; and long after a pause, when the thread goes on. -/
theorem ticks_after_a_second :
    let program : Program := ⟨[0x60, 0xFF, 0xF0, 0x15, 0x60, 0x05], by decide, by decide⟩
    let start := create program .default 700 60 .silent
    let asked := (start.run [.start false, .turn, .turn, .turn]).act .pause
    let after : List Action := [.clock ⟨0x3FF0000000000000⟩, .turn, .turn]
    let reached := start.run [.start true, .turn, .clock ⟨0x3FF0000000000000⟩, .resume]
    (asked.atTurns ticking? after).length ≤ 1 ∧ (asked.run after).machine.timers.counters = (195, 0) ∧
      reached.leavesPause = true ∧
      ∃ ticked, { (reached.takeTurn.run []).nextMachine.timers with rate := 60 }.tick .binary64
        reached.now = .ok (0, ticked) := by
  intro program start asked after reached
  obtain ⟨counters, -, few, -⟩ := ticks_while_paused program .default 700 60 .silent
    [.start false, .turn, .turn, .turn] after (by decide +kernel)
  obtain ⟨-, -, -, rests⟩ := ticks_while_paused program .default 700 60 .silent
    [.start true, .turn, .clock ⟨0x3FF0000000000000⟩, .resume] [] rfl
  have sleeps : (start.run [.start false, .turn, .turn, .turn]).position.ahead = 2 := by decide +kernel
  refine ⟨few ?_ (by decide +kernel), ?_, by decide +kernel, ?_⟩
  · intro timeout waiting
    rw [waiting] at sleeps
    cases sleeps
  · rw [counters]
    decide +kernel
  · exact rests (by decide +kernel) [] rfl 60 reached.now

/-- Paused at the key wait, the thread ticks its timers as the seconds pass. -/
theorem ticks_at_the_key_wait :
    let program : Program :=
      ⟨[0x60, 0xFF, 0xF0, 0x15, 0x60, 0x05, 0xF0, 0x0A], by decide, by decide⟩
    let before : List Action := [.start false, .turn, .turn, .turn, .turn, .turn]
    let asked := ((create program .default 700 60 .silent).run before).act .pause
    let after : List Action :=
      [.clock ⟨0x3FF0000000000000⟩, .turn, .clock ⟨0x4000000000000000⟩, .turn,
        .clock ⟨0x4008000000000000⟩, .turn]
    asked.staysPaused after = true ∧ ¬ (asked.atTurns ticking? after).length ≤ 1 ∧
      asked.machine.timers.counters = (255, 0) ∧
      (asked.run after).machine.timers.counters = (75, 0) := by
  decide +kernel

end Session

end Chip8
