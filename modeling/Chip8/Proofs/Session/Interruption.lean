import Chip8.Proofs.Session.Cancellation
import Chip8.Proofs.Session.KeyWait

/-!
# Interrupted waits

A wait that is interrupted still looks for its key. Main statements: `waitFor_interrupted`, it takes the key
if it is there and nothing if not; `interrupted_at_the_wait`, a cancelled thread leaves the key wait with its
next turn, and so swallows the awaited key if the host has pressed that key last.
-/

namespace Chip8

theorem Keypad.waitFor_interrupted (k : Keypad) (key : Option Int) (timeUp : Bool) :
    k.waitFor key true timeUp =
      some (if k.current = key then (true, { current := none }) else (false, k)) :=
  rfl

namespace Session

variable {s : Session}

/-! ## What the host does in between -/

theorem machine_run_of_host {actions : List Action} (host : .turn ∉ actions)
    (kept : ∀ paused, .reset paused ∉ actions) :
    (s.run actions).machine =
      { s.machine with keypad := actions.foldl Keypad.touched s.machine.keypad } := by
  induction actions generalizing s with
  | nil => rfl
  | cons a rest ih =>
      have turn : a ≠ .turn := fun same => host (by simp [same])
      have reset : ∀ paused, a ≠ .reset paused := fun paused same => kept paused (by simp [same])
      rw [run_cons, ih, machine_act turn reset, keypad_act turn reset]
      · rfl
      · exact fun member => host (List.mem_cons_of_mem a member)
      · exact fun paused member => kept paused (List.mem_cons_of_mem a member)

/-! ## The turn at the wait -/

section

variable {timeout : Binary64} (position : s.position = .awaitingKey timeout)
  (cancelled : s.cancelled = true)

include position cancelled

theorem takeTurn_of_interrupted :
    s.takeTurn = s.endKeyWait (s.machine.keypad.take s.machine.awaiting) := by
  simp only [takeTurn, position, turnAtKeyWait, testKeyWait_of_cancelled cancelled]

theorem takeTurn_of_interrupted_missed (missed : s.machine.keypad.current ≠ s.machine.awaiting) :
    s.takeTurn = s.finish .cancelled := by
  have taken : s.machine.keypad.take s.machine.awaiting = (false, s.machine.keypad) := if_neg missed
  rw [takeTurn_of_interrupted position cancelled, taken]
  rfl

theorem machine_takeTurn_of_interrupted_there
    (there : s.machine.keypad.current = s.machine.awaiting) :
    s.takeTurn.machine.keypad = { current := none } ∧ s.takeTurn.machine.awaiting = none := by
  have taken : s.machine.keypad.take s.machine.awaiting = (true, { current := none }) := if_pos there
  rw [takeTurn_of_interrupted position cancelled, taken, endKeyWait, machine_completeCycle]
  exact ⟨rfl, rfl⟩

end

/-- An interrupted wait consumes its key if the key is there, and nothing otherwise. So the turn that ends a
cancelled run at the key wait leaves the keypad and the awaited key alone, unless the host has pressed that
very key last: then both are cleared. -/
theorem interrupted_at_the_wait (program : Program) (keyMap : KeyMap) (clockRate timerRate : Int)
    (random : Random.Source) (before ops : List Action) {timeout : Binary64}
    (reached : ((create program keyMap clockRate timerRate random).run before).position =
      .awaitingKey timeout)
    (host : .turn ∉ ops) (kept : ∀ paused, .reset paused ∉ ops)
    (asked : ((create program keyMap clockRate timerRate random).run before).cancelled = true ∨
      .cancel ∈ ops) :
    let s := (create program keyMap clockRate timerRate random).run before
    let ended := (s.run ops).takeTurn
    let keypad := ops.foldl Keypad.touched s.machine.keypad
    (∀ (k : Keypad) (key : Option Int) (timeUp : Bool),
      (k.current ≠ key → k.waitFor key true timeUp = some (false, k)) ∧
        (k.current = key → k.waitFor key true timeUp = some (true, { current := none }))) ∧
    s.machine.awaiting.isSome = true ∧ ended.position = .done ∧
    (keypad.current ≠ s.machine.awaiting →
      ended.phase = .cancelled ∧ ended.machine = { s.machine with keypad }) ∧
    (keypad.current = s.machine.awaiting →
      ended.machine.keypad = { current := none } ∧ ended.machine.awaiting = none) := by
  intro s ended keypad
  have coherent : s.Coherent :=
    coherent_run (coherent_create program keyMap clockRate timerRate random) before
  have awaited : s.machine.awaiting.isSome = true := by
    simp only [Coherent, Settled, s, reached] at coherent
    exact coherent.2
  -- the host moves nothing but the keypad and the flags, so the turn finds the thread at its wait
  have position : (s.run ops).position = .awaitingKey timeout := by
    let h := History.of (create program keyMap clockRate timerRate random) before
    have session : h.session = s := History.session_of _ before
    have unmoved : h.Unmoved (h.run ops) := by
      apply History.unmoved_run_of_host _ host kept
      rw [session, reached]
      simp
    rw [← session, ← History.session_run, unmoved.position, session, reached]
  have cancelled : (s.run ops).cancelled = true := (cancelled_run_iff kept).2 asked
  have machine : (s.run ops).machine = { s.machine with keypad } := machine_run_of_host host kept
  have current : (s.run ops).machine.keypad.current = keypad.current :=
    congrArg (fun m => m.keypad.current) machine
  have awaiting : (s.run ops).machine.awaiting = s.machine.awaiting := by rw [machine]
  refine ⟨?_, awaited, ?_, ?_, ?_⟩
  · intro k key timeUp
    constructor
    · intro missed
      rw [Keypad.waitFor_interrupted, if_neg missed]
    · intro there
      rw [Keypad.waitFor_interrupted, if_pos there]
  · show (s.run ops).takeTurn.position = .done
    rw [takeTurn_of_interrupted position cancelled]
    exact position_endKeyWait_of_cancelled cancelled _
  · intro missed
    show (s.run ops).takeTurn.phase = .cancelled ∧ (s.run ops).takeTurn.machine = _
    rw [takeTurn_of_interrupted_missed position cancelled (by rwa [current, awaiting])]
    exact ⟨rfl, machine⟩
  · intro there
    exact machine_takeTurn_of_interrupted_there position cancelled (by rwa [current, awaiting])

/-- The awaited key is pressed and the run cancelled, but another key comes before the turn. -/
theorem interrupted_with_another_key :
    let program : Program := ⟨[0x60, 0x05, 0xF0, 0x0A], by decide, by decide⟩
    let before : List Action := [.start false, .turn, .turn, .turn]
    let ops : List Action := [.press (some 53), .cancel, .press (some 49)]
    let s := (create program .default 700 60 .silent).run before
    let ended := (s.run ops).takeTurn
    s.phase = .waitingForKey ∧ ended.phase = .cancelled ∧
      ended.machine.keypad.current = some 49 ∧ ended.machine.awaiting = some 53 := by
  intro program before ops s ended
  have reached : s.position = .awaitingKey ⟨0x3F91111111111111⟩ := by decide +kernel
  obtain ⟨-, -, -, missed, -⟩ :=
    interrupted_at_the_wait program .default 700 60 .silent before ops reached (by simp [ops])
      (by simp [ops]) (by simp [ops])
  have evaluated : s.phase = .waitingForKey ∧ s.machine.awaiting = some 53 := by decide +kernel
  obtain ⟨phase, awaiting⟩ := evaluated
  obtain ⟨cancelled, machine⟩ := missed (by rw [awaiting]; decide)
  exact ⟨phase, cancelled, congrArg (fun m => m.keypad.current) machine,
    (congrArg Machine.awaiting machine).trans awaiting⟩

/-- An interrupted wait does consume its key, and so does a cancelled thread. -/
theorem interrupted_with_the_key :
    (¬ ∀ (k : Keypad) (key : Option Int) (timeUp : Bool), k.waitFor key true timeUp = some (false, k)) ∧
    ¬ ∀ (program : Program) (keyMap : KeyMap) (clockRate timerRate : Int) (random : Random.Source)
      (before ops : List Action) (timeout : Binary64),
      let s := (create program keyMap clockRate timerRate random).run before
      s.position = .awaitingKey timeout → .turn ∉ ops → (∀ paused, .reset paused ∉ ops) →
      .cancel ∈ ops →
        (s.run ops).takeTurn.machine.keypad = (s.run ops).machine.keypad ∧
          (s.run ops).takeTurn.machine.awaiting.isSome = true := by
  constructor
  · intro untouched
    exact absurd (untouched { current := some 55 } (some 55) true) (by decide)
  · intro untouched
    let program : Program := ⟨[0x60, 0x05, 0xF0, 0x0A], by decide, by decide⟩
    let before : List Action := [.start false, .turn, .turn, .turn]
    let ops : List Action := [.cancel, .press (some 53)]
    obtain ⟨-, awaits⟩ := untouched program .default 700 60 .silent before ops ⟨0x3F91111111111111⟩
      (by decide +kernel) (by simp [ops]) (by simp [ops]) (by simp [ops])
    exact absurd awaits (by decide +kernel)

end Session

end Chip8
