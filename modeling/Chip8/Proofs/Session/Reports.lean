import Chip8.Session.Action

/-!
# Sessions up to their reports

Whoever writes into the journal of a session does not disturb it: nothing that happens to a session
depends on what has been reported. Main statement: `Alike.run`. So a session is known up to its journal
from the actions alone; `Leads` says that it has come about so.
-/

namespace Chip8

namespace Session

/-- The sessions differ in their journals at most. -/
def Alike (s t : Session) : Prop :=
  ∃ journal, s = { t with journal }

theorem enterKeyWait_eq (s : Session) :
    let waiting := { s with phase := .waitingForKey }.notify .waitingForKey
    s.enterKeyWait = waiting.testKeyWait.elim waiting.stopForKey waiting.endKeyWait := by
  simp only [enterKeyWait]
  split <;> simp [*]

namespace Alike

theorem refl (s : Session) : s.Alike s :=
  ⟨s.journal, rfl⟩

theorem trans {s t u : Session} (first : s.Alike t) (later : t.Alike u) : s.Alike u := by
  obtain ⟨journal, rfl⟩ := first
  obtain ⟨-, rfl⟩ := later
  exact ⟨journal, rfl⟩

theorem report (s : Session) (r : Report) : (s.report r).Alike s :=
  ⟨_, rfl⟩

theorem finish (s : Session) (journal : List Report) (phase : Phase) :
    ({ s with journal }.finish phase).Alike (s.finish phase) :=
  ⟨_, rfl⟩

theorem crash (s : Session) (journal : List Report) : { s with journal }.crash.Alike s.crash :=
  ⟨_, rfl⟩

theorem fail (s : Session) (journal : List Report) (fault : Fault) :
    ({ s with journal }.fail fault).Alike (s.fail fault) :=
  ⟨_, rfl⟩

theorem goOn (s : Session) (journal : List Report) : { s with journal }.goOn.Alike s.goOn := by
  simp only [Session.goOn]
  split
  · exact finish s journal .cancelled
  · split
    · exact finish { s with phase := .running } journal .terminated
    · split
      · exact ⟨journal, rfl⟩
      · exact crash { s with phase := .running } journal

theorem proceed (s : Session) (journal : List Report) : { s with journal }.proceed.Alike s.proceed := by
  simp only [Session.proceed]
  split
  · exact ⟨journal, rfl⟩
  · exact goOn s journal

theorem tickTimers (s : Session) (journal : List Report) :
    { s with journal }.tickTimers = s.tickTimers.map fun t => { t with journal } := by
  simp only [Session.tickTimers, bind, Except.bind, pure, Except.pure]
  split <;> rfl

theorem completeCycle (s : Session) (journal : List Report) :
    { s with journal }.completeCycle.Alike s.completeCycle := by
  simp only [Session.completeCycle, tickTimers]
  cases s.tickTimers with
  | ok ticked => exact proceed ticked journal
  | error failure => exact crash s journal

theorem stopForKey (s : Session) (journal : List Report) :
    { s with journal }.stopForKey.Alike s.stopForKey := by
  simp only [Session.stopForKey]
  split
  · exact ⟨journal, rfl⟩
  · exact crash s journal

theorem endKeyWait (s : Session) (journal : List Report) (outcome : Bool × Keypad) :
    ({ s with journal }.endKeyWait outcome).Alike (s.endKeyWait outcome) := by
  obtain ⟨taken, keypad⟩ := outcome
  cases taken with
  | false => exact finish s journal .cancelled
  | true =>
      exact completeCycle
        { s with phase := .running, machine := { s.machine with keypad, awaiting := none } } journal

theorem enterKeyWait (s : Session) (journal : List Report) :
    { s with journal }.enterKeyWait.Alike s.enterKeyWait := by
  let waiting := { s with phase := .waitingForKey }.notify .waitingForKey
  -- The notification and the test of the wait leave the journal as it is and do not read it.
  have reported : { s with journal }.enterKeyWait =
      waiting.testKeyWait.elim { waiting with journal }.stopForKey { waiting with journal }.endKeyWait :=
    enterKeyWait_eq { s with journal }
  rw [reported, enterKeyWait_eq s]
  cases waiting.testKeyWait with
  | some outcome => exact endKeyWait waiting journal outcome
  | none => exact stopForKey waiting journal

theorem executeCycle (s : Session) (journal : List Report) :
    { s with journal }.executeCycle.Alike s.executeCycle := by
  simp only [Session.executeCycle]
  split
  · exact crash s journal
  · rcases s.machine.cycle with ⟨machine, _ | (fault | defect)⟩
    · simp only
      split
      · exact enterKeyWait { s with machine } journal
      · exact completeCycle { s with machine } journal
    · exact fail { s with machine } journal fault
    · exact crash { s with machine } journal

theorem turnAtKeyWait (s : Session) (journal : List Report) :
    { s with journal }.turnAtKeyWait.Alike s.turnAtKeyWait := by
  have tested : { s with journal }.testKeyWait = s.testKeyWait := rfl
  simp only [Session.turnAtKeyWait, tested]
  split
  · exact endKeyWait s journal _
  · rw [tickTimers]
    cases s.tickTimers with
    | ok ticked => exact stopForKey ticked journal
    | error failure => exact crash s journal

theorem turnAtPause (s : Session) (journal : List Report) :
    { s with journal }.turnAtPause.Alike s.turnAtPause := by
  simp only [Session.turnAtPause]
  split
  · exact ⟨journal, rfl⟩
  · exact goOn { s with machine := { s.machine with timers := s.machine.timers.restart } } journal

theorem takeTurn (s : Session) (journal : List Report) :
    { s with journal }.takeTurn.Alike s.takeTurn := by
  simp only [Session.takeTurn]
  split
  · exact ⟨journal, rfl⟩
  · exact ⟨journal, rfl⟩
  · exact proceed s journal
  · exact executeCycle s journal
  · exact turnAtPause s journal
  · exact turnAtKeyWait s journal

theorem restart {s t : Session} (alike : s.Alike t) (paused : Bool) :
    (s.restart paused).Alike (t.restart paused) := by
  obtain ⟨journal, rfl⟩ := alike
  exact ⟨_, rfl⟩

theorem act {s t : Session} (alike : s.Alike t) (a : Action) : (s.act a).Alike (t.act a) := by
  obtain ⟨journal, rfl⟩ := alike
  cases a with
  | start paused =>
      simp only [Session.act, start]
      split <;> exact ⟨journal, rfl⟩
  | reset paused => exact (takeTurn t.cancel journal).restart paused
  | togglePause =>
      simp only [Session.act, togglePause]
      split <;> exact ⟨journal, rfl⟩
  | turn => exact takeTurn t journal
  | _ => exact ⟨_, rfl⟩

theorem run {s t : Session} (alike : s.Alike t) (actions : List Action) :
    (s.run actions).Alike (t.run actions) := by
  induction actions generalizing s t with
  | nil => exact alike
  | cons a rest ih => exact ih (alike.act a)

end Alike

end Session

def Action.isReset : Action → Bool
  | .reset _ => true
  | _ => false

/-- Whether the action leaves a started session started and its machine whole. -/
def Action.isOrdinary : Action → Bool
  | .start _ | .sabotage => false
  | _ => true

namespace Session

/-- `s` becomes `t` by ordinary actions, with that many resets among them, and by reports. -/
def Leads (s : Session) (resets : Nat) (t : Session) : Prop :=
  ∃ actions, actions.all Action.isOrdinary = true ∧ actions.countP Action.isReset = resets ∧
    t.Alike (s.run actions)

namespace Leads

theorem of_alike {s t : Session} (alike : t.Alike s) : s.Leads 0 t :=
  ⟨[], rfl, rfl, alike⟩

theorem of_run {s : Session} (actions : List Action) (ordinary : actions.all Action.isOrdinary = true) :
    s.Leads (actions.countP Action.isReset) (s.run actions) :=
  ⟨actions, ordinary, rfl, .refl _⟩

theorem trans {s t u : Session} {early late : Nat} (first : s.Leads early t) (later : t.Leads late u) :
    s.Leads (early + late) u := by
  obtain ⟨before, ordinary, rfl, alike⟩ := first
  obtain ⟨after, ordinary', rfl, alike'⟩ := later
  refine ⟨before ++ after, ?_, List.countP_append, ?_⟩
  · rw [List.all_append, ordinary, ordinary']
    rfl
  · rw [run_append]
    exact alike'.trans (alike.run after)

end Leads

end Session

end Chip8
