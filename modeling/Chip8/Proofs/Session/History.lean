import Chip8.Proofs.Session.Lifecycle
import Chip8.Session.Ending

/-!
# The history of a session

A history goes along with a session. It keeps a record of each run of the thread, from a start to the
end of that thread, and all notifications that the host has fetched. Main statement:
`notifications_by_run`, the notifications of a session are those of its runs, one run after another.
-/

namespace Chip8

/-- What a thread did in its run: the machines whose next instruction it executed, the first one first,
and the phase in which it ended, if it has. -/
structure Record where
  cycles : List Machine := []
  ending : Option Phase := none

def waitNotes (cycles : List Machine) : List Notification :=
  (cycles.filter Machine.missesKey).map fun _ => ⟨.waitingForKey, .waitingForKey⟩

theorem waitNotes_singleton (m : Machine) :
    waitNotes [m] = if m.missesKey then [⟨.waitingForKey, .waitingForKey⟩] else [] := by
  cases missed : m.missesKey <;> simp [waitNotes, missed]

theorem waitNotes_append (before after : List Machine) :
    waitNotes (before ++ after) = waitNotes before ++ waitNotes after := by
  simp only [waitNotes, List.filter_append, List.map_append]

def endNotes (ending : Option Phase) : List Notification :=
  ending.toList.map (.mk .endOfExecution)

/-- One notification for each awaited key that was missed, then one for the end. -/
def Record.notifications (r : Record) : List Notification :=
  waitNotes r.cycles ++ endNotes r.ending

namespace Session

def ending? (s : Session) : Option Phase :=
  if s.position = .done then some s.phase else none

/-- The machine whose next instruction the thread executes in its next turn. -/
def dueMachine? (s : Session) : Option Machine :=
  match s.position with
  | .sleeping _ => if s.broken then none else some s.machine
  | _ => none

section

variable {α : Type} (f : Session → Option α)

/-- What `f` finds before the turn that an action gives to the thread, if it gives one. -/
def atTurn (s : Session) : Action → Option α
  | .turn => f s
  | .reset _ => f s.cancel
  | _ => none

def atTurns : Session → List Action → List α
  | _, [] => []
  | s, a :: rest => (s.atTurn f a).toList ++ atTurns (s.act a) rest

variable {f}

theorem atTurn_of_host {s : Session} {a : Action} (host : a ≠ .turn) (kept : ∀ paused, a ≠ .reset paused) :
    s.atTurn f a = none := by
  cases a with
  | turn => exact absurd rfl host
  | reset paused => exact absurd rfl (kept paused)
  | _ => rfl

end

/-! ## The notifications of a turn -/

theorem notifications_finish (s : Session) (phase : Phase) :
    (s.finish phase).notifications = s.notifications ++ endNotes (s.finish phase).ending? := rfl

theorem notifications_crash (s : Session) :
    s.crash.notifications = s.notifications ++ endNotes s.crash.ending? := rfl

theorem notifications_goOn (s : Session) :
    s.goOn.notifications = s.notifications ++ endNotes s.goOn.ending? := by
  unfold goOn
  split
  · exact notifications_finish s .cancelled
  · split
    · exact notifications_finish { s with phase := .running } .terminated
    · split
      · simp [ending?, endNotes]
      · exact notifications_crash { s with phase := .running }

theorem notifications_proceed (s : Session) :
    s.proceed.notifications = s.notifications ++ endNotes s.proceed.ending? := by
  unfold proceed
  split
  · simp [ending?, endNotes]
  · exact notifications_goOn s

theorem notifications_completeCycle (s : Session) :
    s.completeCycle.notifications = s.notifications ++ endNotes s.completeCycle.ending? := by
  unfold completeCycle
  split
  · rename_i t ticked
    obtain ⟨timers, rfl⟩ := tickTimers_ok ticked
    exact notifications_proceed _
  · exact notifications_crash s

theorem notifications_stopForKey (s : Session) :
    s.stopForKey.notifications = s.notifications ++ endNotes s.stopForKey.ending? := by
  unfold stopForKey
  split
  · simp [ending?, endNotes]
  · exact notifications_crash s

theorem notifications_endKeyWait (s : Session) (outcome : Bool × Keypad) :
    (s.endKeyWait outcome).notifications =
      s.notifications ++ endNotes (s.endKeyWait outcome).ending? := by
  obtain ⟨taken, keypad⟩ := outcome
  cases taken with
  | false => exact notifications_finish s .cancelled
  | true => exact notifications_completeCycle _

theorem notifications_enterKeyWait (s : Session) :
    s.enterKeyWait.notifications =
      s.notifications ++ ⟨.waitingForKey, .waitingForKey⟩ :: endNotes s.enterKeyWait.ending? := by
  rw [← List.singleton_append, ← List.append_assoc]
  unfold enterKeyWait
  simp only
  split
  · exact notifications_endKeyWait _ _
  · exact notifications_stopForKey _

theorem notifications_executeCycle {s : Session} (quiet : s.machine.awaiting = none)
    (sound : s.broken = false) :
    s.executeCycle.notifications =
      s.notifications ++ waitNotes [s.machine] ++ endNotes s.executeCycle.ending? := by
  have awaits : s.cycled.machine.awaiting.isSome = s.machine.missesKey :=
    Machine.isSome_awaiting_cycle quiet
  have notes := waitNotes_singleton s.machine
  -- A failed cycle has missed no key.
  have silent {failure : Failure} (failed : s.machine.cycle.failure = some failure) :
      waitNotes [s.machine] = [] := by
    cases missed : s.machine.missesKey with
    | true => simp [Machine.failure_cycle_of_missesKey missed] at failed
    | false => simpa [missed] using notes
  rcases executeCycle_cases s with ⟨broken, -⟩ | ⟨-, ⟨fault, failed, ended⟩ | ⟨defect, failed, ended⟩ |
    ⟨-, missed, waits⟩ | ⟨-, found, goes⟩⟩
  · simp [sound] at broken
  · rw [ended, silent failed, List.append_nil]
    rfl
  · rw [ended, silent failed, List.append_nil]
    exact notifications_crash s.cycled
  · rw [waits, notes, ← awaits, missed, List.append_assoc]
    exact notifications_enterKeyWait s.cycled
  · rw [goes, notes, ← awaits, found, Option.isSome_none, List.append_assoc]
    exact notifications_completeCycle s.cycled

theorem notifications_takeTurn {s : Session} (coherent : s.Coherent) (going : s.position ≠ .done) :
    s.takeTurn.notifications =
      s.notifications ++ waitNotes s.dueMachine?.toList ++ endNotes s.takeTurn.ending? := by
  have idle : s.dueMachine? = none → waitNotes s.dueMachine?.toList = [] := by
    intro none
    rw [none]
    rfl
  unfold takeTurn
  cases position : s.position with
  | absent =>
      rw [idle (by simp [dueMachine?, position])]
      simp [ending?, endNotes, position]
  | fresh =>
      rw [idle (by simp [dueMachine?, position]), List.append_nil]
      exact notifications_proceed s
  | sleeping duration =>
      have quiet := coherent.quiet_of_sleeping position
      cases sound : s.broken with
      | true =>
          rw [idle (by simp [dueMachine?, position, sound]), List.append_nil]
          simpa only [executeCycle, sound, if_true] using notifications_crash s
      | false =>
          have due : s.dueMachine? = some s.machine := by simp [dueMachine?, position, sound]
          rw [due]
          exact notifications_executeCycle quiet sound
  | pausing =>
      rw [idle (by simp [dueMachine?, position]), List.append_nil]
      simp only [turnAtPause]
      split
      · simp [ending?, endNotes, position]
      · exact notifications_goOn _
  | awaitingKey timeout =>
      rw [idle (by simp [dueMachine?, position]), List.append_nil]
      simp only [turnAtKeyWait]
      split
      · exact notifications_endKeyWait s _
      · split
        · rename_i t ticked
          obtain ⟨timers, rfl⟩ := tickTimers_ok ticked
          exact notifications_stopForKey _
        · exact notifications_crash s
  | done => exact absurd position going

end Session

/-- A session with the records of its runs and with the notifications that the host has fetched. -/
structure History where
  session : Session
  /-- The records of the runs before the latest, the first one first. -/
  past : List Record := []
  latest : Option Record := none
  fetched : List Notification := []

/-- The record after one more turn, taken in session `s`. -/
def Record.turned (r : Record) (s : Session) : Record :=
  { cycles := r.cycles ++ s.dueMachine?.toList, ending := s.takeTurn.ending? }

/-- A turn sends what it adds to the record. -/
theorem Record.notifications_turned {r : Record} {s : Session} (coherent : s.Coherent)
    (ending : r.ending = s.ending?) :
    ∃ sent, s.takeTurn.notifications = s.notifications ++ sent ∧
      (r.turned s).notifications = r.notifications ++ sent := by
  by_cases done : s.position = .done
  · have same : s.takeTurn = s := by simp [Session.takeTurn, done]
    have idle : s.dueMachine? = none := by simp [Session.dueMachine?, done]
    refine ⟨[], ?_, ?_⟩
    · rw [same, List.append_nil]
    · simp [Record.turned, Record.notifications, same, idle, ending]
  · have unended : r.ending = none := by simp [ending, Session.ending?, done]
    refine ⟨waitNotes s.dueMachine?.toList ++ endNotes s.takeTurn.ending?, ?_, ?_⟩
    · rw [Session.notifications_takeTurn coherent done, List.append_assoc]
    · simp only [Record.turned, Record.notifications, waitNotes_append, unended, endNotes,
        Option.toList_none, List.map_nil, List.append_nil, List.append_assoc]

namespace History

def records (h : History) : List Record :=
  h.past ++ h.latest.toList

def takeTurn (h : History) : History :=
  { h with session := h.session.takeTurn, latest := h.latest.map fun r => r.turned h.session }

def begin (h : History) (started : Session) : History :=
  { h with session := started, past := h.records, latest := some {} }

def act (h : History) : Action → History
  | .start paused =>
      match h.session.start paused with
      | some started => h.begin started
      | none => h
  | .reset paused =>
      let halted := { h with session := h.session.cancel }.takeTurn
      halted.begin (halted.session.restart paused)
  | .poll => { h with session := h.session.act .poll, fetched := h.fetched ++ h.session.notifications }
  | .turn => h.takeTurn
  | a => { h with session := h.session.act a }

def run (h : History) (actions : List Action) : History :=
  actions.foldl act h

/-- All notifications so far, whether or not the host has fetched them. -/
def sent (h : History) : List Notification :=
  h.fetched ++ h.session.notifications

/-- The history of a session that has no thread yet. -/
def of (s : Session) (actions : List Action) : History :=
  run { session := s } actions

theorem session_act (h : History) (a : Action) : (h.act a).session = h.session.act a := by
  cases a with
  | start paused =>
      simp only [act, Session.act]
      cases h.session.start paused <;> rfl
  | _ => rfl

theorem session_run (h : History) (actions : List Action) :
    (h.run actions).session = h.session.run actions := by
  induction actions generalizing h with
  | nil => rfl
  | cons a rest ih => exact (ih (h.act a)).trans (by rw [session_act]; rfl)

theorem session_of (s : Session) (actions : List Action) : (of s actions).session = s.run actions :=
  session_run _ actions

/-- The records agree with the session: earlier runs have ended, the latest one has ended exactly if its
thread has, and together they account for all notifications. -/
structure Faithful (h : History) : Prop where
  coherent : h.session.Coherent
  past_ended : ∀ r ∈ h.past, ∃ phase, r.ending = some phase ∧ phase.isFinal = true
  absent_iff : h.latest = none ↔ h.session.position = .absent
  latest_ending : ∀ r, h.latest = some r → r.ending = h.session.ending?
  accounts : h.fetched ++ h.session.notifications = h.records.flatMap Record.notifications

theorem faithful_create (program : Program) (keyMap : KeyMap) (clockRate timerRate : Int)
    (random : Random.Source) :
    Faithful { session := .create program keyMap clockRate timerRate random } where
  coherent := Session.coherent_create program keyMap clockRate timerRate random
  past_ended := by simp
  absent_iff := by simp [Session.create]
  latest_ending := by simp
  accounts := rfl

/-- What leaves the thread where it is and sends nothing leaves the records faithful. -/
theorem Faithful.of_same {h : History} (faithful : h.Faithful) {s : Session} (coherent : s.Coherent)
    (position : s.position = h.session.position) (phase : s.phase = h.session.phase)
    (notifications : s.notifications = h.session.notifications) :
    Faithful { h with session := s } where
  coherent := coherent
  past_ended := faithful.past_ended
  absent_iff := by simpa only [position] using faithful.absent_iff
  latest_ending := by simpa only [Session.ending?, position, phase] using faithful.latest_ending
  accounts := by simpa only [notifications, records] using faithful.accounts

theorem Faithful.takeTurn {h : History} (faithful : h.Faithful) : h.takeTurn.Faithful where
  coherent := Session.coherent_takeTurn faithful.coherent
  past_ended := faithful.past_ended
  absent_iff := by
    rw [History.takeTurn, Option.map_eq_none_iff, faithful.absent_iff]
    constructor
    · intro absent
      simp [Session.takeTurn, absent]
    · intro absent
      refine Decidable.byContradiction fun present => ?_
      exact (Session.settled_takeTurn faithful.coherent present).position_ne_absent absent
  latest_ending := by
    intro r turned
    obtain ⟨before, -, rfl⟩ := Option.map_eq_some_iff.1 turned
    rfl
  accounts := by
    have accounts := faithful.accounts
    simp only [records, List.flatMap_append] at accounts
    simp only [History.takeTurn, records, List.flatMap_append]
    cases latest : h.latest with
    | none =>
        have absent := faithful.absent_iff.1 latest
        simpa [Session.takeTurn, absent, latest] using accounts
    | some r =>
        obtain ⟨sent, session, record⟩ :=
          Record.notifications_turned faithful.coherent (faithful.latest_ending r latest)
        rw [latest] at accounts
        simp only [Option.map_some, Option.toList_some, List.flatMap_singleton] at accounts ⊢
        rw [session, record, ← List.append_assoc, ← List.append_assoc, accounts]

theorem Faithful.begin {h : History} (faithful : h.Faithful) {started : Session}
    (ended : ∀ r, h.latest = some r → ∃ phase, r.ending = some phase ∧ phase.isFinal = true)
    (coherent : started.Coherent) (fresh : started.position = .fresh)
    (notifications : started.notifications = h.session.notifications) : (h.begin started).Faithful where
  coherent := coherent
  past_ended := by
    intro r member
    rcases List.mem_append.1 member with earlier | latest
    · exact faithful.past_ended r earlier
    · exact ended r (by simpa using latest)
  absent_iff := by simp [History.begin, fresh]
  latest_ending := by
    rintro r ⟨⟩
    simp [History.begin, Session.ending?, fresh]
  accounts := by
    have accounts := faithful.accounts
    rw [← notifications] at accounts
    simpa [History.begin, records, Record.notifications, waitNotes, endNotes] using accounts

theorem Faithful.reset {h : History} (faithful : h.Faithful) (paused : Bool) :
    (h.act (.reset paused)).Faithful := by
  have cancelled : Faithful { h with session := h.session.cancel } :=
    faithful.of_same faithful.coherent rfl rfl rfl
  have halted := cancelled.takeTurn
  refine halted.begin ?_ (Session.coherent_restart _ paused) rfl rfl
  intro r latest
  have present : h.session.haltNow.position ≠ .absent := by
    intro absent
    rw [halted.absent_iff.2 absent] at latest
    cases latest
  have done : h.session.haltNow.position = .done := by
    have dead := Session.isLive_haltNow h.session
    simpa [Session.isLive, present] using dead
  exact ⟨_, (halted.latest_ending r latest).trans (if_pos done), halted.coherent.isFinal_of_done done⟩

theorem Faithful.act {h : History} (faithful : h.Faithful) (a : Action) : (h.act a).Faithful := by
  have coherent := Session.coherent_act faithful.coherent a
  cases a with
  | start paused =>
      simp only [History.act]
      cases started : h.session.start paused with
      | none => exact faithful
      | some s =>
          obtain ⟨absent, rfl⟩ := Session.start_eq_some started
          refine faithful.begin ?_ (Session.coherent_start faithful.coherent started) rfl rfl
          intro r latest
          simp [faithful.absent_iff.2 absent] at latest
  | reset paused => exact faithful.reset paused
  | togglePause =>
      refine faithful.of_same coherent ?_ ?_ ?_ <;> simp only [Session.act, Session.togglePause] <;>
        split <;> rfl
  | poll =>
      have accounts : h.fetched ++ h.session.notifications ++ [] =
          h.records.flatMap Record.notifications := by
        rw [List.append_nil]
        exact faithful.accounts
      exact { faithful with accounts, coherent }
  | turn => exact faithful.takeTurn
  | _ => exact faithful.of_same coherent rfl rfl rfl

theorem Faithful.run {h : History} (faithful : h.Faithful) (actions : List Action) :
    (h.run actions).Faithful := by
  induction actions generalizing h with
  | nil => exact faithful
  | cons a rest ih => exact ih (faithful.act a)

theorem faithful_of (program : Program) (keyMap : KeyMap) (clockRate timerRate : Int)
    (random : Random.Source) (actions : List Action) :
    (History.of (.create program keyMap clockRate timerRate random) actions).Faithful :=
  (faithful_create program keyMap clockRate timerRate random).run actions

/-- Everything that the host has fetched and has yet to fetch is what the runs have sent, one run after
another: a notification for each awaited key that was missed, and one for the end of the thread. -/
theorem notifications_by_run (program : Program) (keyMap : KeyMap) (clockRate timerRate : Int)
    (random : Random.Source) (actions : List Action) :
    let start := Session.create program keyMap clockRate timerRate random
    let h := History.of start actions
    h.session = start.run actions ∧
      h.fetched ++ h.session.notifications = h.records.flatMap Record.notifications ∧
      (∀ r ∈ h.past, ∃ phase, r.ending = some phase ∧ phase.isFinal = true) ∧
      (h.latest = none ↔ h.session.position = .absent) ∧
      (∀ r, h.latest = some r →
        r.ending = if h.session.position = .done then some h.session.phase else none) ∧
      (h.session.position = .done → h.session.phase.isFinal = true) := by
  intro start h
  have faithful : h.Faithful :=
    (faithful_create program keyMap clockRate timerRate random).run actions
  exact ⟨session_run _ actions, faithful.accounts, faithful.past_ended, faithful.absent_iff,
    faithful.latest_ending, faithful.coherent.isFinal_of_done⟩

end History

end Chip8
