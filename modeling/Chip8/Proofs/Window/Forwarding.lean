import Chip8.Proofs.Session.Keypad
import Chip8.Proofs.Window.Held
import Chip8.Proofs.Window.Host

/-!
# The key that the machine sees

The window sends a key when the longest held key has changed, a reset forgets what was sent, and the machine
consumes the key that it has waited for. Main statements: `tracks_run`, as long as only the window touches the
keypad, what was sent last and what is left of it tell the key that the machine sees; `forwarded_key`, after
the inputs of every frame that is the longest held key, unless it has been consumed since it was sent;
`fresh_press`, so a new press reaches the machine unless its key was sent before and has been consumed.
-/

namespace Chip8

theorem Session.Leads.coherent {s t : Session} {resets : Nat} (leads : s.Leads resets t)
    (coherent : s.Coherent) : t.Coherent := by
  obtain ⟨actions, -, -, journal, rfl⟩ := leads
  exact coherent_run coherent actions

/-- Whether the action leaves the keypad to the window. -/
def Action.sparesKeys : Action → Bool
  | .press _ | .reset _ => false
  | _ => true

namespace Window

/-- The key that the machine sees. -/
def current (w : Window) : Option Int :=
  w.session.machine.keypad.current

def Step.isReset : Step → Bool
  | .input i => i.isReset
  | _ => false

def Step.sparesKeys : Step → Bool
  | .session a => a.sparesKeys
  | _ => true

/-- What happens to the key on its way from the window to the machine. -/
inductive Traffic where
  | sent (key : Option Int)
  | consumed (key : Int)
  | cleared
  deriving DecidableEq, Repr

def traffic? (w : Window) : Step → Option Traffic
  | .input i => if i.isReset then some .cleared else none
  | .forward => if w.held.head? = w.sent then none else some (.sent w.held.head?)
  | .session .turn => w.session.takenKey?.map .consumed
  | _ => none

def trafficOf (w : Window) : List Step → List Traffic
  | [] => []
  | step :: rest => (w.traffic? step).toList ++ (w.step step).trafficOf rest

/-- The key that was sent last and the key that the machine sees, after the traffic. -/
inductive Tracks : (sent current : Option Int) → List Traffic → Prop where
  | opened : Tracks none none []
  | cleared (earlier : List Traffic) : Tracks none none (earlier ++ [.cleared])
  | sent (earlier : List Traffic) (key : Option Int) : Tracks key key (earlier ++ [.sent key])
  | consumed (earlier : List Traffic) (key : Int) :
      Tracks (some key) none (earlier ++ [.sent (some key), .consumed key])

/-! ## One step -/

section

variable {w : Window} {traffic : List Traffic}

theorem sent_handle (w : Window) (input : Input) :
    (w.handle input).sent = if input.isReset then none else w.sent := by
  cases input with
  | keyDown key =>
      cases named : Hotkey.ofKey? key with
      | none =>
          simp only [handle, named, Input.isReset]
          split <;> rfl
      | some hotkey =>
          have obeyed : (w.obey hotkey).sent = if hotkey = .reset then none else w.sent := by
            rw [obey_eq]
          simpa [handle, named, Input.isReset] using obeyed
  | _ => rfl

theorem current_handle (w : Window) (input : Input) :
    (w.handle input).current = if input.isReset then none else w.current := by
  cases input with
  | keyDown key =>
      cases named : Hotkey.ofKey? key with
      | none =>
          simp only [handle, named, Input.isReset]
          split <;> rfl
      | some hotkey =>
          cases hotkey with
          | pause =>
              simp only [handle, named, Input.isReset, obey, Session.togglePause]
              split
              · rfl
              · split <;> rfl
          | _ =>
              simp only [handle, named, Input.isReset, obey]
              rfl
  | _ => rfl

theorem current_handleNotifications (w : Window) : w.handleNotifications.current = w.current := by
  have reported (notes : List Notification) (s : Session) :
      (notes.foldl (fun s n => s.report (reportOf n)) s).machine = s.machine := by
    induction notes generalizing s with
    | nil => rfl
    | cons n rest ih => exact ih (s.report (reportOf n))
  exact congrArg (fun m : Machine => m.keypad.current) (reported _ _)

theorem coherent_step (coherent : w.session.Coherent) (step : Step) : (w.step step).session.Coherent := by
  cases step with
  | input i => exact (leads_handle w i).coherent coherent
  | forward => exact (leads_forwardKey w).coherent coherent
  | notifications => exact (leads_handleNotifications w).coherent coherent
  | session a => exact Session.coherent_act coherent a

/-- A turn consumes the key only while the machine sees it, that is once after it was sent. -/
theorem Tracks.turn (tracks : Tracks w.sent w.current traffic) (coherent : w.session.Coherent) :
    Tracks w.sent (w.step (.session .turn)).current
      (traffic ++ (w.traffic? (.session .turn)).toList) := by
  have turned : (w.step (.session .turn)).current =
      if w.session.takenKey?.isSome then none else w.current := by
    refine (congrArg Keypad.current (Session.keypad_takeTurn coherent)).trans ?_
    split <;> rfl
  cases taken : w.session.takenKey? with
  | none => simpa [turned, taken, traffic?] using tracks
  | some key =>
      have current : w.current = some key := Session.current_of_takenKey taken
      simp only [turned, taken, traffic?, Option.isSome_some, if_true, Option.map_some, Option.toList_some]
      rw [current] at tracks
      generalize w.sent = sent at tracks
      cases tracks with
      | sent earlier =>
          rw [List.append_assoc]
          exact .consumed earlier key

theorem sent_forwardKey (w : Window) : w.forwardKey.sent = w.held.head? := by
  rw [forwardKey_eq]

theorem current_forwardKey (w : Window) :
    w.forwardKey.current = if w.sent = w.held.head? then w.current else w.held.head? := by
  by_cases same : w.held.head? = w.sent
  · simp only [current, forwardKey_eq, if_pos same, if_pos same.symm]
  · simp only [current, forwardKey_eq, if_neg same, if_neg (Ne.symm same)]
    rfl

theorem Tracks.forward (tracks : Tracks w.sent w.current traffic) :
    Tracks w.forwardKey.sent w.forwardKey.current (traffic ++ (w.traffic? .forward).toList) := by
  rw [sent_forwardKey, current_forwardKey]
  by_cases same : w.held.head? = w.sent
  · simpa [traffic?, same] using tracks
  · simp only [traffic?, if_neg same, if_neg (Ne.symm same)]
    exact .sent traffic w.held.head?

theorem Tracks.step (tracks : Tracks w.sent w.current traffic) (coherent : w.session.Coherent) {step : Step}
    (spares : step.sparesKeys = true) :
    Tracks (w.step step).sent (w.step step).current (traffic ++ (w.traffic? step).toList) := by
  cases step with
  | input i =>
      simp only [Window.step, sent_handle, current_handle, traffic?]
      cases i.isReset with
      | true => exact .cleared traffic
      | false => simpa using tracks
  | forward => exact tracks.forward
  | notifications =>
      simp only [Window.step, current_handleNotifications, traffic?, Option.toList_none, List.append_nil]
      exact tracks
  | session a =>
      by_cases turn : a = .turn
      · subst turn
        exact tracks.turn coherent
      · have keypad : (w.session.act a).machine.keypad = w.session.machine.keypad := by
          rw [Session.keypad_act turn]
          · cases a with
            | press key => simp [Step.sparesKeys, Action.sparesKeys] at spares
            | _ => rfl
          · rintro paused rfl
            simp [Step.sparesKeys, Action.sparesKeys] at spares
        have none : w.traffic? (.session a) = none := by
          cases a <;> first | rfl | exact absurd rfl turn
        have current : (w.step (.session a)).current = w.current := congrArg Keypad.current keypad
        rw [none, current, Option.toList_none, List.append_nil]
        exact tracks

theorem sent_step {step : Step} (amid : step ≠ .forward) :
    (w.step step).sent = if step.isReset then none else w.sent := by
  cases step with
  | input i => exact sent_handle w i
  | forward => exact absurd rfl amid
  | _ => rfl

/-- A key that was held before and is held no more has been released. -/
theorem mem_held_run {steps : List Step} {key : Int} (down : key ∈ w.held)
    (kept : .input (.keyUp key) ∉ steps) : key ∈ (w.run steps).held := by
  induction steps generalizing w with
  | nil => exact down
  | cons step rest ih =>
      rw [List.mem_cons, not_or] at kept
      refine ih ?_ kept.2
      cases step with
      | input i =>
          cases i with
          | keyDown k =>
              simp only [Window.step, handle]
              split
              · rwa [held_obey]
              · split
                · exact down
                · exact List.mem_append_left [k] down
          | keyUp k =>
              have other : key ≠ k := by simpa using kept.1
              exact (List.mem_erase_of_ne other).2 down
          | quit | other => exact down
      | forward => exact (held_forwardKey w).symm ▸ down
      | _ => exact down

end

/-! ## A run -/

theorem tracks_run {w : Window} {traffic : List Traffic} (tracks : Tracks w.sent w.current traffic)
    (coherent : w.session.Coherent) {steps : List Step} (spares : steps.all Step.sparesKeys = true) :
    Tracks (w.run steps).sent (w.run steps).current (traffic ++ w.trafficOf steps) := by
  induction steps generalizing w traffic with
  | nil => simpa [trafficOf, Window.run] using tracks
  | cons step rest ih =>
      rw [List.all_cons, Bool.and_eq_true] at spares
      rw [trafficOf, ← List.append_assoc]
      exact ih (tracks.step coherent spares.1) (coherent_step coherent step) spares.2

theorem sent_run {w : Window} {frame : List Step} (amid : .forward ∉ frame) :
    (w.run frame).sent = if frame.any Step.isReset then none else w.sent := by
  induction frame generalizing w with
  | nil => rfl
  | cons step rest ih =>
      rw [List.mem_cons, not_or] at amid
      rw [run_cons, ih amid.2, sent_step (Ne.symm amid.1), List.any_cons]
      cases step.isReset <;> cases rest.any Step.isReset <;> rfl

variable {sent current : Option Int} {traffic : List Traffic}

theorem Tracks.consumed_iff (tracks : Tracks sent current traffic) {key : Int} :
    [.sent (some key), .consumed key] <:+ traffic ↔ sent = some key ∧ current = none := by
  constructor
  · rintro ⟨front, rfl⟩
    generalize same : front ++ [.sent (some key), .consumed key] = traffic at tracks
    have last := congrArg List.getLast? same
    cases tracks with
    | consumed earlier k =>
        have eq : key = k := by simpa using last
        exact ⟨congrArg some eq.symm, rfl⟩
    | _ => simp at last
  · rintro ⟨rfl, rfl⟩
    cases tracks with
    | consumed earlier => exact ⟨earlier, rfl⟩

theorem Tracks.current_eq (tracks : Tracks sent current traffic) :
    current = sent ∨ current = none ∧ sent.isSome = true := by
  cases tracks with
  | consumed earlier key => exact Or.inr ⟨rfl, rfl⟩
  | _ => exact Or.inl rfl

theorem tracks_opened (program : Program) (keyMap : KeyMap) (clockRate timerRate : Int)
    (random : Random.Source) {before : List Action} (unpressed : ∀ key, .press key ∉ before) (scale : Int)
    (title : String) {steps : List Step} (spares : steps.all Step.sparesKeys = true) :
    let opened := create ((Session.create program keyMap clockRate timerRate random).run before) scale title
    Tracks (opened.run steps).sent (opened.run steps).current (opened.trafficOf steps) := by
  intro opened
  have coherent := Session.coherent_create program keyMap clockRate timerRate random
  have current : opened.current = none := Session.current_run_of_unpressed rfl coherent unpressed
  have tracks : Tracks opened.sent opened.current [] := by
    rw [current]
    exact .opened
  exact tracks_run tracks (Session.coherent_run coherent before) spares

/-- As long as only the window presses keys and resets the machine, and whenever the thread takes its turns,
after the inputs of each frame the window holds the keys that are down, the first of them is the key it sent
last, and the machine sees that key or has consumed it since. After a reset it sees the key in any case. -/
theorem forwarded_key (program : Program) (keyMap : KeyMap) (clockRate timerRate : Int)
    (random : Random.Source) (before : List Action) (unpressed : ∀ key, .press key ∉ before) (scale : Int)
    (title : String) (steps : List Step) (spares : steps.all Step.sparesKeys = true) :
    let opened := create ((Session.create program keyMap clockRate timerRate random).run before) scale title
    let w := opened.run (steps ++ [.forward])
    HeldBy (inputsOf steps) w.held ∧ w.sent = w.held.head? ∧
      (w.current = w.held.head? ∨
        w.current = none ∧ ∃ key, w.held.head? = some key ∧
          [.sent (some key), .consumed key] <:+ opened.trafficOf (steps ++ [.forward])) ∧
      ∀ early late, steps = early ++ late → late.any Step.isReset = true → .forward ∉ late →
        w.current = w.held.head? := by
  intro opened w
  have forwarded : w = (opened.run steps).forwardKey := run_append opened steps [.forward]
  have sent : w.sent = w.held.head? := by
    rw [forwarded, held_forwardKey]
    exact sent_forwardKey _
  refine ⟨?_, sent, ?_, ?_⟩
  · rw [forwarded, held_forwardKey]
    exact heldBy_run _ scale title steps
  · have tracks : Tracks w.sent w.current (opened.trafficOf (steps ++ [.forward])) := by
      refine tracks_opened program keyMap clockRate timerRate random unpressed scale title ?_
      rw [List.all_append, spares]
      rfl
    rcases tracks.current_eq with seen | ⟨gone, sending⟩
    · exact Or.inl (seen.trans sent)
    · obtain ⟨key, isKey⟩ := Option.isSome_iff_exists.1 sending
      exact Or.inr ⟨gone, key, sent ▸ isKey, tracks.consumed_iff.2 ⟨isKey, gone⟩⟩
  · rintro early late rfl reset amid
    have tracks := tracks_opened program keyMap clockRate timerRate random unpressed scale title spares
    have forgotten : (opened.run (early ++ late)).sent = none := by
      rw [run_append, sent_run amid, reset]
      rfl
    have empty : (opened.run (early ++ late)).current = none := by
      rcases tracks.current_eq with seen | ⟨gone, -⟩
      · exact seen.trans forgotten
      · exact gone
    rw [forwarded, current_forwardKey, held_forwardKey, forgotten, empty]
    split
    · assumption
    · rfl

/-- The key is held through a frame in which it is consumed, then another key is pressed and the machine is
reset in the same frame. -/
theorem forwarded_through_reset :
    let program : Program := ⟨[0xF0, 0x0A, 0x12, 0x00], by decide, by decide⟩
    let opened := create ((Session.create program .default 700 60 .silent).run [.start false]) 10 ""
    let steps : List Step :=
      [.input (.keyDown 48), .forward, .notifications, .session .turn, .session .turn, .input (.keyDown 49),
        .input (.keyDown 1073741886), .session .turn]
    let w := opened.run (steps ++ [.forward])
    (opened.run (steps.take 6)).current = none ∧ HeldBy (inputsOf steps) w.held ∧ w.sent = w.held.head? ∧
      w.current = some 48 := by
  intro program opened steps w
  have consumed : (opened.run (steps.take 6)).current = none := by decide +kernel
  obtain ⟨held, sent, -, afterReset⟩ :=
    forwarded_key program .default 700 60 .silent [.start false] (by simp) 10 "" steps (by decide)
  have first : w.held.head? = some 48 := by decide +kernel
  have seen : w.current = w.held.head? := afterReset (steps.take 6) (steps.drop 6) rfl (by decide) (by decide)
  exact ⟨consumed, held, sent, seen.trans first⟩

/-- A key goes down that the window has not held, and it is the first held key when the inputs of the frame
are done. The machine sees it then, unless it is the key sent last, which is not sent again: the key has
been released and pressed in the same frame. In that case the machine sees what it has left of it. -/
theorem fresh_press (program : Program) (keyMap : KeyMap) (clockRate timerRate : Int)
    (random : Random.Source) (before : List Action) (scale : Int) (title : String)
    (steps early late : List Step) (key : Int)
    (amid : .forward ∉ early ++ .input (.keyDown key) :: late) :
    let opened := create ((Session.create program keyMap clockRate timerRate random).run before) scale title
    let w := opened.run steps
    let frame := early ++ .input (.keyDown key) :: late
    let after := w.run (frame ++ [.forward])
    key ∉ (w.run early).held → after.held.head? = some key →
      after.current =
          (if w.sent = some key ∧ frame.any Step.isReset = false then (w.run frame).current else some key) ∧
        ((∀ k, .press k ∉ before) → (steps ++ frame).all Step.sparesKeys = true →
          after.current =
            if [.sent (some key), .consumed key] <:+ opened.trafficOf (steps ++ frame) then none
            else some key) ∧
        (w.sent = w.held.head? → after.current ≠ some key → .input (.keyUp key) ∈ early) := by
  intro opened w frame after fresh first
  have forwarded : after = (w.run frame).forwardKey := run_append w frame [.forward]
  rw [forwarded, held_forwardKey] at first
  have current : after.current =
      if (w.run frame).sent = some key then (w.run frame).current else some key := by
    rw [forwarded, current_forwardKey, first]
  have exact : after.current =
      if w.sent = some key ∧ frame.any Step.isReset = false then (w.run frame).current else some key := by
    rw [current, sent_run amid]
    cases frame.any Step.isReset <;> simp
  refine ⟨exact, fun unpressed spares => ?_, fun between lost => ?_⟩
  · have tracks : Tracks (w.run frame).sent (w.run frame).current (opened.trafficOf (steps ++ frame)) := by
      have same : opened.run (steps ++ frame) = w.run frame := run_append opened steps frame
      rw [← same]
      exact tracks_opened program keyMap clockRate timerRate random unpressed scale title spares
    rw [current]
    by_cases sent : (w.run frame).sent = some key
    · rw [if_pos sent]
      split
      · rename_i consumed
        exact (tracks.consumed_iff.1 consumed).2
      · rename_i unconsumed
        rcases tracks.current_eq with seen | ⟨gone, -⟩
        · exact seen.trans sent
        · exact absurd (tracks.consumed_iff.2 ⟨sent, gone⟩) unconsumed
    · rw [if_neg sent, if_neg fun consumed => sent (tracks.consumed_iff.1 consumed).1]
  · have same : w.sent = some key := by
      by_contra other
      rw [exact, if_neg fun kept => other kept.1] at lost
      exact lost rfl
    have down : key ∈ w.held := List.mem_of_head? (between.symm.trans same)
    by_contra kept
    exact fresh (mem_held_run down kept)

/-- A key that has been consumed is released in one frame and pressed again in the next. -/
theorem fresh_press_after_release :
    let program : Program := ⟨[0xF0, 0x0A, 0x12, 0x00], by decide, by decide⟩
    let opened := create ((Session.create program .default 700 60 .silent).run [.start false]) 10 ""
    let steps : List Step :=
      [.input (.keyDown 48), .forward, .session .turn, .session .turn, .input (.keyUp 48), .forward]
    let frame : List Step := [.session .turn, .input (.keyDown 48), .input (.keyDown 49)]
    let after := (opened.run steps).run (frame ++ [.forward])
    .consumed 48 ∈ opened.trafficOf steps ∧ after.held = [48, 49] ∧ after.current = some 48 := by
  intro program opened steps frame after
  have consumed : .consumed 48 ∈ opened.trafficOf steps := by decide +kernel
  have held : after.held = [48, 49] := by decide +kernel
  obtain ⟨-, seen, -⟩ :=
    fresh_press program .default 700 60 .silent [.start false] 10 "" steps [.session .turn]
      [.input (.keyDown 49)] 48 (by decide) (by decide +kernel) (congrArg List.head? held)
  have kept : ¬[.sent (some 48), .consumed 48] <:+ opened.trafficOf (steps ++ frame) := by decide +kernel
  exact ⟨consumed, held, (seen (by simp) (by decide)).trans (if_neg kept)⟩

/-- A key that has been consumed is released and pressed again in one frame. -/
theorem repeated_press_lost :
    let program : Program := ⟨[0xF0, 0x0A, 0x12, 0x00], by decide, by decide⟩
    let opened := create ((Session.create program .default 700 60 .silent).run [.start false]) 10 ""
    let w := opened.run [.input (.keyDown 48), .forward, .notifications, .session .turn, .session .turn]
    let after := w.handleInputs [.keyUp 48, .keyDown 48]
    48 ∉ (w.handle (.keyUp 48)).held ∧ after.held.head? = some 48 ∧ after.current ≠ some 48 := by
  decide +kernel

end Window

end Chip8
