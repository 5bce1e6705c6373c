import Chip8.Emulation
import Chip8.Proofs.Session.Reports

/-!
# The window as a host

All that a window does to its session, a host could do: it takes actions and writes reports. Main
statement: `leads_play`, the session at the end has come about by ordinary actions from the session at the
start, and was reset as often as the key for it was pressed in the frames that the window has shown.
-/

namespace Chip8

def Input.isReset : Input → Bool
  | .keyDown key => Hotkey.ofKey? key = some .reset
  | _ => false

/-- How often the key for a reset is pressed. -/
def countResets (frames : List Frame) : Nat :=
  (frames.flatMap Frame.inputs).countP Input.isReset

theorem countResets_cons (frame : Frame) (rest : List Frame) :
    countResets (frame :: rest) = frame.inputs.countP Input.isReset + countResets rest := by
  rw [countResets, List.flatMap_cons, List.countP_append, countResets]

namespace Session

theorem leads_refl (s : Session) : s.Leads 0 s :=
  .of_alike (.refl s)

theorem isOrdinary_turnActions (count : Nat) (s : Session) :
    (turnActions count s).all Action.isOrdinary = true := by
  induction count generalizing s with
  | zero => rfl
  | succ count ih =>
      unfold turnActions
      split
      · exact ih s.turn
      · rfl

theorem countP_turnActions (count : Nat) (s : Session) :
    (turnActions count s).countP Action.isReset = 0 := by
  induction count generalizing s with
  | zero => rfl
  | succ count ih =>
      unfold turnActions
      split
      · exact ih s.turn
      · rfl

theorem leads_turns (count : Nat) (s : Session) : s.Leads 0 (s.turns count).2 := by
  rw [← run_turnActions, ← countP_turnActions count s]
  exact .of_run _ (isOrdinary_turnActions count s)

theorem leads_halt (s : Session) : s.Leads 0 s.halt :=
  .of_run [.cancel, .clock s.cancel.wakeTime, .turn] rfl

theorem leads_report (s : Session) (r : Report) : s.Leads 0 (s.report r) :=
  .of_alike (.report s r)

end Session

namespace Window

open Session

theorem leads_obey (w : Window) (hotkey : Hotkey) :
    w.session.Leads (if hotkey = .reset then 1 else 0) (w.obey hotkey).session := by
  cases hotkey with
  | pause =>
      cases ended : w.session.phase.isFinal with
      | true => simpa [obey, ended] using leads_refl w.session
      | false =>
          have toggled : w.session.Leads 0 w.session.togglePause :=
            .of_run [.togglePause] rfl
          simpa [obey, ended] using toggled
  | slowerClock => exact .of_run [.changeClockRate (-clockRateStep)] rfl
  | fasterClock => exact .of_run [.changeClockRate clockRateStep] rfl
  | slowerTimers => exact .of_run [.changeTimerRate (-timerRateStep)] rfl
  | fasterTimers => exact .of_run [.changeTimerRate timerRateStep] rfl
  | reset => exact .of_run [.clock w.session.cancel.wakeTime, .reset true] rfl
  | quit => exact leads_refl w.session

theorem leads_handle (w : Window) (input : Input) :
    w.session.Leads (if input.isReset then 1 else 0) (w.handle input).session := by
  cases input with
  | keyDown key =>
      cases named : Hotkey.ofKey? key with
      | some hotkey => simpa [handle, Input.isReset, named] using leads_obey w hotkey
      | none =>
          have same : (w.handle (.keyDown key)).session = w.session := by
            simp only [handle, named]
            split <;> rfl
          simpa [same, Input.isReset, named] using leads_refl w.session
  | _ => exact leads_refl w.session

theorem leads_foldl_handle (w : Window) (inputs : List Input) :
    w.session.Leads (inputs.countP Input.isReset) (inputs.foldl handle w).session := by
  induction inputs generalizing w with
  | nil => exact leads_refl w.session
  | cons input rest ih =>
      rw [List.countP_cons, Nat.add_comm]
      exact (leads_handle w input).trans (ih (w.handle input))

theorem leads_forwardKey (w : Window) : w.session.Leads 0 w.forwardKey.session := by
  simp only [forwardKey]
  split
  · exact leads_refl w.session
  · exact .of_run [.press w.held.head?] rfl

theorem leads_handleNotifications (w : Window) : w.session.Leads 0 w.handleNotifications.session := by
  have reported (s : Session) (notifications : List Notification) :
      s.Leads 0 (notifications.foldl (fun s n => s.report (reportOf n)) s) := by
    induction notifications generalizing s with
    | nil => exact leads_refl s
    | cons n rest ih => exact (leads_report s (reportOf n)).trans (ih (s.report (reportOf n)))
  have polled : w.session.Leads 0 { w.session with notifications := [] } :=
    .of_run [.poll] rfl
  exact polled.trans (reported _ _)

theorem leads_showFrame (w : Window) (inputs : List Input) :
    w.session.Leads (inputs.countP Input.isReset) (w.showFrame inputs).session :=
  ((leads_foldl_handle w inputs).trans (leads_forwardKey _)).trans (leads_handleNotifications _)

theorem leads_play (w : Window) (frames : List Frame) :
    let (shown, last) := w.play frames
    w.session.Leads (countResets (frames.take shown.length)) last.session := by
  induction frames generalizing w with
  | nil => exact leads_showFrame w [.quit]
  | cons frame rest ih =>
      have shown := leads_showFrame w frame.inputs
      have turned := shown.trans (leads_turns frame.turns (w.showFrame frame.inputs).session)
      simp only [play]
      split
      · simp only [List.length_cons, List.take_succ_cons, countResets_cons]
        exact turned.trans (ih _)
      · simp only [List.length_cons, List.length_nil, List.take_succ_cons, List.take_zero, countResets_cons]
        exact turned

end Window

end Chip8
