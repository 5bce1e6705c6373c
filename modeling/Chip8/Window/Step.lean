import Chip8.Emulation
import Chip8.Session.Action

/-!
# The steps of a window

The smallest steps in the life of a window: an input, the end of the inputs of a frame, the reading of the
notifications, and what happens to the session meanwhile, also amid the inputs of a frame. What a window does
in a frame is a run of steps.
-/

namespace Chip8.Window

inductive Step where
  | input (input : Input)
  /-- The inputs of a frame are done. -/
  | forward
  | notifications
  | session (action : Action)
  deriving DecidableEq, Repr

def step (w : Window) : Step → Window
  | .input input => w.handle input
  | .forward => w.forwardKey
  | .notifications => w.handleNotifications
  | .session action => { w with session := w.session.act action }

def run (w : Window) (steps : List Step) : Window :=
  steps.foldl step w

/-- The window and its surface after frames, each a run of steps after which the screen is drawn. -/
def display (g : Graphics) (w : Window) (surface : Picture) : List (List Step) → Window × Picture
  | [] => (w, surface)
  | steps :: rest => (w.run steps).display g ((w.run steps).render g surface) rest

theorem obey_eq (w : Window) (hotkey : Hotkey) :
    w.obey hotkey =
      { w with
        session := (w.obey hotkey).session
        sent := if hotkey = .reset then none else w.sent
        running := (w.obey hotkey).running } := by
  cases hotkey with
  | pause =>
      simp only [obey]
      split <;> rfl
  | _ => rfl

theorem forwardKey_eq (w : Window) :
    w.forwardKey =
      { w with
        session := if w.held.head? = w.sent then w.session else w.session.press w.held.head?
        sent := w.held.head? } := by
  simp only [forwardKey]
  split
  · rename_i same
    rw [same]
  · rfl

theorem run_cons (w : Window) (step : Step) (rest : List Step) :
    w.run (step :: rest) = (w.step step).run rest := rfl

theorem run_append (w : Window) (before after : List Step) :
    w.run (before ++ after) = (w.run before).run after :=
  List.foldl_append

theorem run_handleInputs (w : Window) (inputs : List Input) :
    w.run (inputs.map .input ++ [.forward]) = w.handleInputs inputs := by
  simp only [run, List.foldl_append, List.foldl_map]
  rfl

theorem run_showFrame (w : Window) (inputs : List Input) :
    w.run (inputs.map .input ++ [.forward, .notifications]) = w.showFrame inputs := by
  simp only [run, List.foldl_append, List.foldl_map]
  rfl

theorem run_session (w : Window) (actions : List Action) :
    w.run (actions.map .session) = { w with session := w.session.run actions } := by
  induction actions generalizing w with
  | nil => rfl
  | cons a rest ih => exact ih (w.step (.session a))

theorem run_giveTurns (w : Window) (count : Nat) :
    w.run ((Session.turnActions count w.session).map .session) = w.giveTurns count := by
  rw [run_session, Session.run_turnActions]
  rfl

end Chip8.Window
