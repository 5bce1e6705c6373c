import Chip8.Session.Command
import Chip8.Window.Picture

/-!
# The window

The window shows the screen of a session and feeds it the keys that are held. The machine sees the key
that has been held longest; it is sent when it changes. Seven keys are commands to the emulator itself.
-/

namespace Chip8

structure Window where
  session : Session
  scale : Nat
  title : String
  /-- The keys held down, the longest held first. -/
  held : List Int := []
  /-- The key that was last sent to the machine. -/
  sent : Option Int := none
  running : Bool := true

inductive Input where
  | keyDown (key : Int)
  | keyUp (key : Int)
  | quit
  | other
  deriving DecidableEq, Repr

inductive Hotkey where
  | pause
  | slowerClock
  | fasterClock
  | slowerTimers
  | fasterTimers
  | reset
  | quit
  deriving DecidableEq, Repr

/-- Space pauses, F1 to F4 change the rates, F5 resets and Escape quits. -/
def Hotkey.ofKey? : Int → Option Hotkey
  | 32 => some .pause
  | 1073741882 => some .slowerClock
  | 1073741883 => some .fasterClock
  | 1073741884 => some .slowerTimers
  | 1073741885 => some .fasterTimers
  | 1073741886 => some .reset
  | 27 => some .quit
  | _ => none

namespace Window

/-- A scale below one counts as one. -/
def create (session : Session) (scale : Int) (title : String) : Window :=
  { session, title, scale := (max 1 scale).toNat }

def obey (w : Window) : Hotkey → Window
  | .quit => { w with running := false }
  | .pause =>
      if w.session.phase.isFinal then w else { w with session := w.session.togglePause }
  | .slowerClock => { w with session := w.session.changeClockRate (-clockRateStep) }
  | .fasterClock => { w with session := w.session.changeClockRate clockRateStep }
  | .slowerTimers => { w with session := w.session.changeTimerRate (-timerRateStep) }
  | .fasterTimers => { w with session := w.session.changeTimerRate timerRateStep }
  | .reset => { w with session := w.session.reset true, sent := none }

def handle (w : Window) : Input → Window
  | .quit => { w with running := false }
  | .keyDown key =>
      match Hotkey.ofKey? key with
      | some hotkey => w.obey hotkey
      | none => if key ∈ w.held then w else { w with held := w.held ++ [key] }
  | .keyUp key => { w with held := w.held.erase key }
  | .other => w

/-- Sends the longest held key to the machine if it is not the one sent last. -/
def forwardKey (w : Window) : Window :=
  let current := w.held.head?
  if current = w.sent then w
  else { w with session := w.session.press current, sent := current }

def handleInputs (w : Window) (inputs : List Input) : Window :=
  (inputs.foldl handle w).forwardKey

def reportOf (n : Notification) : Report :=
  match n.event with
  | .waitingForKey => .waitingForKey
  | .endOfExecution => .programStopped n.phase

def handleNotifications (w : Window) : Window :=
  let session := { w.session with notifications := [] }
  { w with session := w.session.notifications.foldl (fun s n => s.report (reportOf n)) session }

def openSurface (g : Graphics) (w : Window) : Picture :=
  g.openSurface (screenWidth * w.scale) (screenHeight * w.scale)

/-- Draws the screen of the session over the surface of the window. -/
def render (g : Graphics) (w : Window) (surface : Picture) : Picture :=
  g.drawScreen w.session.machine.screen surface

def picture (w : Window) : Picture :=
  w.render .nearest (w.openSurface .nearest)

def caption (w : Window) : String :=
  let rates := s!"{w.title} - CPU {w.session.clockRate} Hz - Timer {w.session.timerRate} Hz"
  if w.session.phase = .running then rates else rates ++ " [" ++ w.session.phase.text ++ "]"

end Window

end Chip8
