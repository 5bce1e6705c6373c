import Chip8.CommandLine.Parsing
import Chip8.KeyMap.File
import Chip8.Window.Basic

/-!
# Emulation

A whole run from the command line to the closing of the window. The window shows frame after frame;
each handles the inputs that have arrived and lets the execution thread take some turns. When no frame
is left, the window is closed.
-/

namespace Chip8

structure Frame where
  inputs : List Input
  turns : Nat
  deriving DecidableEq, Repr

namespace Window

def showFrame (w : Window) (inputs : List Input) : Window :=
  (w.handleInputs inputs).handleNotifications

def giveTurns (w : Window) (count : Nat) : Window :=
  { w with session := (w.session.turns count).2 }

/-- The window at each frame until it is closed, and the window at the end. -/
def play (w : Window) : List Frame → List Window × Window
  | [] =>
      let shown := w.showFrame [.quit]
      ([shown], shown)
  | frame :: rest =>
      let shown := w.showFrame frame.inputs
      let turned := shown.giveTurns frame.turns
      if shown.running then
        let (frames, last) := turned.play rest
        (shown :: frames, last)
      else ([shown], turned)

end Window

namespace Emulation

open CommandLine

structure Settings where
  scale : Int
  clock : Int
  timerRate : Int
  seed : Option Int

/-- A run that was started: the reports about the layout, the window at each frame and the session
after its end. -/
structure Run where
  verbose : Bool
  layoutReports : List Report
  frames : List Window
  session : Session

inductive Result where
  | halted (halt : Halt)
  | refused (refusal : Program.Refusal)
  /-- The path of the program or of the layout cannot be looked up. -/
  | badPath (path : Storage.Path) (problem : Storage.Problem)
  | missing (setting : NeededSetting)
  | ran (run : Run)

/-- The layout goes with the program unless one is named. -/
def layoutPath (options : Options) : String :=
  match options.layout with
  | some (.value path) => if path = "" then options.rom ++ ".kb" else path
  | _ => options.rom ++ ".kb"

/-- The settings, or the first one missing in the order in which they are needed. -/
def neededSettings (options : Options) : Except NeededSetting Settings := do
  let seed ← options.seed.mapM (Setting.need .seed)
  let clock ← options.clock.need .clock
  let timerRate ← options.timerRate.need .timerRate
  let scale ← options.scale.need .scale
  return { scale, clock, timerRate, seed }

def resultOf : Program.ReadError → Result
  | .refused refusal => .refused refusal
  | .badPath path problem => .badPath path problem

def randomSource (seed : Option Int) : Random.Source :=
  match seed with
  | some seed => .seeded seed
  | none => .silent

/-- The window as it is opened, on a session whose thread has just been started. -/
def openWindow (options : Options) (settings : Settings) (program : Program) (keyMap : KeyMap) : Window :=
  let session :=
    Session.create program keyMap settings.clock settings.timerRate (randomSource settings.seed)
  let window := Window.create session settings.scale ("chip8vm - " ++ options.rom)
  { window with session := (session.start options.paused).getD session }

/-- Reads the program and the layout and opens the window; the reports are those about the layout. -/
def prepare (storage : Storage) (options : Options) : Except Result (List Report × Window) := do
  let program ← (Program.read storage options.rom).mapError resultOf
  let path := layoutPath options
  let (keyMap, reports) ← (KeyMap.load storage path).mapError (.badPath (.ofString path))
  let settings ← (neededSettings options).mapError .missing
  return (reports, openWindow options settings program keyMap)

def runOptions (storage : Storage) (options : Options) (frames : List Frame) : Result :=
  match prepare storage options with
  | .error result => result
  | .ok (layoutReports, window) =>
      let (shown, last) := window.play frames
      .ran { verbose := options.verbose, layoutReports, frames := shown, session := last.session.halt }

def run (storage : Storage) (arguments : List String) (frames : List Frame) : Result :=
  match parse arguments with
  | .error halt => .halted halt
  | .ok options => runOptions storage options frames

/-- The exit code; `none` if the run was abandoned for a reason that no code stands for. -/
def Result.code? : Result → Option Nat
  | .halted halt => some halt.code
  | .refused _ => some 1
  | .badPath _ _ => none
  | .missing _ => none
  | .ran run => some (if run.session.phase = .failed then 1 else 0)

/-- A report as a line of the error output, with the name given to the command's own channel. -/
def reportLine (command : String) (r : Report) : String :=
  let channel := if r.channel = .command then command else r.channel.text
  "[" ++ r.level.text ++ "] " ++ channel ++ ": " ++ r.text

def Run.journal (run : Run) : List Report :=
  run.layoutReports ++ run.session.journal

/-- The reports shown to the user: all of them in a verbose run, otherwise all but the debug reports. -/
def Run.shownReports (run : Run) : List Report :=
  run.journal.filter fun r => run.verbose || r.level != .debug

def Result.output : Result → String
  | .halted halt => halt.output
  | _ => ""

def Result.errorOutput (command : String) : Result → String
  | .halted halt => halt.errorOutput
  | .refused refusal => joinLines [reportLine command (.programRefused refusal)]
  | .badPath path problem => joinLines [problem.message path]
  | .missing setting => joinLines [setting.missingMessage]
  | .ran run => joinLines (run.shownReports.map (reportLine command))

end Emulation

end Chip8
