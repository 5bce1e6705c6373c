import Chip8.Emulation

/-!
# The command

Runs a program in the terminal. The picture is drawn with a character for each cell; the keys of a line
typed are pressed one after another, and the end of the input closes the window.
-/

namespace Chip8.Terminal

open Emulation CommandLine

def readEntry (path : String) : IO (List (String × Storage.Node)) := do
  try
    let bytes ← IO.FS.readBinFile path
    return [(path, .file bytes.toList)]
  catch _ => return []

def drawing (w : Window) : String :=
  let line (cells : List Bool) := String.ofList (cells.map fun lit => if lit then '#' else ' ')
  let screen := w.session.machine.screen
  "\x1b[H" ++ w.caption ++ "\x1b[K\n" ++
    joinLines ((List.range screenHeight).map fun y => line (screen.row y))

/-- The inputs of a frame: a key that is down goes up before the next one goes down. -/
def nextInputs (down : Option Int) (typed : List Char) : List Input × Option Int × List Char :=
  match down, typed with
  | some key, _ => ([.keyUp key], none, typed)
  | none, c :: rest => ([.keyDown c.toNat], some c.toNat, rest)
  | none, [] => ([], none, [])

def listen : IO (Task (Except IO.Error String)) := do
  let input ← IO.getStdin
  IO.asTask input.getLine

/-- Shows frames until the window is closed or the program has ended. -/
def present (window : Window) : IO Window := do
  let mut w := window
  let mut down : Option Int := none
  let mut typed : List Char := []
  let mut line ← listen
  IO.print "\x1b[2J"
  while w.running && w.session.isLive do
    let mut closed := false
    if ← IO.hasFinished line then
      let text := (line.get.toOption).getD ""
      closed := text.isEmpty
      typed := typed ++ text.toList.filter fun c => c != '\n'
      unless closed do line ← listen
    let (inputs, held, rest) := nextInputs down typed
    down := held
    typed := rest
    w := w.showFrame (if closed then inputs ++ [.quit] else inputs)
    IO.print (drawing w)
    w := w.giveTurns (w.session.clockRate / 60).toNat
    IO.sleep 16
  return w

end Chip8.Terminal

open Chip8 Chip8.Emulation Chip8.CommandLine in
def main (arguments : List String) : IO UInt32 := do
  let finish (result : Result) : IO UInt32 := do
    IO.print result.output
    IO.eprint (result.errorOutput Channel.command.text)
    return .ofNat (result.code?.getD 1)
  match parse arguments with
  | .error halt => finish (.halted halt)
  | .ok options =>
      let files := (← Terminal.readEntry options.rom) ++ (← Terminal.readEntry (layoutPath options))
      match prepare (.ofEntries files) options with
      | .error result => finish result
      | .ok (layoutReports, window) =>
          let last ← Terminal.present window
          let session := last.session.halt
          finish (.ran { verbose := options.verbose, layoutReports, frames := [], session })
