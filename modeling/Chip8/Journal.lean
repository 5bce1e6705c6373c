import Chip8.Fault
import Chip8.KeyMap.Layout
import Chip8.Program.File
import Chip8.Session.Phase
import Chip8.Text.Utf8

/-!
# The journal

What is reported while a program is loaded and run: each report has a level, a channel and a text.
-/

namespace Chip8

inductive Level where
  | debug
  | info
  | warning
  | error
  deriving DecidableEq, Repr

def Level.text : Level → String
  | .debug => "DEBUG"
  | .info => "INFO"
  | .warning => "WARNING"
  | .error => "ERROR"

inductive Channel where
  | machine
  | session
  | keyMap
  | window
  | command
  deriving DecidableEq, Repr

def Channel.text : Channel → String
  | .machine => "chip8vm.machine"
  | .session => "chip8vm.controller"
  | .keyMap => "chip8vm.keyboard"
  | .window => "chip8vm.frontend"
  | .command => "chip8vm.cli"

inductive Unreadable where
  | storage (problem : Storage.Problem)
  | encoding (failure : Text.Utf8.Failure)
  deriving DecidableEq, Repr

inductive Report where
  | programLoaded (size : Nat)
  | machineReset
  | clockRate (rate : Int)
  | timerRate (rate : Int)
  | faulted (fault : Fault)
  | crashed
  | ended (phase : Phase)
  | layoutUnreadable (path : Storage.Path) (reason : Unreadable)
  | layoutInvalid (path : Storage.Path) (error : KeyMap.Layout.Error)
  | programRefused (refusal : Program.Refusal)
  | waitingForKey
  | programStopped (phase : Phase)
  deriving DecidableEq, Repr

def utf8Message (f : Text.Utf8.Failure) : String :=
  let place :=
    if f.count = 1 then s!"byte 0x{Text.Hex.byte f.first} in position {f.start}"
    else s!"bytes in position {f.start}-{f.start + f.count - 1}"
  let reason :=
    match f.reason with
    | .invalidStart => "invalid start byte"
    | .invalidContinuation => "invalid continuation byte"
    | .unexpectedEnd => "unexpected end of data"
  "'utf-8' codec can't decode " ++ place ++ ": " ++ reason

def Unreadable.message (path : Storage.Path) : Unreadable → String
  | .storage problem => problem.message path
  | .encoding failure => utf8Message failure

namespace Report

def level : Report → Level
  | .clockRate _ | .timerRate _ | .waitingForKey => .debug
  | .programLoaded _ | .machineReset | .ended _ | .programStopped _ => .info
  | .layoutUnreadable _ _ | .layoutInvalid _ _ => .warning
  | .faulted _ | .crashed | .programRefused _ => .error

def channel : Report → Channel
  | .programLoaded _ => .machine
  | .machineReset | .clockRate _ | .timerRate _ | .faulted _ | .crashed | .ended _ => .session
  | .layoutUnreadable _ _ | .layoutInvalid _ _ => .keyMap
  | .waitingForKey | .programStopped _ => .window
  | .programRefused _ => .command

def text : Report → String
  | .programLoaded size => s!"Program loaded ({size} bytes)"
  | .machineReset => "Machine reset"
  | .clockRate rate => s!"Clock rate {rate} Hz"
  | .timerRate rate => s!"Timer rate {rate} Hz"
  | .faulted fault => fault.message ++ " at PC " ++ Text.Hex.upperSigned 3 fault.pc
  | .crashed => "Execution thread crashed"
  | .ended phase => "Execution ended: " ++ phase.text
  | .layoutUnreadable path reason =>
      s!"Keyboard layout '{path}' could not be read (" ++ reason.message path ++
        "); using the default layout"
  | .layoutInvalid path error =>
      s!"Keyboard layout '{path}' is invalid: " ++ error.message ++ "; using the default layout"
  | .programRefused refusal => refusal.message
  | .waitingForKey => "Waiting for a key press"
  | .programStopped phase => "Program stopped (" ++ phase.text ++ ")"

end Report

end Chip8
