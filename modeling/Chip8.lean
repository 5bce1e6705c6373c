import Chip8.Emulation
import Chip8.FailureKind
import Chip8.Instruction.Encoding
import Chip8.Main
import Chip8.Session.Action
import Chip8.Session.Ending
import Chip8.Proofs.Countdown.Cadence
import Chip8.Proofs.Machine.Bounds
import Chip8.Proofs.Machine.Drawing
import Chip8.Proofs.Machine.Effect
import Chip8.Proofs.Machine.Faults
import Chip8.Proofs.Machine.Straight
import Chip8.Proofs.Machine.Subroutine
import Chip8.Proofs.Session.Frame
import Chip8.Proofs.Session.Independence
import Chip8.Proofs.Session.Ticking
import Chip8.Proofs.Session.Regular
import Chip8.Proofs.Session.Safety
import Chip8.Proofs.Session.Cancellation
import Chip8.Proofs.Session.Renewal
import Chip8.Proofs.Session.Pausing
import Chip8.Proofs.Session.PausedTimers
import Chip8.Proofs.Session.KeyWait
import Chip8.Proofs.Session.Phases
import Chip8.Proofs.Session.Straight
import Chip8.Proofs.Emulation.Exit
import Chip8.Proofs.Machine.Arithmetic
import Chip8.Proofs.Machine.HostKeys
import Chip8.Proofs.Session.Interruption
import Chip8.Proofs.Machine.Storing
import Chip8.Proofs.Machine.Digits
import Chip8.Proofs.Binary64.Range
import Chip8.Proofs.Countdown.Writes
import Chip8.Proofs.KeyMap.Layout
import Chip8.Proofs.KeyMap.File
import Chip8.Proofs.Program.Loading
import Chip8.Window.Step
import Chip8.Proofs.Window.Held
import Chip8.Proofs.Session.Keypad
import Chip8.Proofs.Window.Forwarding
import Chip8.Proofs.Window.Picture
