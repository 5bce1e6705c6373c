import Chip8.Journal
import Chip8.Machine.Execution

/-!
# Sessions

A session runs one program on a machine that its execution thread owns, under a clock of its own. The
thread works in turns and stands still between them; `Position` says where. The host pauses, resumes,
cancels and resets the run, and reads notifications and the journal.
-/

namespace Chip8

def defaultClockRate : Int := 700

def minClockRate : Int := 200

def maxClockRate : Int := 1000

def clockRateStep : Int := 100

def defaultTimerRate : Int := 60

def minTimerRate : Int := 20

def maxTimerRate : Int := 80

def timerRateStep : Int := 10

/-- `value` changed by `delta` and brought between the bounds; the lower bound wins. -/
def stepRate (value delta lowest highest : Int) : Int :=
  max lowest (min highest (value + delta))

/-- Where the execution thread stands between two turns. -/
inductive Position where
  | absent
  | fresh
  | sleeping (duration : Binary64)
  | pausing
  | awaitingKey (timeout : Binary64)
  | done
  deriving DecidableEq, Repr

structure Session where
  program : Program
  keyMap : KeyMap
  clockRate : Int
  timerRate : Int
  machine : Machine
  /-- Whether the machine has been broken, so that its next cycle crashes. -/
  broken : Bool := false
  position : Position := .absent
  paused : Bool := false
  cancelled : Bool := false
  phase : Phase := .idle
  fault : Option Fault := none
  /-- The notifications that the host has not fetched, the oldest first. -/
  notifications : List Notification := []
  now : Binary64 := .zero false
  /-- The reports since the host last read the journal, the oldest first. -/
  journal : List Report := []

namespace Session

def report (s : Session) (r : Report) : Session :=
  { s with journal := s.journal ++ [r] }

def notify (s : Session) (event : Event) : Session :=
  { s with notifications := s.notifications ++ [{ event, phase := s.phase }] }

def buildMachine (program : Program) (keyMap : KeyMap) (timerRate : Int) (random : Random.Source) :
    Machine :=
  { (Machine.fresh keyMap random).load program with timers := { rate := timerRate } }

def create (program : Program) (keyMap : KeyMap) (clockRate timerRate : Int) (random : Random.Source) :
    Session :=
  let timerRate := stepRate timerRate 0 minTimerRate maxTimerRate
  { program, keyMap, timerRate
    clockRate := stepRate clockRate 0 minClockRate maxClockRate
    machine := buildMachine program keyMap timerRate random
    journal := [.programLoaded program.size] }

def isLive (s : Session) : Bool :=
  s.position != .absent && s.position != .done

end Session

end Chip8
