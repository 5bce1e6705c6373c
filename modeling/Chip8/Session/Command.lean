import Chip8.Session.Turn

/-!
# Commands of the host

Everything the host can do to a session, including to give its thread turns and to break its machine.
-/

namespace Chip8

inductive Command where
  | start (paused : Bool)
  | reset (paused : Bool)
  | pause
  | resume
  | togglePause
  | cancel
  | press (key : Option Int)
  | release
  | raiseClockRate
  | lowerClockRate
  | raiseTimerRate
  | lowerTimerRate
  | turns (count : Nat)
  | join (count : Nat)
  | poll
  | sabotage
  deriving DecidableEq, Repr

inductive Reply where
  | done
  | refused
  | paused (paused : Bool)
  | rate (rate : Int)
  | taken (count : Nat)
  | phase (phase : Phase)
  | notifications (items : List Notification)
  deriving DecidableEq, Repr

/-- Said when a session that has a thread is started again. -/
def alreadyStarted : String :=
  "controller already started"

/-- Said when a broken machine is to execute a cycle. -/
def breakage : String :=
  "boom"

namespace Session

/-- Starts the thread, which takes no turn yet; refused if there is one already. -/
def start (s : Session) (paused : Bool) : Option Session :=
  if s.position = .absent then
    some { s with paused, phase := if paused then .paused else .running, position := .fresh }
  else none

def pause (s : Session) : Session :=
  { s with paused := true }

def resume (s : Session) : Session :=
  { s with paused := false }

def togglePause (s : Session) : Session :=
  if s.paused then s.resume else s.pause

def cancel (s : Session) : Session :=
  { s with cancelled := true }

def press (s : Session) (key : Option Int) : Session :=
  { s with machine := s.machine.press key }

def release (s : Session) : Session :=
  s.press none

def changeClockRate (s : Session) (delta : Int) : Session :=
  let rate := stepRate s.clockRate delta minClockRate maxClockRate
  { s with clockRate := rate }.report (.clockRate rate)

def changeTimerRate (s : Session) (delta : Int) : Session :=
  let rate := stepRate s.timerRate delta minTimerRate maxTimerRate
  { s with timerRate := rate }.report (.timerRate rate)

/-- Cancels the run and lets its thread end, for which one turn is enough. -/
def halt (s : Session) : Session :=
  s.cancel.turn

/-- The same with the clock as it stands. -/
def haltNow (s : Session) : Session :=
  s.cancel.takeTurn

/-- Replaces the machine by a new one; the random source goes on where it was. -/
def renew (s : Session) : Session :=
  { s with
    position := .absent
    cancelled := false
    fault := none
    broken := false
    phase := .idle
    machine := buildMachine s.program s.keyMap s.timerRate s.machine.random }

def restart (s : Session) (paused : Bool) : Session :=
  let renewed := (s.renew.report (.programLoaded s.program.size)).report .machineReset
  { renewed with paused, phase := if paused then .paused else .running, position := .fresh }

def reset (s : Session) (paused : Bool) : Session :=
  s.halt.restart paused

def perform (s : Session) : Command → Reply × Session
  | .start paused =>
      match s.start paused with
      | some started => (.done, started)
      | none => (.refused, s)
  | .reset paused => (.done, s.reset paused)
  | .pause => (.done, s.pause)
  | .resume => (.done, s.resume)
  | .togglePause => let s := s.togglePause; (.paused s.paused, s)
  | .cancel => (.done, s.cancel)
  | .press key => (.done, s.press key)
  | .release => (.done, s.release)
  | .raiseClockRate => let s := s.changeClockRate clockRateStep; (.rate s.clockRate, s)
  | .lowerClockRate => let s := s.changeClockRate (-clockRateStep); (.rate s.clockRate, s)
  | .raiseTimerRate => let s := s.changeTimerRate timerRateStep; (.rate s.timerRate, s)
  | .lowerTimerRate => let s := s.changeTimerRate (-timerRateStep); (.rate s.timerRate, s)
  | .turns count => let (taken, s) := s.turns count; (.taken taken, s)
  | .join count => let s := (s.turns count).2; (.phase s.phase, s)
  | .poll => (.notifications s.notifications, { s with notifications := [] })
  | .sabotage => (.done, { s with broken := true })

end Session

end Chip8
