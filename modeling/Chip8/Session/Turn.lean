import Chip8.Session.Basic

/-!
# Turns of the execution thread

A turn takes the thread from one stop to the next. It stops before each cycle of the machine, to sleep
for one period of the clock rate; while it is paused; and while it waits for a key, at the end of each
period of the timer rate. Between two stops there is at most one cycle of the machine.
-/

namespace Chip8.Session

def finish (s : Session) (phase : Phase) : Session :=
  let ended := { s with phase, position := .done }
  (ended.report (.ended phase)).notify .endOfExecution

def crash (s : Session) : Session :=
  (s.report .crashed).finish .failed

def fail (s : Session) (fault : Fault) : Session :=
  ({ s with fault := some fault }.report (.faulted fault)).finish .failed

def tickTimers (s : Session) : Except Binary64.Failure Session := do
  let timers := { s.machine.timers with rate := s.timerRate }
  let (_, timers) ← timers.tick .binary64 s.now
  return { s with machine := { s.machine with timers } }

/-- Goes to sleep before the next cycle, unless the run is cancelled or past the end of the program. -/
def goOn (s : Session) : Session :=
  if s.cancelled then s.finish .cancelled
  else if s.machine.finished then { s with phase := .running }.finish .terminated
  else
    match Binary64.reciprocal s.clockRate with
    | .ok duration => { s with phase := .running, position := .sleeping duration }
    | .error _ => { s with phase := .running }.crash

/-- The start of the loop: the thread stops here while it is paused. -/
def proceed (s : Session) : Session :=
  if s.paused && !s.cancelled then { s with phase := .paused, position := .pausing } else s.goOn

/-- The end of the loop: the timers count down. -/
def completeCycle (s : Session) : Session :=
  match s.tickTimers with
  | .ok s => s.proceed
  | .error _ => s.crash

/-- Stops to wait for the awaited key during one period of the timer rate. -/
def stopForKey (s : Session) : Session :=
  match Binary64.reciprocal s.timerRate with
  | .ok timeout => { s with position := .awaitingKey timeout }
  | .error _ => s.crash

/-- Leaves the wait for a key: with the key the run goes on, without it the run is cancelled. -/
def endKeyWait (s : Session) : Bool × Keypad → Session
  | (true, keypad) =>
      { s with phase := .running, machine := { s.machine with keypad, awaiting := none } }.completeCycle
  | (false, _) => s.finish .cancelled

def testKeyWait (s : Session) : Option (Bool × Keypad) :=
  s.machine.keypad.waitFor s.machine.awaiting s.cancelled false

def enterKeyWait (s : Session) : Session :=
  let s := { s with phase := .waitingForKey }.notify .waitingForKey
  match s.testKeyWait with
  | some outcome => s.endKeyWait outcome
  | none => s.stopForKey

def executeCycle (s : Session) : Session :=
  if s.broken then s.crash
  else
    match s.machine.cycle with
    | { machine, failure := some (.fault fault) } => { s with machine }.fail fault
    | { machine, failure := some (.defect _) } => { s with machine }.crash
    | { machine, failure := none } =>
        let s := { s with machine }
        if machine.awaiting.isSome then s.enterKeyWait else s.completeCycle

/-- A turn at the key wait. The key may have come or the run may be cancelled; otherwise the period has
passed, the timers count down and the next period begins. -/
def turnAtKeyWait (s : Session) : Session :=
  match s.testKeyWait with
  | some outcome => s.endKeyWait outcome
  | none =>
      match s.tickTimers with
      | .ok s => s.stopForKey
      | .error _ => s.crash

/-- A turn at the pause: time spent there does not count for the timers. -/
def turnAtPause (s : Session) : Session :=
  if s.paused && !s.cancelled then s
  else { s with machine := { s.machine with timers := s.machine.timers.restart } }.goOn

/-- A turn of the thread, which reads the clock at most once. -/
def takeTurn (s : Session) : Session :=
  match s.position with
  | .absent | .done => s
  | .fresh => s.proceed
  | .sleeping _ => s.executeCycle
  | .pausing => s.turnAtPause
  | .awaitingKey _ => s.turnAtKeyWait

/-- What the clock shows when the thread goes on, if nothing but its waits takes time: a key that has
come and a cancellation end the key wait at once. -/
def wakeTime (s : Session) : Binary64 :=
  match s.position with
  | .sleeping duration => s.now + duration
  | .awaitingKey timeout => if s.testKeyWait.isSome then s.now else s.now + timeout
  | _ => s.now

def turn (s : Session) : Session :=
  { s with now := s.wakeTime }.takeTurn

/-- Gives up to `count` turns, fewer if the thread ends, and says how many. -/
def turns : Nat → Session → Nat × Session
  | 0, s => (0, s)
  | count + 1, s =>
      if s.isLive then
        let (taken, s) := turns count s.turn
        (taken + 1, s)
      else (0, s)

end Chip8.Session
