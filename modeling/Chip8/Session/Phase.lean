/-!
# Phases and notifications

The phase of a session, and the notifications that its execution thread sends to the host.
-/

namespace Chip8

inductive Phase where
  | idle
  | running
  | paused
  | waitingForKey
  | terminated
  | failed
  | cancelled
  deriving DecidableEq, Repr

namespace Phase

def text : Phase → String
  | .idle => "idle"
  | .running => "running"
  | .paused => "paused"
  | .waitingForKey => "waiting for key"
  | .terminated => "terminated"
  | .failed => "failed"
  | .cancelled => "cancelled"

def isFinal : Phase → Bool
  | .terminated | .failed | .cancelled => true
  | _ => false

end Phase

inductive Event where
  | waitingForKey
  | endOfExecution
  deriving DecidableEq, Repr

def Event.text : Event → String
  | .waitingForKey => "waiting for key"
  | .endOfExecution => "end of execution"

structure Notification where
  event : Event
  phase : Phase
  deriving DecidableEq, Repr

end Chip8
