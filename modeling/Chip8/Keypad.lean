/-!
# The keypad

The one host key that is pressed, if any. A machine that waits for a key consumes it.
-/

namespace Chip8

structure Keypad where
  current : Option Int := none
  deriving DecidableEq, Repr

namespace Keypad

def press (_ : Keypad) (key : Option Int) : Keypad :=
  { current := key }

def release (k : Keypad) : Keypad :=
  k.press none

def isPressed (k : Keypad) (key : Option Int) : Bool :=
  k.current = key

def take (k : Keypad) (key : Option Int) : Bool × Keypad :=
  if k.current = key then (true, { current := none }) else (false, k)

/-- Whether a wait for `key` is over: it has been interrupted or the key is there. -/
def waitOver (k : Keypad) (key : Option Int) (interrupted : Bool) : Bool :=
  interrupted || k.isPressed key

/-- A wait for `key` that has just been tested: nothing if it goes on, otherwise whether the key was
there, in which case it is consumed. A wait whose time is up ends as well. -/
def waitFor (k : Keypad) (key : Option Int) (interrupted timeUp : Bool) : Option (Bool × Keypad) :=
  if k.waitOver key interrupted || timeUp then some (k.take key) else none

end Keypad

end Chip8
