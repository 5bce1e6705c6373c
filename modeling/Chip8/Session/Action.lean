import Chip8.Session.Command

/-!
# Actions

The smallest steps in the life of a session: what the host does, a turn of the execution thread, and the
passing of time between them. Every command is a run of actions.
-/

namespace Chip8

inductive Action where
  | start (paused : Bool)
  | reset (paused : Bool)
  | pause
  | resume
  | togglePause
  | cancel
  | press (key : Option Int)
  | changeClockRate (delta : Int)
  | changeTimerRate (delta : Int)
  | poll
  | sabotage
  /-- The clock comes to show `now`, earlier or later than before. -/
  | clock (now : Binary64)
  | turn
  deriving DecidableEq, Repr

namespace Session

def act (s : Session) : Action → Session
  | .start paused => (s.start paused).getD s
  | .reset paused => s.haltNow.restart paused
  | .pause => s.pause
  | .resume => s.resume
  | .togglePause => s.togglePause
  | .cancel => s.cancel
  | .press key => s.press key
  | .changeClockRate delta => s.changeClockRate delta
  | .changeTimerRate delta => s.changeTimerRate delta
  | .poll => { s with notifications := [] }
  | .sabotage => { s with broken := true }
  | .clock now => { s with now }
  | .turn => s.takeTurn

def run (s : Session) (actions : List Action) : Session :=
  actions.foldl act s

/-- The actions of up to `count` turns by the session's own clock. -/
def turnActions : Nat → Session → List Action
  | 0, _ => []
  | count + 1, s => if s.isLive then .clock s.wakeTime :: .turn :: turnActions count s.turn else []

def actionsOf (s : Session) : Command → List Action
  | .start paused => [.start paused]
  | .reset paused => [.clock s.cancel.wakeTime, .reset paused]
  | .pause => [.pause]
  | .resume => [.resume]
  | .togglePause => [.togglePause]
  | .cancel => [.cancel]
  | .press key => [.press key]
  | .release => [.press none]
  | .raiseClockRate => [.changeClockRate clockRateStep]
  | .lowerClockRate => [.changeClockRate (-clockRateStep)]
  | .raiseTimerRate => [.changeTimerRate timerRateStep]
  | .lowerTimerRate => [.changeTimerRate (-timerRateStep)]
  | .turns count => turnActions count s
  | .join count => turnActions count s
  | .poll => [.poll]
  | .sabotage => [.sabotage]

theorem run_cons (s : Session) (a : Action) (rest : List Action) :
    s.run (a :: rest) = (s.act a).run rest := rfl

theorem run_append (s : Session) (before after : List Action) :
    s.run (before ++ after) = (s.run before).run after :=
  List.foldl_append

theorem run_turnActions (count : Nat) (s : Session) :
    s.run (turnActions count s) = (turns count s).2 := by
  induction count generalizing s with
  | zero => rfl
  | succ count ih =>
      unfold turnActions turns
      split
      · exact ih s.turn
      · rfl

theorem run_actionsOf (s : Session) (c : Command) : s.run (s.actionsOf c) = (s.perform c).2 := by
  cases c with
  | start paused =>
      simp only [actionsOf, run, List.foldl_cons, List.foldl_nil, act, perform]
      cases s.start paused <;> rfl
  | turns count => exact run_turnActions count s
  | join count => exact run_turnActions count s
  | _ => rfl

end Session

end Chip8
