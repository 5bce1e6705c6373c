import Chip8.Binary64.Arithmetic

/-!
# The countdown of the timers

Two counters fall towards zero at a given rate. The cadence follows the time that has passed since the
last decrement, of which whole periods are applied and the rest is kept. The rule is stated over any
way to reckon with times: with binary64 numbers, as the machine does, or with exact rationals.
-/

namespace Chip8

structure Reckoning (Time : Type) where
  /-- The length of a period at a rate. -/
  period : Int → Except Binary64.Failure Time
  /-- The time from the second reading to the first. -/
  elapsed : Time → Time → Time
  /-- The number of whole periods in a time. -/
  wholePeriods : Time → Time → Except Binary64.Failure Int
  /-- A reading moved on by a number of periods. -/
  advance : Time → Int → Time → Except Binary64.Failure Time

namespace Reckoning

def binary64 : Reckoning Binary64 where
  period := Binary64.reciprocal
  elapsed now last := now - last
  wholePeriods elapsed period := (elapsed.flooredQuotient period).toInt
  advance last count period := return last + (← Binary64.ofInt count) * period

def exact : Reckoning Rat where
  period rate := if rate = 0 then .error .divisionByZero else .ok (1 / rate)
  elapsed now last := now - last
  wholePeriods elapsed period := .ok (elapsed / period).floor
  advance last count period := .ok (last + count * period)

end Reckoning

structure Countdown (Time : Type) where
  delay : Int := 0
  sound : Int := 0
  rate : Int := 60
  /-- The reading at which the last decrement took effect. -/
  last : Option Time := none
  deriving DecidableEq

namespace Countdown

variable {Time : Type}

def lower (counter : Int) (count : Int) : Int :=
  max 0 (counter - count)

/-- Applies the whole periods that have passed at reading `now` and gives their number. -/
def tick (reckoning : Reckoning Time) (now : Time) (c : Countdown Time) :
    Except Binary64.Failure (Int × Countdown Time) :=
  match c.last with
  | none => .ok (0, { c with last := some now })
  | some last => do
      let period ← reckoning.period c.rate
      let count ← reckoning.wholePeriods (reckoning.elapsed now last) period
      if count ≤ 0 then return (0, c)
      let next ← reckoning.advance last count period
      return (count, { c with last := some next, delay := lower c.delay count, sound := lower c.sound count })

/-- Forgets the last decrement; the next tick only takes a reading. -/
def restart (c : Countdown Time) : Countdown Time :=
  { c with last := none }

end Countdown

end Chip8
