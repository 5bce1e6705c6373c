import Chip8.Random.Twister

/-!
# Random sources

The machine draws bytes from a stream of integers or from a seeded generator. Of an integer only the
lowest eight bits count.
-/

namespace Chip8.Random

inductive Source where
  | stream (value : Nat → Int) (drawn : Nat)
  | twister (state : Twister)

namespace Source

def silent : Source :=
  .stream (fun _ => 0) 0

/-- Draws the values in order, again and again. -/
def cycle (values : List Int) : Source :=
  .stream (fun i => values.getD (i % values.length) 0) 0

def seeded (seed : Int) : Source :=
  .twister (.ofSeed seed)

def draw : Source → UInt8 × Source
  | .stream value drawn => (.ofNat (value drawn % 256).toNat, .stream value (drawn + 1))
  | .twister state =>
      let (b, state) := state.byte
      (b, .twister state)

end Source

end Chip8.Random
