/-!
# The Mersenne twister

A generator of 32-bit words with a state of 624 words, started from a list of key words. A byte is
drawn from the nine highest bits of a word, words being skipped while these exceed 255.
-/

namespace Chip8.Random

def stateSize : Nat := 624

structure Twister where
  words : Array UInt32
  /-- The number of state words used since the last renewal. -/
  used : Nat

namespace Twister

def word (words : Array UInt32) (i : Nat) : UInt32 :=
  words.getD i 0

def spread (seed : UInt32) : Array UInt32 :=
  (List.range (stateSize - 1)).foldl
    (fun words i =>
      let previous := word words i
      words.push ((previous ^^^ (previous >>> 30)) * 1812433253 + UInt32.ofNat (i + 1)))
    #[seed]

/-- A place in the state with the key place that goes with it. -/
structure Cursor where
  words : Array UInt32
  place : Nat
  key : Nat

/-- Moves on to the next place; past the end the last word is copied to the front. -/
def Cursor.advance (c : Cursor) (words : Array UInt32) : Cursor :=
  if c.place + 1 < stateSize then { c with words, place := c.place + 1 }
  else { c with words := words.setIfInBounds 0 (word words (stateSize - 1)), place := 1 }

def Cursor.mixed (c : Cursor) (factor : UInt32) : UInt32 :=
  let previous := word c.words (c.place - 1)
  word c.words c.place ^^^ ((previous ^^^ (previous >>> 30)) * factor)

def Cursor.mixKey (keys : Array UInt32) (c : Cursor) : Cursor :=
  let value := c.mixed 1664525 + word keys c.key + UInt32.ofNat c.key
  let next := c.advance (c.words.setIfInBounds c.place value)
  { next with key := if c.key + 1 < keys.size then c.key + 1 else 0 }

def Cursor.mixPlace (c : Cursor) : Cursor :=
  c.advance (c.words.setIfInBounds c.place (c.mixed 1566083941 - UInt32.ofNat c.place))

def ofKeys (keys : Array UInt32) : Twister :=
  let start : Cursor := { words := spread 19650218, place := 1, key := 0 }
  let keyed := (List.range (max stateSize keys.size)).foldl (fun c _ => c.mixKey keys) start
  let mixed := (List.range (stateSize - 1)).foldl (fun c _ => c.mixPlace) keyed
  { words := mixed.words.setIfInBounds 0 0x80000000, used := stateSize }

/-- The 32-bit words of `n`, lowest first, with `fuel` bounding their number. -/
def keysWithin : Nat → Nat → List UInt32
  | 0, _ => []
  | fuel + 1, n => if n = 0 then [] else .ofNat (n % 0x100000000) :: keysWithin fuel (n / 0x100000000)

def keysOf (n : Nat) : List UInt32 :=
  if n = 0 then [0] else keysWithin (n.log2 / 32 + 1) n

/-- A seed counts by its size alone: `i` and `-i` give the same words. -/
def ofSeed (seed : Int) : Twister :=
  ofKeys (keysOf seed.natAbs).toArray

def renewWord (words : Array UInt32) (i : Nat) : Array UInt32 :=
  let joined :=
    (word words i &&& 0x80000000) ||| (word words ((i + 1) % stateSize) &&& 0x7FFFFFFF)
  let twist : UInt32 := if joined &&& 1 = 1 then 0x9908B0DF else 0
  words.setIfInBounds i (word words ((i + 397) % stateSize) ^^^ (joined >>> 1) ^^^ twist)

def renew (words : Array UInt32) : Array UInt32 :=
  (List.range stateSize).foldl renewWord words

def temper (w : UInt32) : UInt32 :=
  let w := w ^^^ (w >>> 11)
  let w := w ^^^ ((w <<< 7) &&& 0x9D2C5680)
  let w := w ^^^ ((w <<< 15) &&& 0xEFC60000)
  w ^^^ (w >>> 18)

def next (t : Twister) : UInt32 × Twister :=
  let t := if t.used < stateSize then t else { words := renew t.words, used := 0 }
  (temper (word t.words t.used), { t with used := t.used + 1 })

/-- The first word of at most `fuel` whose nine highest bits are below 256. -/
def byteWithin : Nat → Twister → UInt8 × Twister
  | 0, t => (0, t)
  | fuel + 1, t =>
      let (w, t) := t.next
      if w >>> 23 < 256 then (.ofNat (w >>> 23).toNat, t) else byteWithin fuel t

/-- The highest bit of the words is a recurrence over the 19937 bits of the state, so among that many
words and one there is one with the bit clear. -/
def byte (t : Twister) : UInt8 × Twister :=
  byteWithin 19938 t

end Twister

end Chip8.Random
