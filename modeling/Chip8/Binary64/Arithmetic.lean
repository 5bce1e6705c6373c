import Chip8.Binary64.Rounding

/-!
# Arithmetic on binary64 numbers

Each operation rounds the exact result once. `remainder` is exact and has the sign of the dividend;
`flooredQuotient` is the largest whole number not above the quotient, as computed from that remainder.
-/

namespace Chip8.Binary64

def neg (x : Binary64) : Binary64 :=
  ofMagnitude (!x.isNegative) x.magnitude

def add (x y : Binary64) : Binary64 :=
  match x.reading, y.reading with
  | .nan, _ => nan
  | _, .nan => nan
  | .infinite s, .infinite t => if s = t then infinity s else nan
  | .infinite s, .finite _ _ => infinity s
  | .finite _ _, .infinite t => infinity t
  | .finite s a, .finite t b => ofRat (s && t) (a + b)

def sub (x y : Binary64) : Binary64 :=
  x.add y.neg

def mul (x y : Binary64) : Binary64 :=
  match x.reading, y.reading with
  | .nan, _ => nan
  | _, .nan => nan
  | .infinite s, .infinite t => infinity (s ^^ t)
  | .infinite s, .finite t b => if b = 0 then nan else infinity (s ^^ t)
  | .finite s a, .infinite t => if a = 0 then nan else infinity (s ^^ t)
  | .finite s a, .finite t b => ofRat (s ^^ t) (a * b)

def div (x y : Binary64) : Binary64 :=
  match x.reading, y.reading with
  | .nan, _ => nan
  | _, .nan => nan
  | .infinite _, .infinite _ => nan
  | .infinite s, .finite t _ => infinity (s ^^ t)
  | .finite s _, .infinite t => zero (s ^^ t)
  | .finite s a, .finite t b =>
      if b = 0 then (if a = 0 then nan else infinity (s ^^ t)) else ofRat (s ^^ t) (a / b)

instance : Neg Binary64 := ⟨neg⟩
instance : Add Binary64 := ⟨add⟩
instance : Sub Binary64 := ⟨sub⟩
instance : Mul Binary64 := ⟨mul⟩
instance : Div Binary64 := ⟨div⟩

/-- The order of the values; a NaN is below nothing. -/
def lt (x y : Binary64) : Bool :=
  match x.reading, y.reading with
  | .nan, _ => false
  | _, .nan => false
  | .infinite s, .infinite t => s && !t
  | .infinite s, .finite _ _ => s
  | .finite _ _, .infinite t => !t
  | .finite _ a, .finite _ b => a < b

def isZero (x : Binary64) : Bool :=
  x.magnitude = 0

def one : Binary64 := ofRat false 1

def half : Binary64 := ofRat false (1 / 2)

def truncate (q : Rat) : Int :=
  if q < 0 then -(-q).floor else q.floor

def remainder (x y : Binary64) : Binary64 :=
  match x.reading, y.reading with
  | .nan, _ => nan
  | _, .nan => nan
  | .infinite _, _ => nan
  | .finite _ _, .infinite _ => x
  | .finite s a, .finite _ b => if b = 0 then nan else ofRat s (a - b * truncate (a / b))

def floor (x : Binary64) : Binary64 :=
  match x.reading with
  | .finite s a => ofRat s a.floor
  | _ => x

/-- The quotient rounded down. The rounded quotient of dividend less remainder is a whole number or
next to one, so it is brought to the nearest whole number. -/
def flooredQuotient (x y : Binary64) : Binary64 :=
  let rest := x.remainder y
  let exact := (x - rest) / y
  let quotient :=
    if !rest.isZero && (y.lt (zero false) != rest.lt (zero false)) then exact - one else exact
  if quotient.isZero then zero (x / y).isNegative
  else
    let below := quotient.floor
    if half.lt (quotient - below) then below + one else below

inductive Failure where
  | divisionByZero
  | nanToInteger
  | infinityToInteger
  | integerTooLarge
  deriving DecidableEq, Repr

def Failure.message : Failure → String
  | .divisionByZero => "float division by zero"
  | .nanToInteger => "cannot convert float NaN to integer"
  | .infinityToInteger => "cannot convert float infinity to integer"
  | .integerTooLarge => "int too large to convert to float"

def toInt (x : Binary64) : Except Failure Int :=
  match x.reading with
  | .nan => .error .nanToInteger
  | .infinite _ => .error .infinityToInteger
  | .finite _ a => .ok (truncate a)

def ofInt (i : Int) : Except Failure Binary64 :=
  let x := ofRat false i
  if x.magnitude = infinityBits then .error .integerTooLarge else .ok x

def reciprocal (i : Int) : Except Failure Binary64 := do
  let x ← ofInt i
  if x.isZero then throw .divisionByZero
  return one / x

end Chip8.Binary64
