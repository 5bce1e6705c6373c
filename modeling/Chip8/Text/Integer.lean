import Chip8.Text.Blank
import Chip8.Text.Digit

/-!
# Decimal integers

A numeral is an optional sign and decimal digits of any script, with single underscores allowed
between digits and white space allowed around the whole. It has at most `digitLimit` digits.
-/

namespace Chip8.Text.Integer

def digitLimit : Nat := 4300

/-- White space allowed around a numeral: every blank but the information separators. -/
def isPadding (c : Char) : Bool :=
  isBlank c && !(0x1C ≤ c.toNat && c.toNat ≤ 0x1F)

def trim (cs : List Char) : List Char :=
  ((cs.dropWhile isPadding).reverse.dropWhile isPadding).reverse

/-- The digits of an unsigned numeral; `afterDigit` says whether a digit stands just before. -/
def digitsFrom? (afterDigit : Bool) : List Char → Option (List Nat)
  | [] => if afterDigit then some [] else none
  | c :: rest =>
      if c = '_' then
        if afterDigit then digitsFrom? false rest else none
      else
        match digitValue? c with
        | some d => (digitsFrom? true rest).map (d :: ·)
        | none => none

def ofDigits (ds : List Nat) : Nat :=
  ds.foldl (fun n d => 10 * n + d) 0

def natural? (cs : List Char) : Option Nat :=
  match digitsFrom? false cs with
  | some ds => if ds.length ≤ digitLimit then some (ofDigits ds) else none
  | none => none

def read? (cs : List Char) : Option Int :=
  match trim cs with
  | '+' :: rest => (natural? rest).map Int.ofNat
  | '-' :: rest => (natural? rest).map fun n => -Int.ofNat n
  | body => (natural? body).map Int.ofNat

theorem digitsFrom?_lt {afterDigit : Bool} {cs : List Char} {ds : List Nat}
    (digits : digitsFrom? afterDigit cs = some ds) : ∀ d ∈ ds, d < 10 := by
  fun_induction digitsFrom? afterDigit cs generalizing ds with
  | case1 => simp_all
  | case2 => simp_all
  | case3 rest ih => exact ih digits
  | case4 => simp_all
  | case5 afterDigit c rest _ d value ih =>
      obtain ⟨tail, more, rfl⟩ := Option.map_eq_some_iff.1 digits
      intro e member
      cases member with
      | head => exact digitValue?_lt value
      | tail _ member => exact ih more e member
  | case6 => simp_all

end Chip8.Text.Integer
