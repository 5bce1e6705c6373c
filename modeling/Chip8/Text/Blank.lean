/-!
# White space

The characters that separate fields: those of the Unicode property `White_Space` together with the
four information separators U+001C to U+001F.
-/

namespace Chip8.Text

def blankRanges : List (Nat × Nat) :=
  [(0x09, 0x0D), (0x1C, 0x20), (0x85, 0x85), (0xA0, 0xA0), (0x1680, 0x1680), (0x2000, 0x200A),
   (0x2028, 0x2029), (0x202F, 0x202F), (0x205F, 0x205F), (0x3000, 0x3000)]

def isBlank (c : Char) : Bool :=
  blankRanges.any fun range => range.1 ≤ c.toNat && c.toNat ≤ range.2

/-- The maximal runs of characters that are not blank, with `field` the reversed run so far. -/
def fieldsFrom (field : List Char) : List Char → List (List Char)
  | [] => if field.isEmpty then [] else [field.reverse]
  | c :: rest =>
      if isBlank c then
        if field.isEmpty then fieldsFrom [] rest else field.reverse :: fieldsFrom [] rest
      else fieldsFrom (c :: field) rest

def fields (text : List Char) : List (List Char) :=
  fieldsFrom [] text

theorem isBlank_of_isWhitespace {c : Char} (white : c.isWhitespace = true) : isBlank c = true := by
  simp only [Char.isWhitespace, Bool.or_eq_true, decide_eq_true_eq] at white
  rcases white with ((h | h) | h) | h <;> subst h <;> decide

end Chip8.Text
