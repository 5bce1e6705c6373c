import Chip8.Text.Hex
import Chip8.Text.Printable

/-!
# Quoted texts

A text in messages stands between single quotes, or between double quotes if it holds a single
quote and no double quote. The quote in use and the backslash are escaped, and so is every
character without a glyph, by its code.
-/

namespace Chip8.Text.Quoted

def quoteFor (text : List Char) : Char :=
  if text.contains '\x27' && !text.contains '"' then '"' else '\x27'

def code (c : Char) : List Char :=
  if c.toNat < 0x100 then '\\' :: 'x' :: Hex.pad 2 (Hex.digits c.toNat)
  else if c.toNat < 0x10000 then '\\' :: 'u' :: Hex.pad 4 (Hex.digits c.toNat)
  else '\\' :: 'U' :: Hex.pad 8 (Hex.digits c.toNat)

def escape (quote c : Char) : List Char :=
  if c = quote || c = '\\' then ['\\', c]
  else if c = '\t' then ['\\', 't']
  else if c = '\n' then ['\\', 'n']
  else if c = '\r' then ['\\', 'r']
  else if isPrintable c then [c]
  else code c

def encode (text : List Char) : List Char :=
  let quote := quoteFor text
  quote :: text.flatMap (escape quote) ++ [quote]

end Chip8.Text.Quoted

namespace Chip8.Text

def quoted (text : String) : String :=
  String.ofList (Quoted.encode text.toList)

end Chip8.Text
