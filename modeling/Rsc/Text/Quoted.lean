import Rsc.Numeral
import Rsc.Text.Printable

/-!
# Quoted names

A name as it is shown in a message: between quotes, with everything that is not printable
written as an escape.
-/

namespace Rsc.Text

/-- The quote around a name: single, unless the name holds single quotes and no double ones. -/
def quoteMark (t : Text) : Char :=
  if t.contains (Char.ofNat 39) && !t.contains '"' then '"' else Char.ofNat 39

/-- Hexadecimal digits of a code point in small letters, filled with zeros to `width`. -/
def codeDigits (width : Nat) (c : Char) : Text :=
  Text.padLeft '0' width (Numeral.digits 16 c.toNat)

/-- One character inside quotes. -/
def escapeChar (mark : Char) (c : Char) : Text :=
  if c = mark ∨ c = '\\' then ['\\', c]
  else if c = '\n' then ['\\', 'n']
  else if c = '\r' then ['\\', 'r']
  else if c = '\t' then ['\\', 't']
  else if isPrintable c then [c]
  else if c.toNat < 0x100 then ['\\', 'x'] ++ codeDigits 2 c
  else if c.toNat < 0x10000 then ['\\', 'u'] ++ codeDigits 4 c
  else ['\\', 'U'] ++ codeDigits 8 c

/-- A name between quotes. -/
def quoted (t : Text) : Text :=
  let mark := quoteMark t
  mark :: t.flatMap (escapeChar mark) ++ [mark]

end Rsc.Text
