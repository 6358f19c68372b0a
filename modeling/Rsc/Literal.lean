import Rsc.Fault

/-!
# Integer literals

Decimal, hexadecimal (`0x`), binary (`0b`) and octal (`0o`) literals with an optional sign. Only
ASCII digits count, leading zeros are allowed, and blanks around the literal are ignored.
-/

namespace Rsc

/-- A literal as it is spelt: its sign, base and digits. -/
structure Literal where
  negative : Bool
  base : Nat
  digits : Text
  deriving DecidableEq, Repr

namespace Literal

/-- A literal of one base, if there are digits and all are digits of that base. -/
def ofDigits? (negative : Bool) (base : Nat) (ds : Text) : Option Literal :=
  if !ds.isEmpty && ds.all (Numeral.isDigit base) then some ⟨negative, base, ds⟩ else none

/-- Reads what follows the sign: a base marker and digits, or decimal digits. -/
def ofUnsigned? (negative : Bool) : Text → Option Literal
  | '0' :: 'x' :: ds => ofDigits? negative 16 ds
  | '0' :: 'X' :: ds => ofDigits? negative 16 ds
  | '0' :: 'b' :: ds => ofDigits? negative 2 ds
  | '0' :: 'B' :: ds => ofDigits? negative 2 ds
  | '0' :: 'o' :: ds => ofDigits? negative 8 ds
  | '0' :: 'O' :: ds => ofDigits? negative 8 ds
  | ds => ofDigits? negative 10 ds

/-- Reads a literal that fills the whole text. -/
def ofText? : Text → Option Literal
  | '-' :: t => ofUnsigned? true t
  | '+' :: t => ofUnsigned? false t
  | t => ofUnsigned? false t

/-- The number that a literal denotes. -/
def value (l : Literal) : Int :=
  if l.negative then -(Numeral.value l.base l.digits : Int) else Numeral.value l.base l.digits

/-- The integer that a text denotes, `none` if it is not a literal. A decimal literal may not have
more digits than the decimal limit, leading zeros included. -/
def read (t : Text) : Except Fault (Option Int) :=
  match ofText? (Text.trim t) with
  | none => .ok none
  | some l =>
    if l.base = 10 ∧ Numeral.decimalLimit < l.digits.length then
      .error (.literalTooLong l.digits.length)
    else .ok (some l.value)

end Literal

end Rsc
