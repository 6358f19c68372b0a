import Rsc.Numeral

/-!
# Faults

Ways in which an operation can break down on arguments that no well-formed program leads to:
fields of negative width, operands that were never checked, numbers too long for decimal. A fault
points at no source line; what is wrong with a program is a diagnostic instead.
-/

namespace Rsc

/-- A breakdown of an operation. -/
inductive Fault where
  /-- A shift by a negative amount, or a field of negative width. -/
  | negativeShift
  /-- A decimal literal with more digits than can be read. -/
  | literalTooLong (digits : Nat)
  /-- A number with more digits than can be written in decimal. -/
  | numeralTooLong
  /-- An operand that should be an integer is none. -/
  | notInteger
  /-- A label that the table does not hold. -/
  | unboundLabel (name : Text)
  /-- Fewer operands than the fields of an instruction take. -/
  | operandsExhausted
  /-- Fewer operands than the expansion of an instruction names. -/
  | operandMissing
  /-- A word that does not fit sixteen bits. -/
  | wordOutOfRange (word : Int)
  /-- A word format of an unknown name. -/
  | unknownFormat (name : Text)
  deriving DecidableEq, Repr

namespace Fault

/-- The wording of a fault. -/
def message : Fault → Text
  | negativeShift => "negative shift count".toList
  | literalTooLong digits =>
    "Exceeds the limit (4300 digits) for integer string conversion: value has ".toList
      ++ Numeral.digits 10 digits
      ++ " digits; use sys.set_int_max_str_digits() to increase the limit".toList
  | numeralTooLong =>
    ("Exceeds the limit (4300 digits) for integer string conversion; "
      ++ "use sys.set_int_max_str_digits() to increase the limit").toList
  | notInteger => "operand is not an integer".toList
  | unboundLabel name => "unbound label ".toList ++ name
  | operandsExhausted => "too few operands for the fields".toList
  | operandMissing => "too few operands for the expansion".toList
  | wordOutOfRange _ => "word does not fit sixteen bits".toList
  | unknownFormat name => "Unknown text format: ".toList ++ name

end Fault

end Rsc
