import Rsc.Text.Basic

/-!
# Numerals

Numbers as they are written in messages and listings, and the digits that literals are read from.
-/

namespace Rsc

/-- Fills a text up to `width` characters by repeating `fill` in front of it. -/
def Text.padLeft (fill : Char) (width : Nat) (t : Text) : Text :=
  List.replicate (width - t.length) fill ++ t

/-- Filling up never cuts off: a text that is too long stays as it is. -/
theorem Text.length_padLeft (fill : Char) (width : Nat) (t : Text) :
    (Text.padLeft fill width t).length = max width t.length := by
  simp only [Text.padLeft, List.length_append, List.length_replicate]
  omega

namespace Numeral

/-- The shortest digits of a number in a base up to sixteen, with small letters. -/
def digits (base n : Nat) : Text := Nat.toDigits base n

/-- Decimal, with a minus sign in front of negative numbers. -/
def decimal (n : Int) : Text :=
  if n < 0 then '-' :: digits 10 n.natAbs else digits 10 n.natAbs

/-- Hexadecimal in capitals, filled with zeros to `width`; a minus sign counts towards the
width and stands before the zeros. -/
def hex (width : Nat) (n : Int) : Text :=
  let body := (digits 16 n.natAbs).map Char.toUpper
  if n < 0 then '-' :: Text.padLeft '0' (width - 1) body else Text.padLeft '0' width body

/-- Decimal, filled with spaces to `width`. -/
def column (width : Nat) (n : Int) : Text := Text.padLeft ' ' width (decimal n)

/-- The value of an ASCII digit or of a letter from `a` to `f` in either case. -/
def digitValue? (c : Char) : Option Nat :=
  if '0' ≤ c ∧ c ≤ '9' then some (c.toNat - 48)
  else if 'a' ≤ c ∧ c ≤ 'f' then some (c.toNat - 87)
  else if 'A' ≤ c ∧ c ≤ 'F' then some (c.toNat - 55)
  else none

/-- Whether a character is a digit of the given base. -/
def isDigit (base : Nat) (c : Char) : Bool :=
  match digitValue? c with
  | some d => d < base
  | none => false

/-- The value of a run of digits, the most significant first. -/
def value (base : Nat) (ds : Text) : Nat :=
  ds.foldl (fun n c => n * base + (digitValue? c).getD 0) 0

/-- The most decimal digits a number may have to be read or written in decimal. -/
def decimalLimit : Nat := 4300

/-- Whether a number is short enough to be written in decimal. -/
def writable (n : Int) : Bool := n.natAbs < Nat.pow 10 decimalLimit

end Numeral

end Rsc
