import Rsc.Fault

/-!
# Bits of integers

Words, addresses and field values are integers of any size, read as two's complement without
end: shifting right keeps the sign, and the low bits of a negative number are those of its
remainder. Widths and shift amounts are integers too, and negative ones are a fault.
-/

namespace Rsc.Bits

/-- Two to the power `n`. -/
def twoPow (n : Nat) : Int := Int.ofNat (Nat.pow 2 n)

theorem twoPow_pos (n : Nat) : 0 < twoPow n :=
  Int.natCast_pos.mpr (Nat.pow_pos (by decide))

/-- A value without its low `amount` bits. -/
def shiftRight (value : Int) (amount : Nat) : Int := Int.shiftRight value amount

/-- Dropping bits is division that rounds down. -/
theorem shiftRight_eq_div (value : Int) (amount : Nat) :
    shiftRight value amount = value / twoPow amount :=
  Int.shiftRight_eq_div_pow value amount

/-- A value moved up by `amount` bits. Zero stays zero however far it is moved. -/
def raise (value : Int) (amount : Nat) : Int := if value = 0 then 0 else value * twoPow amount

/-- Moving up is multiplication, also for zero, which is told apart only to save work. -/
theorem raise_eq_mul (value : Int) (amount : Nat) : raise value amount = value * twoPow amount := by
  by_cases h : value = 0 <;> simp [raise, h]

/-- The low `size` bits of a value: what is left of it without the bits above. A value that has
no bits above costs nothing, however large the size. -/
def low (size : Nat) (value : Int) : Int := value - raise (shiftRight value size) size

/-- The low bits are the remainder, which is never negative. -/
theorem low_eq_emod (size : Nat) (value : Int) : low size value = value % twoPow size := by
  rw [low, raise_eq_mul, shiftRight_eq_div, Int.emod_def, Int.mul_comm]

/-- The low bits have no sign, not even those of a negative value. -/
theorem low_nonneg (size : Nat) (value : Int) : 0 ≤ low size value := by
  rw [low_eq_emod]
  exact Int.emod_nonneg value (Int.ne_of_gt (twoPow_pos size))

theorem low_lt_twoPow (size : Nat) (value : Int) : low size value < twoPow size := by
  rw [low_eq_emod]
  exact Int.emod_lt_of_pos value (twoPow_pos size)

/-- A width or shift amount as a natural number. -/
def width (n : Int) : Except Fault Nat :=
  if n < 0 then .error .negativeShift else .ok n.toNat

/-- The greatest unsigned value of `size` bits. -/
def maxUnsigned (size : Int) : Except Fault Int := do
  return twoPow (← width size) - 1

/-- A value moved up by an amount that may be out of range. -/
def shiftLeft (value amount : Int) : Except Fault Int := do
  return raise value (← width amount)

/-- The bits of `value` from `offset` upwards, `size` of them. -/
def read (value size offset : Int) : Except Fault Int := do
  let offset ← width offset
  let size ← width size
  return low size (shiftRight value offset)

/-- The binary digits of the low `size` bits, filled with zeros to that width. -/
def binaryDigits (value : Int) (size : Nat) : Text :=
  Text.padLeft '0' size (Numeral.digits 2 (low size value).toNat)

/-- Fixed-width binary, for a width that may be out of range. -/
def binary (value size : Int) : Except Fault Text := do
  return binaryDigits value (← width size)

/-- Bitwise union of two integers. -/
def union : Int → Int → Int
  | .ofNat m, .ofNat n => .ofNat (m ||| n)
  | .ofNat m, .negSucc n => .negSucc (n &&& (n ^^^ m))
  | .negSucc m, .ofNat n => .negSucc (m &&& (m ^^^ n))
  | .negSucc m, .negSucc n => .negSucc (m &&& n)

/-- Makes room for `size` bits below `code` and puts `value` there. Bits of a value that is too
wide for its room, or negative, are united with the bits above. -/
def append (code : Int) (size : Nat) (value : Int) : Int :=
  raise (union code (shiftRight value size)) size + low size value

end Rsc.Bits
