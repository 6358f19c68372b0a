import Rsc.Proofs.Columns
import Rsc.Proofs.Packing

/-!
# Bits written out

A number in binary of a fixed width has one digit for each bit, the highest first. Digits are
written from the lowest one up, each in front of those below it, so that a text of two widths
together is the text of the upper bits followed by that of the lower ones. Two numbers are written
alike exactly when they agree as far as the width goes.
-/

namespace Rsc

/-- A column with one more place has the last digit there, and the other digits before it. -/
theorem Numeral.padLeft_digits_succ {base : Nat} (hone : 1 < base) (n : Nat) {width : Nat}
    (hwidth : 0 < width) :
    Text.padLeft '0' (width + 1) (digits base n) =
      Text.padLeft '0' width (digits base (n / base)) ++ [Nat.digitChar (n % base)] := by
  unfold digits
  rw [Nat.toDigits_eq_if hone]
  split
  next hlt =>
    -- One digit, and zeros in all places before it.
    obtain ⟨places, rfl⟩ : ∃ places, width = places + 1 := ⟨width - 1, by omega⟩
    rw [Nat.div_eq_of_lt hlt, Nat.mod_eq_of_lt hlt, Nat.toDigits_zero]
    simp [Text.padLeft, List.replicate_succ']
  next => simp [Text.padLeft]

namespace Bits

/-- The digit that a bit is written with. -/
inductive BitDigit : Int → Char → Prop where
  | zero : BitDigit 0 '0'
  | one : BitDigit 1 '1'

theorem bitDigit_low (value : Int) :
    BitDigit (low 1 value) (Nat.digitChar (low 1 value).toNat) := by
  have hnonneg := low_nonneg 1 value
  have hlt : low 1 value < 2 := low_lt_twoPow 1 value
  obtain hbit | hbit : low 1 value = 0 ∨ low 1 value = 1 := by omega
  · rw [hbit]
    exact .zero
  · rw [hbit]
    exact .one

theorem binaryDigits_one (value : Int) :
    binaryDigits value 1 = [Nat.digitChar (low 1 value).toNat] := by
  have hlt : (low 1 value).toNat < 2 :=
    (Int.toNat_lt (low_nonneg 1 value)).mpr (low_lt_twoPow 1 value)
  rw [binaryDigits, Numeral.digits, Nat.toDigits_of_lt_base hlt]
  rfl

/-- One more bit is one more digit at the end. -/
theorem binaryDigits_succ (value : Int) {size : Nat} (hsize : 0 < size) :
    binaryDigits value (size + 1) =
      binaryDigits (shiftRight value 1) size ++ [Nat.digitChar (low 1 value).toNat] := by
  have hsplit : low (size + 1) value = low size (shiftRight value 1) * 2 + low 1 value :=
    low_add size 1 value
  have habove := low_nonneg size (shiftRight value 1)
  have hnonneg := low_nonneg 1 value
  have hlt : low 1 value < 2 := low_lt_twoPow 1 value
  have hdiv : (low (size + 1) value).toNat / 2 = (low size (shiftRight value 1)).toNat := by omega
  have hmod : (low (size + 1) value).toNat % 2 = (low 1 value).toNat := by omega
  rw [binaryDigits, Numeral.padLeft_digits_succ (by decide) _ hsize, hdiv, hmod, binaryDigits]

/-- The digits of all bits, from the lowest up, read backwards. -/
theorem binaryDigits_eq_reverse (value : Int) {size : Nat} (hsize : 0 < size) :
    binaryDigits value size =
      ((List.range size).map fun bit =>
        Nat.digitChar (low 1 (shiftRight value bit)).toNat).reverse := by
  induction size, hsize using Nat.le_induction generalizing value with
  | base =>
      rw [binaryDigits_one, List.range_one, List.map_singleton, shiftRight_zero]
      rfl
  | succ size hsize ih =>
      rw [binaryDigits_succ value hsize, ih, List.range_succ_eq_map, List.map_cons,
        List.reverse_cons, List.map_map, shiftRight_zero]
      congr 3
      funext bit
      rw [shiftRight_shiftRight, Nat.add_comm]
      rfl

theorem getElem?_binaryDigits (value : Int) {size i : Nat} (hi : i < size) :
    (binaryDigits value size)[i]? =
      some (Nat.digitChar (low 1 (shiftRight value (size - 1 - i))).toNat) := by
  have hbit : size - 1 - i < size := by omega
  rw [binaryDigits_eq_reverse value (by omega), List.getElem?_reverse (by simpa using hi),
    List.length_map, List.length_range, List.getElem?_map, List.getElem?_range hbit]
  rfl

/-- The digits of the upper bits stand before those of the lower ones. -/
theorem binaryDigits_add (value : Int) {above size : Nat} (habove : 0 < above) (hsize : 0 < size) :
    binaryDigits value (above + size) =
      binaryDigits (shiftRight value size) above ++ binaryDigits value size := by
  induction size, hsize using Nat.le_induction generalizing value with
  | base => rw [binaryDigits_succ value habove, binaryDigits_one]
  | succ size hsize ih =>
      rw [← Nat.add_assoc, binaryDigits_succ value (by omega), ih, shiftRight_shiftRight,
        Nat.add_comm 1 size, List.append_assoc, ← binaryDigits_succ value hsize]

theorem binaryDigits_eq_iff (first second : Int) (size : Nat) :
    binaryDigits first size = binaryDigits second size ↔
      first % twoPow size = second % twoPow size := by
  rw [← low_eq_emod, ← low_eq_emod]
  constructor
  · intro hsame
    have hshows := shows_binaryDigits first size
    rw [hsame] at hshows
    exact hshows.unique (shows_binaryDigits second size)
  · intro hsame
    rw [binaryDigits, binaryDigits, hsame]

/-! ## Widths as integers -/

theorem binary_natCast (value : Int) (size : Nat) :
    binary value size = .ok (binaryDigits value size) := by
  rw [binary, width_natCast]
  rfl

theorem read_one_natCast (value : Int) (offset : Nat) :
    read value 1 offset = .ok (low 1 (shiftRight value offset)) := by
  rw [read_of_nonneg (by decide), low_eq_emod, shiftRight_eq_div]
  rfl

/-- A number in binary has as many digits as the width says, each for one of its bits from the
highest down. A text of two widths is the text of the bits above the lower width, and then that of
the bits below. Numbers are written alike exactly when they agree modulo two to the width. -/
theorem binary_shows_bits {size : Nat} (hsize : 1 ≤ size) :
    (∀ value : Int, ∃ t, binary value size = .ok t ∧ t.length = size ∧
      ∀ i < size, ∃ bit c, read value 1 (size - 1 - i) = .ok bit ∧ BitDigit bit c ∧
        t[i]? = some c) ∧
    (∀ (value : Int) (rest : Nat), 1 ≤ rest → ∃ upper lower,
      binary (shiftRight value rest) size = .ok upper ∧ binary value rest = .ok lower ∧
        binary value (size + rest) = .ok (upper ++ lower)) ∧
    ∀ first second : Int, binary first size = binary second size ↔
      first % twoPow size = second % twoPow size := by
  simp only [binary_natCast]
  refine ⟨?_, ?_, ?_⟩
  · intro value
    refine ⟨_, rfl, length_binaryDigits value hsize, ?_⟩
    intro i hi
    have hoffset : (size : Int) - 1 - i = (size - 1 - i : Nat) := by omega
    rw [hoffset, read_one_natCast]
    exact ⟨_, _, rfl, bitDigit_low _, getElem?_binaryDigits value hi⟩
  · intro value rest hrest
    refine ⟨_, _, rfl, rfl, ?_⟩
    rw [← Nat.cast_add, binary_natCast, binaryDigits_add value hsize hrest]
  · intro first second
    rw [Except.ok.injEq, binaryDigits_eq_iff]

/-- A negative number is written like the number above it by two to the width. -/
theorem binary_shows_bits_negative :
    binary (-3) 4 = .ok "1101".toList ∧
      (∃ bit c, read (-3) 1 (4 - 1 - 2) = .ok bit ∧ BitDigit bit c ∧
        "1101".toList[2]? = some c) ∧
      (∃ upper lower, binary (shiftRight (-3) 2) 4 = .ok upper ∧ binary (-3) 2 = .ok lower ∧
        binary (-3) (4 + 2) = .ok (upper ++ lower)) ∧
      binary (-3) 4 = binary 13 4 := by
  have hsize : 1 ≤ 4 := by decide
  have hwritten : binary (-3) 4 = .ok "1101".toList := by decide
  obtain ⟨hdigits, hsplit, hsame⟩ := binary_shows_bits hsize
  refine ⟨hwritten, ?_, hsplit (-3) 2 (by decide), (hsame (-3) 13).mpr (by decide)⟩
  obtain ⟨t, ht, _, hbits⟩ := hdigits (-3)
  obtain rfl := Except.ok.inj (hwritten.symm.trans ht)
  exact hbits 2 (by decide)

end Bits

end Rsc
