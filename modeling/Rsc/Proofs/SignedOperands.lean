import Mathlib.Data.Set.Card
import Rsc.Proofs.Instructions
import Rsc.Proofs.Spelling

/-!
# Signed operands

A signed field keeps the low bits of a number in two's complement. Its strict form takes only the
numbers that these bits tell apart, so that a number is read back from the field by its sign bit.
The other form also takes the numbers that an unsigned field of that width takes. There the values
with the sign bit set have two readings each, a positive and a negative one, and nothing else is
lost.
-/

namespace Rsc

namespace Bits

/-- The low bits of a number that needs no more than the width, with or without a sign, are a value
of the width that the number is equal to or lies a whole turn below. -/
theorem low_eq_iff {size : Int} (hsize : 1 ≤ size) {n v : Int}
    (hleast : -twoPow (size - 1).toNat ≤ n) (hgreatest : n < twoPow size.toNat) :
    low size.toNat n = v ↔
      0 ≤ v ∧ v < twoPow size.toNat ∧ (n = v ∨ n = v - twoPow size.toNat) := by
  have hhalf := twoPow_eq_two_mul hsize
  have hpos := twoPow_pos (size - 1).toNat
  have hlow : low size.toNat n = if n < 0 then n + twoPow size.toNat else n := by
    rw [low_eq_emod]
    split
    next hneg =>
      rw [← Int.add_emod_right]
      exact Int.emod_eq_of_lt (by omega) (by omega)
    next hnonneg => exact Int.emod_eq_of_lt (by omega) hgreatest
  rw [hlow]
  split <;> omega

/-- A value read with its highest bit as the sign. -/
theorem toInt_ofInt_of_fits {size : Int} (hsize : 1 ≤ size) {v : Int} (hnonneg : 0 ≤ v)
    (hfits : v < twoPow size.toNat) :
    (BitVec.ofInt size.toNat v).toInt =
      if v < twoPow (size - 1).toNat then v else v - twoPow size.toNat := by
  have hhalf := twoPow_eq_two_mul hsize
  have hturn : ((2 ^ size.toNat : Nat) : Int) = twoPow size.toNat := rfl
  rw [BitVec.toInt_ofInt]
  split
  next hplus => exact Int.bmod_eq_of_le_mul_two (by omega) (by omega)
  next hminus =>
    rw [← Int.sub_bmod_right, hturn]
    exact Int.bmod_eq_of_le_mul_two (by omega) (by omega)

end Bits

namespace Field

/-- The token passes the check of the field, it denotes the number, and it is encoded as the
value. -/
structure Takes (field : Field) (labels : LabelTable) (token : Text) (n v : Int) : Prop where
  passes : field.check labels token = .ok none
  denotes : Literal.Denotes token n
  encodes : field.encode labels token = .ok (some v)

/-- The numbers that a field takes and encodes as one value. -/
def readings (field : Field) (labels : LabelTable) (v : Int) : Set Int :=
  {n | ∃ token, field.Takes labels token n v}

/-- The number lies between the bounds of a signed field, and the value of the field that it has is
the number itself or a whole turn above it. -/
structure SignedReading (size : Int) (strict : Bool) (n v : Int) : Prop where
  least : -Bits.twoPow (size - 1).toNat ≤ n
  greatest : n ≤ signedGreatest size strict
  nonneg : 0 ≤ v
  fits : v < Bits.twoPow size.toNat
  turn : n = v ∨ n = v - Bits.twoPow size.toNat

section

variable {size : Int} {strict : Bool} {labels : LabelTable} {token : Text} {n v : Int}

theorem low_eq_iff_signedReading (hsize : 1 ≤ size) (hleast : -Bits.twoPow (size - 1).toNat ≤ n)
    (hgreatest : n ≤ signedGreatest size strict) :
    Bits.low size.toNat n = v ↔ SignedReading size strict n v := by
  have hhalf := Bits.twoPow_eq_two_mul hsize
  have hpos := Bits.twoPow_pos (size - 1).toNat
  have hlt : signedGreatest size strict < Bits.twoPow size.toNat := by
    unfold signedGreatest
    split <;> omega
  rw [Bits.low_eq_iff hsize hleast (Int.lt_of_le_of_lt hgreatest hlt)]
  constructor
  · intro ⟨hnonneg, hfits, hturn⟩
    exact ⟨hleast, hgreatest, hnonneg, hfits, hturn⟩
  · intro h
    exact ⟨h.nonneg, h.fits, h.turn⟩

/-- A signed field takes the literals between its bounds. -/
theorem takes_signed_iff (hsize : 1 ≤ size) :
    (signed size strict).Takes labels token n v ↔
      Literal.read token = .ok (some n) ∧ SignedReading size strict n v := by
  constructor
  · intro ⟨hcheck, hdenotes, hencode⟩
    obtain ⟨m, hread, hleast, hgreatest⟩ := (check_signed_iff hsize).mp hcheck
    obtain rfl := (Literal.denotes_iff_of_read hread).mp hdenotes
    rw [encode_signed hsize strict hread] at hencode
    have hlow := Option.some.inj (Except.ok.inj hencode)
    exact ⟨hread, (low_eq_iff_signedReading hsize hleast hgreatest).mp hlow⟩
  · intro ⟨hread, hreading⟩
    have hlow := (low_eq_iff_signedReading hsize hreading.least hreading.greatest).mpr hreading
    refine ⟨?_, (Literal.denotes_iff_of_read hread).mpr rfl, ?_⟩
    · exact (check_signed_iff hsize).mpr ⟨n, hread, hreading.least, hreading.greatest⟩
    · rw [encode_signed hsize strict hread, hlow]

/-- What passes denotes a number and is encoded. -/
theorem exists_takes_signed (hsize : 1 ≤ size)
    (hcheck : (signed size strict).check labels token = .ok none) :
    ∃ n v, (signed size strict).Takes labels token n v := by
  obtain ⟨n, hread, hleast, hgreatest⟩ := (check_signed_iff hsize).mp hcheck
  refine ⟨n, Bits.low size.toNat n, (takes_signed_iff hsize).mpr ⟨hread, ?_⟩⟩
  exact (low_eq_iff_signedReading hsize hleast hgreatest).mp rfl

/-- Every number between the bounds is denoted by some token: hexadecimal literals have no limit. -/
theorem mem_readings_signed_iff (hsize : 1 ≤ size) :
    n ∈ (signed size strict).readings labels v ↔ SignedReading size strict n v := by
  constructor
  · intro ⟨token, htakes⟩
    exact ((takes_signed_iff hsize).mp htakes).2
  · intro hreading
    have hread : Literal.read (Literal.written false ['0', 'x'] 16 0 n) = .ok (some n) :=
      Literal.read_written false (.hexadecimal (Or.inl rfl)) 0 n (by simp)
    exact ⟨_, (takes_signed_iff hsize).mpr ⟨hread, hreading⟩⟩

/-- Within the bounds of the strict form the sign bit of the value is the sign of the number. -/
theorem SignedReading.toInt_eq (hsize : 1 ≤ size) (h : SignedReading size true n v) :
    (BitVec.ofInt size.toNat v).toInt = n := by
  have hhalf := Bits.twoPow_eq_two_mul hsize
  have hleast := h.least
  have hgreatest : n ≤ Bits.twoPow (size - 1).toNat - 1 := h.greatest
  have hnonneg := h.nonneg
  have hfits := h.fits
  rw [Bits.toInt_ofInt_of_fits hsize hnonneg hfits]
  rcases h.turn with hturn | hturn
  · rw [if_pos (by omega), hturn]
  · rw [if_neg (by omega), hturn]

/-- Numbers of the same value are the same or lie a whole turn apart. -/
theorem SignedReading.eq_iff {n' v' : Int} (h : SignedReading size strict n v)
    (h' : SignedReading size strict n' v') :
    v = v' ↔ n = n' ∨ n = n' + Bits.twoPow size.toNat ∨ n' = n + Bits.twoPow size.toNat := by
  obtain ⟨_, _, hnonneg, hfits, hturn⟩ := h
  obtain ⟨_, _, hnonneg', hfits', hturn'⟩ := h'
  omega

theorem SignedReading.eq_iff_of_strict {n' v' : Int} (hsize : 1 ≤ size)
    (h : SignedReading size true n v) (h' : SignedReading size true n' v') : v = v' ↔ n = n' := by
  constructor
  · intro hv
    rw [← h.toInt_eq hsize, ← h'.toInt_eq hsize, hv]
  · intro hn
    exact (h.eq_iff h').mpr (Or.inl hn)

/-- A value without the highest bit has one reading. -/
theorem readings_of_lt_half (hsize : 1 ≤ size) (hnonneg : 0 ≤ v)
    (hlt : v < Bits.twoPow (size - 1).toNat) : (signed size false).readings labels v = {v} := by
  have hhalf := Bits.twoPow_eq_two_mul hsize
  ext n
  rw [mem_readings_signed_iff hsize, Set.mem_singleton_iff]
  constructor
  · intro h
    have hleast := h.least
    have hturn := h.turn
    omega
  · intro hn
    have hgreatest : n ≤ Bits.twoPow size.toNat - 1 := by omega
    exact ⟨by omega, hgreatest, hnonneg, by omega, Or.inl hn⟩

/-- A value with the highest bit has two readings, one of each sign. -/
theorem readings_of_half_le (hsize : 1 ≤ size) (hle : Bits.twoPow (size - 1).toNat ≤ v)
    (hfits : v < Bits.twoPow size.toNat) :
    (signed size false).readings labels v = {v, v - Bits.twoPow size.toNat} := by
  have hhalf := Bits.twoPow_eq_two_mul hsize
  have hpos := Bits.twoPow_pos (size - 1).toNat
  ext n
  rw [mem_readings_signed_iff hsize, Set.mem_insert_iff, Set.mem_singleton_iff]
  constructor
  · intro h
    exact h.turn
  · intro hturn
    have hgreatest : n ≤ Bits.twoPow size.toNat - 1 := by omega
    exact ⟨by omega, hgreatest, by omega, hfits, hturn⟩

end

/-- What a signed field of any width keeps of the numbers that it takes. In the strict form a number
is read back from its value by the sign bit, so that different numbers have different values. In
the other form the numbers of one value lie a whole turn apart: a value without the sign bit is that
of one number, and a value with it is that of two. -/
theorem signed_readings {size : Int} (hsize : 1 ≤ size) :
    (∀ strict labels token, (signed size strict).check labels token = .ok none →
      ∃ n v, (signed size strict).Takes labels token n v) ∧
    (∀ labels token n v, (signed size true).Takes labels token n v →
      (BitVec.ofInt size.toNat v).toInt = n ∧
      ∀ labels' token' n' v', (signed size true).Takes labels' token' n' v' →
        (v = v' ↔ n = n')) ∧
    (∀ labels token n v, (signed size false).Takes labels token n v →
      ∀ labels' token' n' v', (signed size false).Takes labels' token' n' v' →
        (v = v' ↔
          n = n' ∨ n = n' + Bits.twoPow size.toNat ∨ n' = n + Bits.twoPow size.toNat)) ∧
    ∀ labels v,
      (0 ≤ v → v < Bits.twoPow (size - 1).toNat →
        (signed size false).readings labels v = {v}) ∧
      (Bits.twoPow (size - 1).toNat ≤ v → v < Bits.twoPow size.toNat →
        (signed size false).readings labels v = {v, v - Bits.twoPow size.toNat} ∧
          ((signed size false).readings labels v).ncard = 2) := by
  refine ⟨fun _ _ _ => exists_takes_signed hsize, ?_, ?_, ?_⟩
  · intro labels token n v htakes
    have hreading := ((takes_signed_iff hsize).mp htakes).2
    refine ⟨hreading.toInt_eq hsize, ?_⟩
    intro labels' token' n' v' htakes'
    exact hreading.eq_iff_of_strict hsize ((takes_signed_iff hsize).mp htakes').2
  · intro labels token n v htakes labels' token' n' v' htakes'
    exact ((takes_signed_iff hsize).mp htakes).2.eq_iff ((takes_signed_iff hsize).mp htakes').2
  · intro labels v
    refine ⟨readings_of_lt_half hsize, ?_⟩
    intro hle hfits
    have hne : v ≠ v - Bits.twoPow size.toNat := by
      have hpos := Bits.twoPow_pos size.toNat
      omega
    rw [readings_of_half_le hsize hle hfits]
    exact ⟨rfl, Set.ncard_pair hne⟩

/-- With a single bit, zero is read one way and one is read in two. -/
theorem signed_readings_one :
    (1 : Int) ≤ 1 ∧ (signed 1 false).readings [] 0 = {0} ∧
      (signed 1 false).readings [] 1 = {1, -1} := by
  have hsize : (1 : Int) ≤ 1 := Int.le_refl 1
  obtain ⟨_, _, _, hreadings⟩ := signed_readings hsize
  exact ⟨hsize, (hreadings [] 0).1 (by decide) (by decide),
    ((hreadings [] 1).2 (by decide) (by decide)).1⟩

end Field

end Rsc
