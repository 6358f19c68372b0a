import Mathlib.Algebra.BigOperators.Ring.Finset
import Rsc.Proofs.Packing
import Rsc.Rom.Grid

/-!
# Addresses and their parts

An address is cut into parts of given widths. Put side by side again, the parts are the address as
far as the widths go, and parts that fit their widths are what the number they make is cut into.
So for every list of widths, parts that fit and addresses below two to the sum of the widths
belong to each other one to one.
-/

namespace Rsc.Rom

/-- Puts parts of the given widths below a number, each below the one before it. -/
def appendParts (above : Int) : List Nat → List Int → Int
  | size :: sizes, part :: parts => appendParts (above * Bits.twoPow size + part) sizes parts
  | _, _ => above

/-- The number that parts of the given widths make side by side, the first part highest. -/
def joinParts (sizes parts : List Int) : Int := appendParts 0 (sizes.map Int.toNat) parts

/-- The part has no more bits than its width. -/
def PartFits (size part : Int) : Prop := 0 ≤ part ∧ part < Bits.twoPow size.toNat

/-! ## From an address to its parts -/

theorem addressParts_cons (address : Int) (size : Nat) (sizes : List Nat) :
    addressParts address (size :: sizes) =
      Bits.low size (Bits.shiftRight address sizes.sum) :: addressParts address sizes := rfl

/-- Every part fits its size. -/
theorem partFits_addressParts (address : Int) (sizes : List Nat) :
    List.Forall₂ (fun (size : Nat) part => PartFits size part) sizes
      (addressParts address sizes) := by
  induction sizes with
  | nil => exact .nil
  | cons size sizes ih => exact .cons ⟨Bits.low_nonneg _ _, Bits.low_lt_twoPow _ _⟩ ih

/-- The parts of an address put below a number take up the widths together, and are the low bits of
the address there. -/
theorem appendParts_addressParts (above address : Int) (sizes : List Nat) :
    appendParts above sizes (addressParts address sizes) =
      above * Bits.twoPow sizes.sum + Bits.low sizes.sum address := by
  induction sizes generalizing above with
  | nil =>
      have hnone : Bits.low 0 address = 0 := by
        rw [Bits.low_eq_emod]
        exact Int.emod_one address
      rw [List.sum_nil, hnone, Int.add_zero]
      exact (Int.mul_one above).symm
  | cons size sizes ih =>
      rw [addressParts_cons, appendParts, ih, List.sum_cons, Bits.low_add, Bits.twoPow_add]
      ring

/-! ## From parts to the address -/

section

variable {sizes : List Nat} {parts : List Int}
  (hfits : List.Forall₂ (fun (size : Nat) part => PartFits size part) sizes parts)

include hfits

/-- What parts that fit were put below is left of them when their bits are dropped. -/
theorem shiftRight_appendParts (above : Int) :
    Bits.shiftRight (appendParts above sizes parts) sizes.sum = above := by
  induction hfits generalizing above with
  | nil => exact Bits.shiftRight_zero above
  | @cons size part sizes parts hpart _ ih =>
      rw [appendParts, List.sum_cons, Nat.add_comm, ← Bits.shiftRight_shiftRight, ih,
        Bits.shiftRight_eq_div]
      exact ediv_code_add above hpart.1 hpart.2

/-- Parts that fit are cut out again, whatever stands above them. -/
theorem addressParts_appendParts (above : Int) :
    addressParts (appendParts above sizes parts) sizes = parts := by
  induction hfits generalizing above with
  | nil => rfl
  | @cons size part sizes parts hpart hrest ih =>
      have hlow : Bits.low size (above * Bits.twoPow size + part) = part := by
        rw [Bits.low_eq_emod, Int.add_comm, Int.add_mul_emod_self_right]
        exact Int.emod_eq_of_lt hpart.1 hpart.2
      rw [appendParts, addressParts_cons, shiftRight_appendParts hrest, hlow, ih]

end

/-! ## Widths that may be out of range -/

theorem splitAddress_natCast (address : Int) (sizes : List Nat) :
    splitAddress address (sizes.map fun (size : Nat) => (size : Int)) =
      .ok (addressParts address sizes) := by
  have hwidths : (sizes.map fun (size : Nat) => (size : Int)).mapM Bits.width = .ok sizes := by
    rw [mapM_eq_ok_iff, List.forall₂_map_left_iff, List.forall₂_same]
    exact fun size _ => Bits.width_natCast size
  rw [splitAddress, hwidths]
  rfl

theorem splitAddress_of_neg {sizes : List Int} (h : ∃ size ∈ sizes, size < 0) (address : Int) :
    splitAddress address sizes = .error .negativeShift := by
  obtain ⟨size, hmem, hneg⟩ := h
  have hfault : sizes.mapM Bits.width = .error .negativeShift := by
    rcases Reaches.all_or_stops (fun size => ∃ n, Bits.width size = .ok n) sizes with
      hall | ⟨stop, hreach, hstop⟩
    · obtain ⟨n, hwidth⟩ := hall size hmem
      rw [Bits.width_of_neg hneg] at hwidth
      cases hwidth
    · refine mapM_eq_error_iff.mpr ⟨stop, hreach, Bits.width_of_neg ?_⟩
      by_contra hnonneg
      exact hstop ⟨_, Bits.width_of_nonneg (Int.not_lt.mp hnonneg)⟩
  rw [splitAddress, hfault]
  rfl

/-- An address is cut into one part for each width, which fit and make the address as far as the
widths go; parts that fit are what their number is cut into. A negative width is a fault. -/
theorem splitAddress_bijective (sizes : List Int) :
    ((∀ size ∈ sizes, 0 ≤ size) →
      (∀ address : Int, ∃ parts, splitAddress address sizes = .ok parts ∧
        List.Forall₂ PartFits sizes parts ∧
        joinParts sizes parts = address % Bits.twoPow sizes.sum.toNat) ∧
      ∀ parts, List.Forall₂ PartFits sizes parts →
        splitAddress (joinParts sizes parts) sizes = .ok parts) ∧
    ((∃ size ∈ sizes, size < 0) →
      ∀ address : Int, splitAddress address sizes = .error .negativeShift) := by
  refine ⟨?_, splitAddress_of_neg⟩
  intro hsizes
  lift sizes to List Nat using hsizes
  have hwidths : (sizes.map fun (size : Nat) => (size : Int)).map Int.toNat = sizes := by
    rw [List.map_map]
    exact List.map_id sizes
  have hsum : (sizes.map fun (size : Nat) => (size : Int)).sum.toNat = sizes.sum := by
    rw [← Nat.cast_list_sum, Int.toNat_natCast]
  simp only [joinParts, hwidths, hsum, splitAddress_natCast, List.forall₂_map_left_iff]
  constructor
  · intro address
    refine ⟨_, rfl, partFits_addressParts address sizes, ?_⟩
    rw [appendParts_addressParts, Int.zero_mul, Int.zero_add, Bits.low_eq_emod]
  · intro parts hfits
    rw [addressParts_appendParts hfits]

/-- The two's complement of a negative address around a part without bits. -/
theorem splitAddress_bijective_negative :
    splitAddress (-6) [2, 0, 3] = .ok [3, 0, 2] ∧
      joinParts [2, 0, 3] [3, 0, 2] = -6 % 32 ∧
      splitAddress (joinParts [2, 0, 3] [3, 0, 2]) [2, 0, 3] = .ok [3, 0, 2] ∧
      splitAddress (-6) [2, -1, 3] = .error .negativeShift := by
  have hsplit : splitAddress (-6) [2, 0, 3] = .ok [3, 0, 2] := by decide
  obtain ⟨hparts, hjoined⟩ := (splitAddress_bijective [2, 0, 3]).1 (by decide)
  obtain ⟨parts, hsplit', hfits, hjoin⟩ := hparts (-6)
  obtain rfl := Except.ok.inj (hsplit.symm.trans hsplit')
  refine ⟨hsplit, hjoin, hjoined _ hfits, ?_⟩
  exact (splitAddress_bijective [2, -1, 3]).2 ⟨-1, by decide, by decide⟩ (-6)

end Rsc.Rom
