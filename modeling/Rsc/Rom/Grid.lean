import Rsc.Instruction

/-!
# The ROM grid

The place of a word in the block ROM. An address has three parts, the highest bits first: five
bits choose a column along x, one bit its side, four bits a row along z. A word stands upright,
its lowest bit at the bottom; each bit has a block of its own on top of a supporting block.
-/

namespace Rsc.Rom

/-- A place in the block grid. -/
structure Position where
  x : Int
  y : Int
  z : Int
  deriving DecidableEq, Repr

/-- A place moved by the given distances. -/
def Position.offset (p : Position) (dx dy dz : Int) : Position := ⟨p.x + dx, p.y + dy, p.z + dz⟩

/-- The widths of the parts of an address: column, side and row. -/
def addressStructure : List Nat := [5, 1, 4]

/-- The parts of an address that have the given widths, the highest part first. The last part
takes the lowest bits. -/
def addressParts (address : Int) : List Nat → List Int
  | [] => []
  | size :: rest => Bits.low size (Bits.shiftRight address rest.sum) :: addressParts address rest

/-- Splits an address into parts of widths that may be out of range. -/
def splitAddress (address : Int) (sizes : List Int) : Except Fault (List Int) := do
  return addressParts address (← sizes.mapM Bits.width)

/-- The bottom of the column that holds a word. Side 0 lies towards positive x, any other side
towards negative x. -/
def wordPosition (column side row : Int) : Position :=
  let x := column * 2 + 4
  ⟨if side = 0 then x else -x, 0, row * 6⟩

/-- The bottom of the word at an address, by the parts of the address. -/
def addressPosition (address : Int) : Position :=
  wordPosition (Bits.low 5 (Bits.shiftRight address 5)) (Bits.low 1 (Bits.shiftRight address 4))
    (Bits.low 4 address)

/-- The number of words that the grid holds. -/
def capacity : Nat := 1024

/-- The extent of the grid. -/
def area : Position := ⟨133, 32, 91⟩

/-- The corner of the grid's bounding box. -/
def corner : Position := ⟨-66, -1, 0⟩

/-- Where the grid is placed: its corner, brought down to the ROM. -/
def placement : Position := corner.offset 0 (-32) 2

end Rsc.Rom
