import Rsc.Diagnostic
import Rsc.Rom.Grid

/-!
# ROM layouts

A program as a list of blocks to place, two for every bit of every word.
-/

namespace Rsc.Rom

/-- What a block is made of. -/
inductive Material where
  /-- Wool, for a zero bit and for supports. -/
  | wool
  /-- A repeater, for a one bit. -/
  | repeater
  deriving DecidableEq, Repr

/-- The name of a material in block placements. -/
def Material.name : Material → Text
  | wool => "minecraft:magenta_wool".toList
  | repeater => "minecraft:repeater[facing=north,locked=false,powered=false]".toList

/-- A block and its place. -/
structure Block where
  position : Position
  material : Material
  deriving DecidableEq, Repr

/-- The material of a bit. -/
def bitMaterial (word : Int) (bit : Nat) : Material :=
  if Bits.low 1 (Bits.shiftRight word bit) = 1 then .repeater else .wool

/-- The two blocks of one bit: the bit itself, then its support. -/
def bitBlocks (bottom : Position) (word : Int) (bit : Nat) : List Block :=
  let place := bottom.offset 0 (2 * bit) 0
  [⟨place, bitMaterial word bit⟩, ⟨place.offset 0 (-1) 0, .wool⟩]

/-- The blocks of a word, from the lowest bit up. -/
def wordBlocks (bottom : Position) (word : Int) : List Block :=
  (List.range wordSize).flatMap (bitBlocks bottom word)

/-- The number of blocks of a word. -/
def blocksPerWord : Nat := 2 * wordSize

/-- The blocks of a program. -/
structure Layout where
  area : Position := Rom.area
  offset : Position := Rom.placement
  count : Nat := 0
  blocks : List Block := []
  deriving DecidableEq, Repr

/-- Lays out the words, if the grid holds as many. -/
def layout (words : List Int) : Except Diagnostic Layout :=
  if capacity < words.length then
    .error ⟨.tooManyWords words.length capacity, 0, []⟩
  else .ok {
    count := words.length
    blocks := words.zipIdx.flatMap fun (word, address) =>
      wordBlocks (addressPosition address) word }

end Rsc.Rom
