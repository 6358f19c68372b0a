import Mathlib.Algebra.BigOperators.Intervals
import Mathlib.Data.Int.Bitwise
import Mathlib.Data.List.Nodup
import Rsc.Proofs.Instructions
import Rsc.Rom.Layout

/-!
# Where blocks stand

A layout has thirty-two blocks for each word, two for each bit, in order of address. The column of
an address is told by its place along x and z, and a block of a column by its height, so that no
two blocks stand in one place. Every block stands inside the bounding box. Reading the bits off
the repeaters gives back the words as far as sixteen bits go, whatever the order of the blocks.
-/

namespace Rsc

/-! ## Bits of integers -/

namespace Bits

/-- A bit is set where the word without the bits below is odd, in negative words too. -/
theorem testBit_iff (word : Int) (bit : Nat) :
    word.testBit bit = true ↔ word / twoPow bit % 2 = 1 := by
  cases word with
  | ofNat n =>
      change n.testBit bit = true ↔ ((n / Nat.pow 2 bit % 2 : Nat) : Int) = 1
      rw [Nat.testBit_eq_decide_div_mod_eq, decide_eq_true_iff]
      exact Int.ofNat_inj.symm
  | negSucc n =>
      have hdiv : Int.negSucc n / twoPow bit = -(((n / Nat.pow 2 bit : Nat) : Int) + 1) :=
        Int.negSucc_ediv n (twoPow_pos bit)
      change (!n.testBit bit) = true ↔ _
      rw [hdiv, Nat.testBit_eq_decide_div_mod_eq, Bool.not_eq_true', decide_eq_false_iff_not]
      change ¬ n / Nat.pow 2 bit % 2 = 1 ↔ _
      omega

theorem bit_eq_mul (word : Int) (bit : Nat) :
    (if word.testBit bit then twoPow bit else 0) = twoPow bit * (word / twoPow bit % 2) := by
  split
  next hset => rw [(testBit_iff word bit).mp hset, mul_one]
  next hclear =>
    have hzero : word / twoPow bit % 2 = 0 := by
      have hnot := mt (testBit_iff word bit).mpr hclear
      omega
    rw [hzero, mul_zero]

theorem low_succ (size : Nat) (word : Int) :
    low (size + 1) word = low size word + if word.testBit size then twoPow size else 0 := by
  have hbit : low 1 (shiftRight word size) = word / twoPow size % 2 := by
    rw [low_eq_emod, shiftRight_eq_div]
    rfl
  rw [bit_eq_mul, Nat.add_comm size 1, low_add, hbit]
  ring

/-- The low bits of a word are the sum of its bits. -/
theorem sum_bits (word : Int) (size : Nat) :
    ∑ bit ∈ Finset.range size, (if word.testBit bit then twoPow bit else 0) = low size word := by
  induction size with
  | zero => simp [low_eq_emod, twoPow]
  | succ size ih => rw [Finset.sum_range_succ, ih, low_succ]

end Bits

/-- In parts of one length, an index is the number of a part and an index in it. -/
theorem getElem?_flatMap_of_length {α β : Type} {f : α → List β} {n : Nat}
    (hlength : ∀ x, (f x).length = n) (xs : List α) (i : Nat) {j : Nat} (hj : j < n) :
    (xs.flatMap f)[n * i + j]? = xs[i]?.bind fun x => (f x)[j]? := by
  induction xs generalizing i with
  | nil => simp
  | cons x xs ih =>
      rw [List.flatMap_cons]
      cases i with
      | zero =>
          rw [Nat.mul_zero, Nat.zero_add, List.getElem?_append_left (by rw [hlength x]; exact hj)]
          rfl
      | succ i =>
          have hindex : n * (i + 1) + j = (f x).length + (n * i + j) := by
            rw [hlength x, Nat.mul_succ]
            omega
          rw [hindex, List.getElem?_append_right (Nat.le_add_right _ _), Nat.add_sub_cancel_left, ih]
          rfl

namespace Rom

/-! ## Columns -/

/-- The heights of the blocks of a word above the bottom of its column, in their order: each bit,
then its support. -/
def heights : List Int :=
  (List.range wordSize).flatMap fun (bit : Nat) => [2 * (bit : Int), 2 * (bit : Int) - 1]

theorem nodup_heights : heights.Nodup := by
  decide

theorem bounds_of_mem_heights : ∀ height ∈ heights, -1 ≤ height ∧ height ≤ 30 := by
  decide

/-- A bit that is set is a repeater, any other is wool. -/
theorem bitMaterial_eq (word : Int) (bit : Nat) :
    bitMaterial word bit = if word.testBit bit then .repeater else .wool := by
  have hbit : Bits.low 1 (Bits.shiftRight word bit) = 1 ↔ word.testBit bit = true := by
    rw [Bits.low_eq_emod, Bits.shiftRight_eq_div, Bits.testBit_iff]
    rfl
  simp only [bitMaterial, hbit]

theorem length_wordBlocks (bottom : Position) (word : Int) : (wordBlocks bottom word).length = 32 :=
  rfl

/-- The two blocks of a bit in the column of a word. -/
theorem getElem?_wordBlocks (bottom : Position) (word : Int) {bit : Nat} (hbit : bit < 16) :
    (wordBlocks bottom word)[2 * bit]? =
        some ⟨bottom.offset 0 (2 * bit) 0, if word.testBit bit then .repeater else .wool⟩ ∧
      (wordBlocks bottom word)[2 * bit + 1]? =
        some ⟨(bottom.offset 0 (2 * bit) 0).offset 0 (-1) 0, .wool⟩ := by
  have hlength : ∀ bit, (bitBlocks bottom word bit).length = 2 := fun _ => rfl
  have hrange : (List.range wordSize)[bit]? = some bit := List.getElem?_range hbit
  rw [← bitMaterial_eq]
  constructor
  · have hfirst := getElem?_flatMap_of_length hlength (List.range wordSize) bit (j := 0) (by omega)
    rw [hrange] at hfirst
    exact hfirst
  · have hsecond := getElem?_flatMap_of_length hlength (List.range wordSize) bit (j := 1) (by omega)
    rw [hrange] at hsecond
    exact hsecond

theorem positions_wordBlocks (bottom : Position) (word : Int) :
    (wordBlocks bottom word).map Block.position =
      heights.map fun height => bottom.offset 0 height 0 := by
  simp only [wordBlocks, heights, List.map_flatMap]
  congr 1
  funext bit
  simp [bitBlocks, Position.offset, sub_eq_add_neg, add_assoc]

/-! ## Addresses -/

theorem addressPosition_natCast (address : Nat) :
    addressPosition address =
      ⟨if address / 16 % 2 = 0 then (address / 32 % 32 : Nat) * 2 + 4
        else -((address / 32 % 32 : Nat) * 2 + 4 : Int), 0, (address % 16 : Nat) * 6⟩ := by
  have hside : Bits.low 1 (Bits.shiftRight address 4) = (address / 16 % 2 : Nat) := by
    rw [Bits.low_eq_emod, Bits.shiftRight_eq_div]
    rfl
  have hcolumn : Bits.low 5 (Bits.shiftRight address 5) = (address / 32 % 32 : Nat) := by
    rw [Bits.low_eq_emod, Bits.shiftRight_eq_div]
    rfl
  have hrow : Bits.low 4 (address : Int) = (address % 16 : Nat) := by
    rw [Bits.low_eq_emod]
    rfl
  simp only [addressPosition, wordPosition, hside, hcolumn, hrow, Int.natCast_eq_zero]

/-- The place of a column tells its address. -/
theorem address_unique {first second : Nat} (hfirst : first < 1024) (hsecond : second < 1024)
    (hx : (addressPosition first).x = (addressPosition second).x)
    (hz : (addressPosition first).z = (addressPosition second).z) : first = second := by
  simp only [addressPosition_natCast] at hx hz
  split at hx <;> split at hx <;> omega

/-- The bottom of a column, by the parts that an address splits into. -/
theorem addressParts_position (address : Nat) :
    ∃ column side row, addressParts address addressStructure = [column, side, row] ∧
      wordPosition column side row = addressPosition address := by
  refine ⟨_, _, _, rfl, ?_⟩
  simp only [addressPosition, List.sum_nil, Bits.shiftRight_zero]
  rfl

/-! ## Blocks of a program -/

/-- The blocks of all words in order of address. -/
def programBlocks (words : List Int) : List Block :=
  words.zipIdx.flatMap fun (word, address) => wordBlocks (addressPosition address) word

/-- As many words as there are addresses have a layout. -/
theorem layout_of_le {words : List Int} (h : words.length ≤ 1024) :
    layout words = .ok { count := words.length, blocks := programBlocks words } := by
  have hfits : ¬ capacity < words.length := Nat.not_lt.mpr h
  simp only [layout, if_neg hfits, programBlocks]

theorem layout_of_lt {words : List Int} (h : 1024 < words.length) :
    layout words = .error ⟨.tooManyWords words.length 1024, 0, []⟩ := by
  have hfits : capacity < words.length := h
  simp only [layout, if_pos hfits]
  rfl

theorem length_programBlocks (words : List Int) :
    (programBlocks words).length = 32 * words.length := by
  simp [programBlocks, List.length_flatMap, length_wordBlocks, Nat.mul_comm]

/-- The two blocks of a bit in the column of its address. -/
theorem getElem?_programBlocks {words : List Int} {address : Nat} {word : Int}
    (hword : words[address]? = some word) {bit : Nat} (hbit : bit < 16) :
    (programBlocks words)[32 * address + 2 * bit]? =
        some ⟨(addressPosition address).offset 0 (2 * bit) 0,
          if word.testBit bit then .repeater else .wool⟩ ∧
      (programBlocks words)[32 * address + 2 * bit + 1]? =
        some ⟨((addressPosition address).offset 0 (2 * bit) 0).offset 0 (-1) 0, .wool⟩ := by
  have hindex : ∀ index < 32, (programBlocks words)[32 * address + index]? =
      (wordBlocks (addressPosition address) word)[index]? := by
    intro index hindex
    have hitem : words.zipIdx[address]? = some (word, address) := by
      simp [List.getElem?_zipIdx, hword]
    rw [programBlocks, getElem?_flatMap_of_length (fun _ => length_wordBlocks _ _) _ _ hindex,
      hitem]
    rfl
  rw [Nat.add_assoc, hindex _ (by omega), hindex _ (by omega)]
  exact getElem?_wordBlocks _ word hbit

/-- Positions do not depend on the words. -/
theorem positions_programBlocks (words : List Int) :
    (programBlocks words).map Block.position =
      (List.range words.length).flatMap fun (address : Nat) =>
        heights.map fun height => (addressPosition address).offset 0 height 0 := by
  have hrange : List.range words.length = words.zipIdx.map Prod.snd := by
    rw [List.zipIdx_map_snd, List.range_eq_range']
  rw [hrange, List.flatMap_map, programBlocks, List.map_flatMap]
  congr 1
  funext item
  exact positions_wordBlocks _ _

/-- No two blocks stand in the same place. -/
theorem nodup_positions {words : List Int} (h : words.length ≤ 1024) :
    ((programBlocks words).map Block.position).Nodup := by
  rw [positions_programBlocks, List.nodup_flatMap]
  constructor
  · intro address _
    apply nodup_heights.map
    intro first second hsame
    simpa [Position.offset] using hsame
  · -- blocks of two columns differ along x or z, whatever their heights
    apply List.nodup_range.imp_of_mem
    intro first second hfirst hsecond hne position hposition hposition'
    rcases List.mem_map.mp hposition with ⟨height, _, rfl⟩
    rcases List.mem_map.mp hposition' with ⟨height', _, hsame⟩
    simp only [Position.offset, Position.mk.injEq, add_zero] at hsame
    rw [List.mem_range] at hfirst hsecond
    exact hne (address_unique (by omega) (by omega) hsame.1.symm hsame.2.2.symm)

/-- A place in the bounding box. -/
structure Inside (p : Position) : Prop where
  x : 0 ≤ p.x - corner.x ∧ p.x - corner.x < area.x
  y : 0 ≤ p.y - corner.y ∧ p.y - corner.y < area.y
  z : 0 ≤ p.z - corner.z ∧ p.z - corner.z < area.z

theorem inside_of_height (address : Nat) {height : Int} (hheight : height ∈ heights) :
    Inside ((addressPosition address).offset 0 height 0) := by
  rcases bounds_of_mem_heights height hheight with ⟨hleast, hgreatest⟩
  rw [addressPosition_natCast]
  constructor
  · simp only [Position.offset, corner, area]
    split <;> omega
  · simp only [Position.offset, corner, area]
    omega
  · simp only [Position.offset, corner, area]
    omega

theorem exists_height_of_mem {words : List Int} {block : Block} (h : block ∈ programBlocks words) :
    ∃ address < words.length, ∃ height ∈ heights,
      block.position = (addressPosition address).offset 0 height 0 := by
  have hposition : block.position ∈ (programBlocks words).map Block.position :=
    List.mem_map_of_mem h
  rw [positions_programBlocks] at hposition
  rcases List.mem_flatMap.mp hposition with ⟨address, haddress, hheight⟩
  rcases List.mem_map.mp hheight with ⟨height, hmem, hsame⟩
  exact ⟨address, List.mem_range.mp haddress, height, hmem, hsame.symm⟩

/-! ## Reading words off the blocks -/

/-- The word in the column of an address: the bits whose blocks are repeaters. -/
def readWord (blocks : List Block) (address : Nat) : Int :=
  ∑ bit ∈ Finset.range wordSize,
    if ⟨(addressPosition address).offset 0 (2 * bit) 0, .repeater⟩ ∈ blocks then Bits.twoPow bit
    else 0

/-- The words of all columns that stand. -/
def readWords (blocks : List Block) : List Int :=
  ((List.range capacity).filter fun (address : Nat) =>
    blocks.any fun block => block.position == addressPosition address).map (readWord blocks)

theorem stands_iff {words : List Int} (h : words.length ≤ 1024) {address : Nat}
    (haddress : address < 1024) :
    ((programBlocks words).any fun block => block.position == addressPosition address) = true ↔
      address < words.length := by
  simp only [List.any_eq_true, beq_iff_eq]
  constructor
  · rintro ⟨block, hblock, hposition⟩
    rcases exists_height_of_mem hblock with ⟨address', haddress', height, _, hplace⟩
    rw [hposition] at hplace
    have hsame : address = address' :=
      address_unique haddress (Nat.lt_of_lt_of_le haddress' h)
        ((congrArg Position.x hplace).trans (add_zero _))
        ((congrArg Position.z hplace).trans (add_zero _))
    rw [hsame]
    exact haddress'
  · intro hlt
    have hbottom := (getElem?_programBlocks (List.getElem?_eq_getElem hlt)
      (show 0 < 16 by decide)).1
    exact ⟨_, List.mem_of_getElem? hbottom, by simp [Position.offset]⟩

/-- The block of a bit is a repeater if the bit is one. -/
theorem repeater_mem_iff {words : List Int} (h : words.length ≤ 1024) {address : Nat} {word : Int}
    (hword : words[address]? = some word) {bit : Nat} (hbit : bit < 16) :
    ⟨(addressPosition address).offset 0 (2 * bit) 0, .repeater⟩ ∈ programBlocks words ↔
      word.testBit bit = true := by
  have hmem := List.mem_of_getElem? (getElem?_programBlocks hword hbit).1
  constructor
  · intro hrepeater
    have hsame := List.inj_on_of_nodup_map (nodup_positions h) hrepeater hmem rfl
    by_contra hclear
    simp [hclear] at hsame
  · intro hset
    simpa [hset] using hmem

theorem readWord_programBlocks {words : List Int} (h : words.length ≤ 1024) {address : Nat}
    {word : Int} (hword : words[address]? = some word) :
    readWord (programBlocks words) address = Bits.low wordSize word := by
  rw [readWord, ← Bits.sum_bits]
  apply Finset.sum_congr rfl
  intro bit hbit
  simp only [repeater_mem_iff h hword (Finset.mem_range.mp hbit)]

theorem filter_range_lt {n m : Nat} (h : n ≤ m) {p : Nat → Bool}
    (hp : ∀ i < m, p i = true ↔ i < n) : (List.range m).filter p = List.range n := by
  rw [← Nat.add_sub_cancel' h, List.range_add, List.filter_append, List.filter_eq_self.mpr,
    List.filter_eq_nil_iff.mpr, List.append_nil]
  · intro i hi
    rcases List.mem_map.mp hi with ⟨j, hj, rfl⟩
    rw [List.mem_range] at hj
    rw [hp _ (by omega)]
    omega
  · intro i hi
    rw [List.mem_range] at hi
    exact (hp i (by omega)).mpr hi

/-- The words are read off the blocks, up to their low sixteen bits. -/
theorem readWords_programBlocks {words : List Int} (h : words.length ≤ 1024) :
    readWords (programBlocks words) = words.map (Bits.low wordSize) := by
  have hstanding : (List.range capacity).filter _ = List.range words.length :=
    filter_range_lt h fun address haddress => stands_iff h haddress
  rw [readWords, hstanding]
  apply List.ext_getElem
  · simp
  · intro address hstands hlt
    rw [List.length_map] at hlt
    rw [List.getElem_map, List.getElem_map, List.getElem_range]
    exact readWord_programBlocks h (List.getElem?_eq_getElem hlt)

/-- Reading looks at which blocks there are, not at their order or number. -/
theorem readWords_congr {blocks blocks' : List Block} (h : ∀ block, block ∈ blocks' ↔ block ∈ blocks) :
    readWords blocks' = readWords blocks := by
  have hstands : ∀ address : Nat,
      (blocks'.any fun block => block.position == addressPosition address) =
        blocks.any fun block => block.position == addressPosition address := by
    intro address
    rw [Bool.eq_iff_iff, List.any_eq_true, List.any_eq_true]
    simp only [h]
  have hword : readWord blocks' = readWord blocks := by
    funext address
    simp only [readWord, h]
  simp only [readWords, hstands, hword]

/-! ## Layouts -/

/-- The blocks show the words: two blocks for each of sixteen bits, in order of address and from
the lowest bit up, a repeater for a one and wool for a zero on top of a support; each in a place
of its own inside the bounding box. The words are read off the set of blocks. -/
structure Shows (words : List Int) (blocks : List Block) : Prop where
  length_eq : blocks.length = 32 * words.length
  bits : ∀ (address : Nat) (word : Int), words[address]? = some word →
    ∃ column side row, addressParts address addressStructure = [column, side, row] ∧
      ∀ bit < 16,
        blocks[32 * address + 2 * bit]? =
            some ⟨(wordPosition column side row).offset 0 (2 * bit) 0,
              if word.testBit bit then .repeater else .wool⟩ ∧
          blocks[32 * address + 2 * bit + 1]? =
            some ⟨((wordPosition column side row).offset 0 (2 * bit) 0).offset 0 (-1) 0, .wool⟩
  distinct : (blocks.map Block.position).Nodup
  inside : ∀ block ∈ blocks, Inside block.position
  readable : ∀ blocks', (∀ block, block ∈ blocks' ↔ block ∈ blocks) →
    readWords blocks' = words.map (Bits.low wordSize)

theorem shows_programBlocks {words : List Int} (h : words.length ≤ 1024) :
    Shows words (programBlocks words) where
  length_eq := length_programBlocks words
  bits := by
    intro address word hword
    rcases addressParts_position address with ⟨column, side, row, hparts, hposition⟩
    refine ⟨column, side, row, hparts, ?_⟩
    intro bit hbit
    rw [hposition]
    exact getElem?_programBlocks hword hbit
  distinct := nodup_positions h
  inside := by
    intro block hblock
    rcases exists_height_of_mem hblock with ⟨address, _, height, hheight, hposition⟩
    rw [hposition]
    exact inside_of_height address hheight
  readable := by
    intro blocks' hsame
    rw [readWords_congr hsame, readWords_programBlocks h]

/-- As many words as there are addresses are laid out and can be read off their blocks; more are
refused. -/
theorem layout_shows (words : List Int) :
    (words.length ≤ 1024 → ∃ blocks,
      layout words = .ok { count := words.length, blocks := blocks } ∧ Shows words blocks) ∧
      (1024 < words.length →
        layout words = .error ⟨.tooManyWords words.length 1024, 0, []⟩) := by
  constructor
  · intro h
    exact ⟨programBlocks words, layout_of_le h, shows_programBlocks h⟩
  · intro h
    exact layout_of_lt h

end Rom

end Rsc
