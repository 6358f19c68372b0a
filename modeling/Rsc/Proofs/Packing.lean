import Mathlib.Algebra.BigOperators.Intervals
import Rsc.Proofs.Instructions

/-!
# Packed fields

What a base instruction with any opcode and any fields makes of operands that pass their check.
Fields that take an operand take them in order, and each value lies in the word with as many bits
below it as the fields after it and the unused rest take up. The fields have to fit below the
opcode; where they do not, moving the code up by the room that is left breaks down.
-/

namespace Rsc

/-- The room for fields below the opcode. -/
def fieldRoom : Nat := wordSize - opcodeSize

/-- The operand of the field at an index: the fields before it have taken theirs. -/
def operandAt (fields : List Field) (operands : List Text) (index : Nat) : Option Text :=
  operands[(fields.take index).countP Field.takesOperand]?

/-- The number of bits that lie below the field at an index. -/
def bitsBelow (fields : List Field) (room index : Nat) : Nat :=
  room - totalWidth (fields.take (index + 1))

/-- The field at an index makes the value of its operand, or is zero if it takes none. -/
def FieldHolds (labels : LabelTable) (fields : List Field) (operands : List Text) (index : Nat)
    (field : Field) (v : Int) : Prop :=
  if field.takesOperand then
    ∃ token, operandAt fields operands index = some token ∧
      field.encode labels token = .ok (some v)
  else v = 0

/-! ## Widths -/

theorem sum_size_eq_totalWidth {fields : List Field}
    (hsizes : ∀ field ∈ fields, field.WellSized) :
    (fields.map Field.size).sum = (totalWidth fields : Int) := by
  induction fields with
  | nil => rfl
  | cons field fields ih =>
      rcases List.forall_mem_cons.mp hsizes with ⟨hsize, hsizes⟩
      have hnonneg := Field.size_nonneg hsize
      rw [List.map_cons, List.sum_cons, totalWidth_cons, ih hsizes]
      omega

@[simp] theorem bitsBelow_zero (field : Field) (fields : List Field) (room : Nat) :
    bitsBelow (field :: fields) room 0 = room - field.size.toNat := by
  simp [bitsBelow, totalWidth]

@[simp] theorem bitsBelow_succ (field : Field) (fields : List Field) (room index : Nat) :
    bitsBelow (field :: fields) room (index + 1) =
      bitsBelow fields (room - field.size.toNat) index := by
  simp only [bitsBelow, List.take_succ_cons, totalWidth_cons]
  omega

/-- Reading bits at a place is division there and the remainder of the width. -/
theorem Bits.read_of_nonneg {size : Int} (hsize : 0 ≤ size) (value : Int) (offset : Nat) :
    read value size offset = .ok (value / twoPow offset % twoPow size.toNat) := by
  simp only [read, width_natCast, width_of_nonneg hsize, bind, Except.bind, pure, Except.pure, low_eq_emod,
    shiftRight_eq_div]

/-! ## Where values lie -/

theorem place_eq_sum {fields : List Field} {values : List Int}
    (hholds : List.Forall₂ Field.Holds fields values) (room : Nat) :
    place fields values room = ∑ index ∈ Finset.range fields.length,
      values.getD index 0 * Bits.twoPow (bitsBelow fields room index) := by
  induction hholds generalizing room with
  | nil => rfl
  | @cons field v fields values _ _ ih =>
      rw [List.length_cons, Finset.sum_range_succ', place, ih, add_comm]
      simp

/-- A value above the others is part of the code that they lie below. -/
theorem code_add_place {field : Field} {room : Nat} (hhere : field.size.toNat ≤ room) (code v : Int)
    (fields : List Field) (values : List Int) :
    code * Bits.twoPow room + place (field :: fields) (v :: values) room =
      (code * field.capacity + v) * Bits.twoPow (room - field.size.toNat) +
        place fields values (room - field.size.toNat) := by
  rw [place, Field.twoPow_eq_capacity_mul hhere]
  ring

theorem ediv_code_add {room : Nat} (code : Int) {rest : Int} (hleast : 0 ≤ rest)
    (hgreatest : rest < Bits.twoPow room) :
    (code * Bits.twoPow room + rest) / Bits.twoPow room = code := by
  have hunique : (code * Bits.twoPow room + rest) / Bits.twoPow room = code ∧
      (code * Bits.twoPow room + rest) % Bits.twoPow room = rest := by
    rw [Int.ediv_emod_unique (Bits.twoPow_pos room)]
    exact ⟨by ring, hleast, hgreatest⟩
  exact hunique.1

/-- Each value is read back at its place, whatever the code above the fields. -/
theorem read_place {fields : List Field} {values : List Int}
    (hholds : List.Forall₂ Field.Holds fields values) {room : Nat}
    (hroom : totalWidth fields ≤ room) (code : Int) {index : Nat} {field : Field}
    (hfield : fields[index]? = some field) :
    (code * Bits.twoPow room + place fields values room) /
        Bits.twoPow (bitsBelow fields room index) % field.capacity = values.getD index 0 := by
  induction hholds generalizing room code index with
  | nil => simp at hfield
  | @cons first v fields values hfirst hrest ih =>
      rw [totalWidth_cons] at hroom
      have hhere : first.size.toNat ≤ room := Nat.le_trans (Nat.le_add_right _ _) hroom
      have hthere : totalWidth fields ≤ room - first.size.toNat := Nat.le_sub_of_add_le' hroom
      rw [code_add_place hhere]
      cases index with
      | zero =>
          rcases place_bounds hrest hthere with ⟨hleast, hgreatest⟩
          simp only [List.getElem?_cons_zero, Option.some.injEq] at hfield
          subst field
          rw [bitsBelow_zero, ediv_code_add _ hleast hgreatest, Int.add_comm,
            Int.add_mul_emod_self_right, Int.emod_eq_of_lt hfirst.nonneg hfirst.fits]
          rfl
      | succ index =>
          rw [List.getElem?_cons_succ] at hfield
          rw [bitsBelow_succ, ih hthere _ hfield]
          rfl

/-- The bits below the last field are zero. -/
theorem twoPow_dvd_place {fields : List Field} {values : List Int}
    (hholds : List.Forall₂ Field.Holds fields values) {room : Nat}
    (hroom : totalWidth fields ≤ room) (code : Int) :
    Bits.twoPow (room - totalWidth fields) ∣
      code * Bits.twoPow room + place fields values room := by
  induction hholds generalizing room code with
  | nil => simp [place, totalWidth]
  | @cons field v fields values _ _ ih =>
      rw [totalWidth_cons] at hroom
      have hhere : field.size.toNat ≤ room := Nat.le_trans (Nat.le_add_right _ _) hroom
      rw [code_add_place hhere, totalWidth_cons, ← Nat.sub_sub]
      exact ih (Nat.le_sub_of_add_le' hroom) _

/-! ## Which operand a field takes -/

theorem Fills.fieldHolds {labels : LabelTable} {fields : List Field} {operands : List Text}
    {values : List Int} (h : Fills labels fields operands values) {index : Nat} {field : Field}
    (hfield : fields[index]? = some field) :
    FieldHolds labels fields operands index field (values.getD index 0) := by
  induction h generalizing index with
  | nil => simp at hfield
  | @operand first fields token operands v values htakes _ hvalue _ _ _ ih =>
      cases index with
      | zero =>
          simp only [List.getElem?_cons_zero, Option.some.injEq] at hfield
          subst field
          simp only [FieldHolds, htakes, if_true]
          exact ⟨token, rfl, Field.value_eq_ok_iff.mp hvalue⟩
      | succ index =>
          rw [List.getElem?_cons_succ] at hfield
          simpa [FieldHolds, operandAt, htakes] using ih hfield
  | @reserved first fields operands values htakes _ _ ih =>
      cases index with
      | zero =>
          simp only [List.getElem?_cons_zero, Option.some.injEq] at hfield
          subst field
          simp [FieldHolds, htakes]
      | succ index =>
          rw [List.getElem?_cons_succ] at hfield
          simpa [FieldHolds, operandAt, htakes] using ih hfield

/-! ## Fields that do not fit -/

/-- Filled fields that need more than the room end in a move by a negative amount. -/
theorem pack_of_overflow {labels : LabelTable} {fields : List Field} {operands : List Text}
    {values : List Int} (hfills : Fills labels fields operands values) (code : Int) {room : Int}
    (hroom : room < totalWidth fields) :
    pack labels fields operands code room = .error .negativeShift := by
  induction hfills generalizing code room with
  | nil =>
      simp only [totalWidth, List.map_nil, List.sum_nil, Nat.cast_zero] at hroom
      simp [pack, Bits.shiftLeft, Bits.width, hroom, bind, Except.bind]
  | operand htakes hsize hvalue _ _ _ ih =>
      have hnonneg := Field.size_nonneg hsize
      rw [totalWidth_cons] at hroom
      rw [pack_operand htakes hsize hvalue]
      exact ih _ (by omega)
  | reserved htakes hsize _ ih =>
      have hnonneg := Field.size_nonneg hsize
      rw [totalWidth_cons] at hroom
      rw [pack_reserved htakes hsize]
      exact ih _ (by omega)

/-! ## The packed word -/

namespace BaseInstruction

/-- A word of the instruction: its opcode above the values in its fields, each of which is read
back at its place, and zeros below the last field. -/
structure Packs (b : BaseInstruction) (value : Nat → Int) (word : Int) : Prop where
  word_eq : word = b.opcode * Bits.twoPow fieldRoom + ∑ index ∈ Finset.range b.fields.length,
    value index * Bits.twoPow (bitsBelow b.fields fieldRoom index)
  read : ∀ (index : Nat) (field : Field), b.fields[index]? = some field →
    Bits.read word field.size (bitsBelow b.fields fieldRoom index) = .ok (value index)
  rest : Bits.low (fieldRoom - totalWidth b.fields) word = 0
  opcode : Bits.shiftRight word fieldRoom = b.opcode

theorem packs_of_holds {b : BaseInstruction} (hsizes : ∀ field ∈ b.fields, field.WellSized)
    {values : List Int} (hholds : List.Forall₂ Field.Holds b.fields values)
    (hwidth : totalWidth b.fields ≤ fieldRoom) :
    b.Packs (fun index => values.getD index 0)
      (b.opcode * Bits.twoPow fieldRoom + place b.fields values fieldRoom) where
  word_eq := by rw [place_eq_sum hholds]
  read := by
    intro index field hfield
    have hsize := hsizes field (List.mem_of_getElem? hfield)
    have hread := read_place hholds hwidth b.opcode hfield
    rw [Bits.read_of_nonneg (Field.size_nonneg hsize)]
    exact congrArg Except.ok hread
  rest := by
    rw [Bits.low_eq_emod]
    exact Int.emod_eq_zero_of_dvd (twoPow_dvd_place hholds hwidth b.opcode)
  opcode := by
    rcases place_bounds hholds hwidth with ⟨hleast, hgreatest⟩
    rw [Bits.shiftRight_eq_div, ediv_code_add _ hleast hgreatest]

/-- Operands that pass their check are packed side by side below the opcode if the fields have
room there, each field with the value of its own operand; fields without room are a fault. -/
theorem encode_packs (b : BaseInstruction) (hsizes : ∀ field ∈ b.fields, field.WellSized)
    {labels : LabelTable} (hlabels : ∀ entry ∈ labels, 0 ≤ entry.2) {operands : List Text}
    (hcheck : (Instruction.base b).check labels operands = .ok none) :
    ((b.fields.map Field.size).sum ≤ fieldRoom →
      ∃ word value, b.encode labels operands = .ok word ∧ b.Packs value word ∧
        ∀ (index : Nat) (field : Field), b.fields[index]? = some field →
          FieldHolds labels b.fields operands index field (value index)) ∧
      (fieldRoom < (b.fields.map Field.size).sum →
        b.encode labels operands = .error .negativeShift) := by
  rcases fills_of_check hlabels hsizes hcheck with ⟨values, hfills⟩
  rw [sum_size_eq_totalWidth hsizes]
  constructor
  · intro hwidth
    have hwidth : totalWidth b.fields ≤ fieldRoom := Int.ofNat_le.mp hwidth
    refine ⟨_, _, pack_of_fills hfills b.opcode hwidth,
      packs_of_holds hsizes hfills.holds hwidth, ?_⟩
    intro index field hfield
    exact hfills.fieldHolds hfield
  · intro hwidth
    exact pack_of_overflow hfills b.opcode hwidth

/-- A negative opcode above a reserved field without bits, a negative number, a condition by name
and a register, with three bits to spare. -/
theorem encode_packs_signed :
    let b : BaseInstruction :=
      ⟨"TRY".toList, -3, [.blank 0, .signed 3 true, .flag, .unsigned 0, .register]⟩
    let operands := ["-4".toList, "nz".toList, "0".toList, "r9".toList]
    (Instruction.base b).check [] operands = .ok none ∧
      ∃ word value, b.encode [] operands = .ok word ∧ b.Packs value word ∧
        ∀ (index : Nat) (field : Field), b.fields[index]? = some field →
          FieldHolds [] b.fields operands index field (value index) := by
  intro b operands
  have hcheck : (Instruction.base b).check [] operands = .ok none := by decide +kernel
  exact ⟨hcheck, (encode_packs b (by decide) (by decide) hcheck).1 (by decide)⟩

end BaseInstruction

end Rsc
