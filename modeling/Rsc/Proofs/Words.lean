import Mathlib.Tactic.FinCases
import Rsc.Proofs.Instructions
import Rsc.Proofs.Numerals

/-!
# Words and what they say

Which numbers are words of instructions, and that a word says which instruction it is. The fields
of a base instruction lie side by side, so that their values are read back from a word by division.
Every value that a field can hold is spelt by some operand, so that the words are exactly the
numbers with the opcode of a base instruction and with zeros in all bits that no operand reaches.
-/

namespace Rsc

/-! ## Reading fields back -/

/-- The values in the fields of a number of `room` bits, the first field highest. -/
def readFields : List Field → Nat → Int → List Int
  | [], _, _ => []
  | field :: fields, room, n =>
    n / Bits.twoPow (room - field.size.toNat) ::
      readFields fields (room - field.size.toNat) (n % Bits.twoPow (room - field.size.toNat))

/-- The bits that no operand reaches are zero: those of reserved fields and those below the last
field. -/
def Unused : List Field → Nat → Int → Prop
  | [], _, n => n = 0
  | field :: fields, room, n =>
    (field.takesOperand = false → n / Bits.twoPow (room - field.size.toNat) = 0) ∧
      Unused fields (room - field.size.toNat) (n % Bits.twoPow (room - field.size.toNat))

/-- The first value and the others are quotient and remainder. -/
theorem ediv_emod_place {field : Field} {fields : List Field} {v : Int} {values : List Int}
    (hholds : List.Forall₂ Field.Holds fields values) {room : Nat}
    (hroom : totalWidth (field :: fields) ≤ room) :
    place (field :: fields) (v :: values) room / Bits.twoPow (room - field.size.toNat) = v ∧
      place (field :: fields) (v :: values) room % Bits.twoPow (room - field.size.toNat) =
        place fields values (room - field.size.toNat) := by
  rw [totalWidth_cons] at hroom
  obtain ⟨hleast, hgreatest⟩ := place_bounds hholds (Nat.le_sub_of_add_le' hroom)
  rw [Int.ediv_emod_unique (Bits.twoPow_pos _)]
  refine ⟨?_, hleast, hgreatest⟩
  rw [place, Int.add_comm, Int.mul_comm]

/-- Values are read back from their places. -/
theorem readFields_place {fields : List Field} {values : List Int}
    (hholds : List.Forall₂ Field.Holds fields values) {room : Nat}
    (hroom : totalWidth fields ≤ room) :
    readFields fields room (place fields values room) = values := by
  induction hholds generalizing room with
  | nil => rfl
  | @cons field v fields values _ hrest ih =>
      obtain ⟨hfirst, hothers⟩ := ediv_emod_place (v := v) hrest hroom
      rw [totalWidth_cons] at hroom
      rw [readFields, hfirst, hothers, ih (Nat.le_sub_of_add_le' hroom)]

theorem unused_place {fields : List Field} {values : List Int}
    (hholds : List.Forall₂ Field.Holds fields values) {room : Nat}
    (hroom : totalWidth fields ≤ room) : Unused fields room (place fields values room) := by
  induction hholds generalizing room with
  | nil => rfl
  | @cons field v fields values hfield hrest ih =>
      obtain ⟨hfirst, hothers⟩ := ediv_emod_place (v := v) hrest hroom
      rw [totalWidth_cons] at hroom
      rw [Unused, hfirst, hothers]
      exact ⟨hfield.reserved, ih (Nat.le_sub_of_add_le' hroom)⟩

/-- A number with zeros in its unused bits is made of the values in its fields. -/
theorem place_readFields {fields : List Field} {room : Nat} (hroom : totalWidth fields ≤ room)
    {n : Int} (hnonneg : 0 ≤ n) (hfits : n < Bits.twoPow room) (hunused : Unused fields room n) :
    List.Forall₂ Field.Holds fields (readFields fields room n) ∧
      place fields (readFields fields room n) room = n := by
  induction fields generalizing room n with
  | nil => exact ⟨.nil, hunused.symm⟩
  | cons field fields ih =>
      rw [totalWidth_cons] at hroom
      have hpos := Bits.twoPow_pos (room - field.size.toNat)
      have hhere : field.size.toNat ≤ room := Nat.le_trans (Nat.le_add_right _ _) hroom
      obtain ⟨hreserved, hrest⟩ := hunused
      obtain ⟨hholds, hplace⟩ := ih (Nat.le_sub_of_add_le' hroom)
        (Int.emod_nonneg n (Int.ne_of_gt hpos)) (Int.emod_lt_of_pos n hpos) hrest
      constructor
      · refine .cons ⟨Int.ediv_nonneg hnonneg (Int.le_of_lt hpos), ?_, hreserved⟩ hholds
        rw [Field.twoPow_eq_capacity_mul hhere] at hfits
        exact Int.ediv_lt_of_lt_mul hpos hfits
      · rw [readFields, place, hplace]
        exact Int.ediv_mul_add_emod n _

/-! ## Values spelt as operands -/

/-- An operand with the value in the field. -/
def Field.spell (v : Int) : Field → Text
  | register => 'r' :: Numeral.decimal v
  | signed size _ =>
    Numeral.decimal (if v < Bits.twoPow (size - 1).toNat then v else v - Bits.twoPow size.toNat)
  | _ => Numeral.decimal v

namespace Field

theorem registerIndex?_spell :
    ∀ n : Nat, n < 16 → registerIndex? ('r' :: Numeral.decimal n) = some n := by
  decide

theorem head?_decimal_ne_marker (v : Int) : (Numeral.decimal v).head? ≠ some '.' :=
  head?_ne_marker_of_ofText? (Literal.ofText?_decimal v)

/-- The signed number of a value, and that it stands for the value. -/
theorem signed_of_value {size : Int} (hsize : 1 ≤ size) {v : Int} (hnonneg : 0 ≤ v)
    (hfits : v < Bits.twoPow size.toNat) (strict : Bool) :
    ∃ s, s = (if v < Bits.twoPow (size - 1).toNat then v else v - Bits.twoPow size.toNat) ∧
      -Bits.twoPow (size - 1).toNat ≤ s ∧ s ≤ signedGreatest size strict ∧
      Bits.low size.toNat s = v := by
  have hhalf := Bits.twoPow_eq_two_mul hsize
  have hpos := Bits.twoPow_pos (size - 1).toNat
  refine ⟨_, rfl, ?_, ?_, ?_⟩
  · split <;> omega
  · unfold signedGreatest
    split <;> split <;> omega
  · rw [Bits.low_eq_emod]
    split
    next => exact Int.emod_eq_of_lt hnonneg hfits
    next => rw [Int.sub_emod_right, Int.emod_eq_of_lt hnonneg hfits]

/-- Every value that a field can hold is spelt by an operand that passes. -/
theorem check_spell {field : Field} (hsize : field.WellSized) (hsmall : field.size ≤ 16)
    (htakes : field.takesOperand = true) {v : Int} (hholds : field.Holds v)
    (labels : LabelTable) :
    field.check labels (field.spell v) = .ok none ∧ field.value labels (field.spell v) = .ok v := by
  obtain ⟨hnonneg, hfits, _⟩ := hholds
  have hcapacity : field.capacity ≤ 65536 := twoPow_le_of_le _ (by omega)
  have hread : Literal.read (Numeral.decimal v) = .ok (some v) :=
    Literal.read_decimal (writable_of_natAbs_le (by omega))
  rw [value_eq_ok_iff]
  cases field with
  | register =>
      obtain ⟨n, rfl⟩ := Int.eq_ofNat_of_zero_le hnonneg
      have hindex := registerIndex?_spell n (Int.ofNat_lt.mp hfits)
      simp [check, encode, spell, hindex]
  | unsigned size =>
      refine ⟨?_, hread⟩
      rw [check_unsigned_iff hsize]
      exact ⟨v, hread, hnonneg, Int.le_sub_one_of_lt hfits⟩
  | signed size strict =>
      obtain ⟨s, hs, hleast, hgreatest, hlow⟩ := signed_of_value hsize hnonneg hfits strict
      have hread : Literal.read (spell v (signed size strict)) = .ok (some s) := by
        have hbound : s.natAbs ≤ 65536 := by
          change Bits.twoPow size.toNat ≤ 65536 at hcapacity
          change v < Bits.twoPow size.toNat at hfits
          rw [hs]
          split <;> omega
        rw [spell, ← hs]
        exact Literal.read_decimal (writable_of_natAbs_le hbound)
      rw [check_signed_iff hsize, encode_signed hsize strict hread, hlow]
      exact ⟨⟨s, hread, hleast, hgreatest⟩, rfl⟩
  | blank size => cases htakes
  | address =>
      have hmarker := head?_decimal_ne_marker v
      change address.check labels (Numeral.decimal v) = .ok none ∧
        address.encode labels (Numeral.decimal v) = .ok (some v)
      rw [check_address_of_no_marker hmarker, checkWithin_eq_none_iff (by simp),
        encode_address_of_no_marker hmarker]
      exact ⟨⟨v, hread, hnonneg, Int.le_sub_one_of_lt hfits⟩, hread⟩
  | flag =>
      refine ⟨?_, encode_flag_of_literal hread⟩
      refine check_flag_iff.mpr ⟨some v, hread, Or.inl ?_⟩
      exact within_eq_true_iff.mpr ⟨v, rfl, hnonneg, Int.le_sub_one_of_lt hfits⟩

end Field

theorem exists_operands_of_holds {fields : List Field} {values : List Int}
    (hholds : List.Forall₂ Field.Holds fields values)
    (hsizes : ∀ field ∈ fields, field.WellSized ∧ field.size ≤ 16) (labels : LabelTable) :
    ∃ operands, checkOperands labels fields operands = .ok none ∧
      Fills labels fields operands values := by
  induction hholds with
  | nil => exact ⟨[], rfl, .nil⟩
  | @cons field v fields values hfield _ ih =>
      obtain ⟨⟨hsize, hsmall⟩, hsizes⟩ := List.forall_mem_cons.mp hsizes
      obtain ⟨operands, hcheck, hfills⟩ := ih hsizes
      cases htakes : field.takesOperand with
      | true =>
          obtain ⟨hpasses, hvalue⟩ := Field.check_spell hsize hsmall htakes hfield labels
          exact ⟨field.spell v :: operands, (checkOperands_cons_operand htakes).mpr ⟨hpasses, hcheck⟩,
            .operand htakes hsize hvalue hfield.nonneg hfield.fits hfills⟩
      | false =>
          obtain rfl := hfield.reserved htakes
          exact ⟨operands, (checkOperands_cons_reserved htakes).mpr hcheck,
            .reserved htakes hsize hfills⟩

/-! ## The words of the catalog -/

/-- The numbers that are words: sixteen bits with the opcode of a base instruction on top, and
zeros wherever an instruction has fewer operands than room. -/
@[mk_iff isWord_fields]
structure IsWord (w : Int) : Prop where
  nonneg : 0 ≤ w
  fits : w ≤ 65535
  opcode : Bits.shiftRight w 12 ≤ 13
  bare : Bits.shiftRight w 12 = 0 ∨ Bits.shiftRight w 12 = 1 → Bits.low 12 w = 0
  shift : Bits.shiftRight w 12 = 7 → Bits.low 4 w = 0
  jump : Bits.shiftRight w 12 = 10 → Bits.low 2 (Bits.shiftRight w 10) = 0

theorem isWord_iff {w : Int} :
    IsWord w ↔ 0 ≤ w ∧ w ≤ 65535 ∧ w / 4096 ≤ 13 ∧ (w / 4096 = 0 ∨ w / 4096 = 1 → w % 4096 = 0) ∧
      (w / 4096 = 7 → w % 16 = 0) ∧ (w / 4096 = 10 → w / 1024 % 4 = 0) := by
  simp only [isWord_fields, Bits.shiftRight_eq_div, Bits.low_eq_emod]
  rfl

namespace Catalog

theorem exists_opcode : ∀ k : Nat, k < 14 → ∃ b ∈ base, b.opcode = k := by
  decide

theorem eq_of_opcode : ∀ b ∈ base, ∀ b' ∈ base, b.opcode = b'.opcode → b = b' := by
  decide

theorem unused_iff {b : BaseInstruction} (hb : b ∈ base) (n : Int) :
    Unused b.fields 12 n ↔ (b.opcode = 0 ∨ b.opcode = 1 → n = 0) ∧ (b.opcode = 7 → n % 16 = 0) ∧
      (b.opcode = 10 → n / 1024 = 0) := by
  fin_cases hb <;>
    simp [Unused, nop, hlt, add, sub, nor, and, xor, rsh, ldi, adi, jmp, brc, red, wrt,
      threeRegisters, Field.size, Field.takesOperand, addressSize, Bits.twoPow]

end Catalog

/-- The number that a base instruction makes of values in its fields. -/
def BaseInstruction.word (b : BaseInstruction) (values : List Int) : Int :=
  b.opcode * 4096 + place b.fields values 12

/-- Opcode and values are read back from a word. -/
theorem BaseInstruction.read_word {b : BaseInstruction} (hb : b ∈ Catalog.base)
    {values : List Int} (hholds : List.Forall₂ Field.Holds b.fields values) :
    b.word values / 4096 = b.opcode ∧ b.word values % 4096 = place b.fields values 12 ∧
      readFields b.fields 12 (b.word values % 4096) = values := by
  have hwidth := (Catalog.base_wellSized b hb).2
  obtain ⟨hnonneg, hfits⟩ : 0 ≤ place b.fields values 12 ∧ place b.fields values 12 < 4096 :=
    place_bounds hholds hwidth
  have hmod : b.word values % 4096 = place b.fields values 12 := by
    unfold BaseInstruction.word
    omega
  refine ⟨?_, hmod, ?_⟩
  · unfold BaseInstruction.word
    omega
  · rw [hmod, readFields_place hholds hwidth]

/-- The word of a base instruction meets the conditions, whatever its fields hold. -/
theorem isWord_word {b : BaseInstruction} (hb : b ∈ Catalog.base) {values : List Int}
    (hholds : List.Forall₂ Field.Holds b.fields values) : IsWord (b.word values) := by
  obtain ⟨hdiv, hmod, _⟩ := b.read_word hb hholds
  obtain ⟨hleast, hgreatest⟩ := Catalog.opcode_bounds b hb
  have hunused := unused_place hholds (Catalog.base_wellSized b hb).2
  rw [← hmod, Catalog.unused_iff hb, ← hdiv] at hunused
  rw [isWord_iff]
  omega

/-- A number that meets the conditions is the word of a base instruction. -/
theorem exists_word_of_isWord {w : Int} (h : IsWord w) :
    ∃ b ∈ Catalog.base, ∃ values, List.Forall₂ Field.Holds b.fields values ∧
      b.word values = w := by
  rw [isWord_iff] at h
  obtain ⟨b, hb, hopcode⟩ := Catalog.exists_opcode (w / 4096).toNat (by omega)
  rw [Int.toNat_of_nonneg (by omega)] at hopcode
  have hunused : Unused b.fields 12 (w % 4096) := by
    rw [Catalog.unused_iff hb, hopcode]
    omega
  obtain ⟨hholds, hplace⟩ := place_readFields (Catalog.base_wellSized b hb).2
    (Int.emod_nonneg w (by decide)) (Int.emod_lt_of_pos w (by decide)) hunused
  refine ⟨b, hb, _, hholds, ?_⟩
  rw [BaseInstruction.word, hplace, hopcode]
  exact Int.ediv_mul_add_emod w 4096

/-! ## The words of instructions -/

/-- The value of each field in turn, with operands taken from the left. -/
def fieldValues (labels : LabelTable) : List Field → List Text → Except Fault (List Int)
  | [], _ => .ok []
  | field :: fields, operands =>
    if field.takesOperand then
      match operands with
      | [] => .error .operandsExhausted
      | token :: operands => do
        return (← field.value labels token) :: (← fieldValues labels fields operands)
    else do
      return (← field.value labels []) :: (← fieldValues labels fields operands)

theorem fieldValues_of_fills {labels : LabelTable} {fields : List Field} {operands : List Text}
    {values : List Int} (h : Fills labels fields operands values) :
    fieldValues labels fields operands = .ok values := by
  induction h with
  | nil => rfl
  | operand htakes _ hvalue _ _ _ ih =>
      unfold fieldValues
      rw [if_pos htakes]
      dsimp only
      rw [hvalue, ih]
      rfl
  | reserved htakes _ _ ih =>
      unfold fieldValues
      rw [if_neg (by simp [htakes]), Field.value_of_not_takesOperand htakes, ih]
      rfl

namespace Instruction

/-- The value of each field of the base instruction that an instruction is encoded as. -/
def fieldValues (i : Instruction) (labels : LabelTable) (operands : List Text) :
    Except Fault (List Int) := do
  Rsc.fieldValues labels i.target.fields (← i.targetOperands operands)

/-- An instruction of the catalog accepts the operands, under a table without negative addresses,
and has the word. -/
structure Encodes (i : Instruction) (labels : LabelTable) (operands : List Text) (w : Int) :
    Prop where
  mem : i ∈ Catalog.all
  nonneg : ∀ entry ∈ labels, 0 ≤ entry.2
  check : i.check labels operands = .ok none
  encode : i.encode labels operands = .ok w

theorem Encodes.exists_fieldValues {i : Instruction} {labels : LabelTable} {operands : List Text}
    {w : Int} (h : i.Encodes labels operands w) :
    i.target ∈ Catalog.base ∧ ∃ values, i.fieldValues labels operands = .ok values ∧
      List.Forall₂ Field.Holds i.target.fields values ∧ i.target.word values = w := by
  obtain ⟨hbase, tokens, values, htokens, hfills, hencode⟩ :=
    exists_fills_of_check h.nonneg h.mem h.check
  refine ⟨hbase, values, ?_, hfills.holds, Except.ok.inj (hencode.symm.trans h.encode)⟩
  unfold fieldValues
  rw [htokens]
  exact fieldValues_of_fills hfills

theorem exists_encodes {b : BaseInstruction} (hb : b ∈ Catalog.base) {values : List Int}
    (hholds : List.Forall₂ Field.Holds b.fields values) :
    ∃ operands, (base b).Encodes [] operands (b.word values) := by
  have hmem : base b ∈ Catalog.all := List.mem_append_left _ (List.mem_map_of_mem hb)
  obtain ⟨operands, hcheck, hfills⟩ :=
    exists_operands_of_holds hholds (Catalog.wellSized (base b) hmem) []
  refine ⟨operands, hmem, by simp, hcheck, ?_⟩
  exact b.encode_of_fills (Catalog.base_wellSized b hb).2 hfills

end Instruction

/-- The words of instructions are the numbers that `IsWord` describes, and a word determines the
base instruction and the value of each of its fields, however the instruction was written. -/
theorem encodes_iff_isWord :
    (∀ w, (∃ (i : Instruction) (labels : LabelTable) (operands : List Text),
        i.Encodes labels operands w) ↔ IsWord w) ∧
      ∀ (i i' : Instruction) (labels labels' : LabelTable) (operands operands' : List Text) (w : Int),
        i.Encodes labels operands w → i'.Encodes labels' operands' w →
          i.target = i'.target ∧ ∃ values, i.fieldValues labels operands = .ok values ∧
            i'.fieldValues labels' operands' = .ok values := by
  refine ⟨fun w => ⟨?_, ?_⟩, ?_⟩
  · intro ⟨i, labels, operands, hencodes⟩
    obtain ⟨hbase, values, _, hholds, rfl⟩ := hencodes.exists_fieldValues
    exact isWord_word hbase hholds
  · intro hword
    obtain ⟨b, hb, values, hholds, rfl⟩ := exists_word_of_isWord hword
    obtain ⟨operands, hencodes⟩ := Instruction.exists_encodes hb hholds
    exact ⟨.base b, [], operands, hencodes⟩
  · intro i i' labels labels' operands operands' w hfirst hsecond
    obtain ⟨hbase, values, hvalues, hholds, rfl⟩ := hfirst.exists_fieldValues
    obtain ⟨hbase', values', hvalues', hholds', hword⟩ := hsecond.exists_fieldValues
    obtain ⟨hopcode, _, hread⟩ := i.target.read_word hbase hholds
    obtain ⟨hopcode', _, hread'⟩ := i'.target.read_word hbase' hholds'
    rw [hword] at hopcode' hread'
    have htarget := Catalog.eq_of_opcode _ hbase _ hbase' (hopcode.symm.trans hopcode')
    refine ⟨htarget, values, hvalues, ?_⟩
    rw [hvalues', ← hread, ← hread', htarget]

/-- A complement and the base instruction that it stands for, with one word. -/
theorem encodes_iff_isWord_complement :
    IsWord 0x612F ∧ ¬ IsWord 0x7001 ∧
      (Instruction.shorthand Catalog.not).target = (Instruction.base Catalog.xor).target ∧
      ∃ values, (Instruction.shorthand Catalog.not).fieldValues [] ["r1".toList, "R2".toList] =
          .ok values ∧
        (Instruction.base Catalog.xor).fieldValues [("end".toList, 3)]
          ["r1".toList, "r2".toList, "r15".toList] = .ok values := by
  have hnot : (Instruction.shorthand Catalog.not).Encodes [] ["r1".toList, "R2".toList] 0x612F :=
    ⟨by decide, by decide, by decide, by decide⟩
  have hxor : (Instruction.base Catalog.xor).Encodes [("end".toList, 3)]
      ["r1".toList, "r2".toList, "r15".toList] 0x612F :=
    ⟨by decide, by decide, by decide, by decide⟩
  refine ⟨(encodes_iff_isWord.1 _).mp ⟨_, _, _, hnot⟩, ?_, ?_⟩
  · intro hword
    exact absurd (hword.shift (by decide)) (by decide)
  · exact encodes_iff_isWord.2 _ _ _ _ _ _ _ hnot hxor

end Rsc
