import Mathlib.Data.List.Nodup
import Mathlib.Tactic.Ring
import Rsc.Catalog
import Rsc.Proofs.Fields

/-!
# Accepted instructions have words

The operands of an instruction are checked against one list of fields and packed through another,
its own or that of the base instruction it stands for. Fields that are filled with values of
their widths are packed side by side; every instruction of the catalog whose operands pass their
check fills its fields in this way, and so has a word.
-/

namespace Rsc

/-! ## Checking operands -/

/-- The fields that take an operand, each with its operand. -/
def operandPairs (fields : List Field) (operands : List Text) : List (Field × Text) :=
  (fields.filter Field.takesOperand).zip operands

/-- A wrong number of operands is refused before any of them is looked at. -/
theorem checkOperands_of_arity {labels : LabelTable} {fields : List Field} {operands : List Text}
    (h : operands.length ≠ (fields.filter Field.takesOperand).length) :
    checkOperands labels fields operands =
      .ok (some (.arity (fields.filter Field.takesOperand).length operands.length)) := by
  unfold checkOperands
  rw [if_pos h]
  rfl

/-- Operands in the right number are checked one by one against their fields. -/
theorem checkOperands_of_length {labels : LabelTable} {fields : List Field} {operands : List Text}
    (h : operands.length = (fields.filter Field.takesOperand).length) :
    checkOperands labels fields operands =
      (operandPairs fields operands).findSomeM? fun pair => do
        return (← pair.1.check labels pair.2).map (Cause.operand pair.2) := by
  unfold checkOperands operandPairs
  rw [if_neg (not_not.mpr h)]

theorem map_check_eq_none_iff {check : Except Fault (Option Rejection)} {token : Text} :
    (do return (← check).map (Cause.operand token)) = (.ok none : Except Fault (Option Cause)) ↔
      check = .ok none := by
  cases check with
  | error fault => simp [bind, Except.bind]
  | ok found => simp [bind, Except.bind, pure, Except.pure]

/-- Operands pass if they are as many as needed and each passes its field. -/
theorem checkOperands_eq_none_iff {labels : LabelTable} {fields : List Field}
    {operands : List Text} :
    checkOperands labels fields operands = .ok none ↔
      operands.length = (fields.filter Field.takesOperand).length ∧
        ∀ pair ∈ operandPairs fields operands, pair.1.check labels pair.2 = .ok none := by
  by_cases hlength : operands.length = (fields.filter Field.takesOperand).length
  · rw [checkOperands_of_length hlength, findSomeM?_eq_none_iff]
    simp only [map_check_eq_none_iff, hlength, true_and]
  · rw [checkOperands_of_arity hlength]
    simp [hlength]

/-- Where every field takes an operand, operands and fields go side by side. -/
theorem checkOperands_iff_forall₂ {labels : LabelTable} {fields : List Field}
    (htakes : ∀ field ∈ fields, field.takesOperand = true) {operands : List Text} :
    checkOperands labels fields operands = .ok none ↔
      List.Forall₂ (fun field token => field.check labels token = .ok none) fields operands := by
  rw [checkOperands_eq_none_iff, operandPairs, List.filter_eq_self.mpr htakes,
    List.forall₂_iff_zip, eq_comm, Prod.forall]

/-- A field with an operand checks the first one. -/
theorem checkOperands_cons_operand {labels : LabelTable} {field : Field}
    (htakes : field.takesOperand = true) {fields : List Field} {token : Text}
    {operands : List Text} :
    checkOperands labels (field :: fields) (token :: operands) = .ok none ↔
      field.check labels token = .ok none ∧ checkOperands labels fields operands = .ok none := by
  simp only [checkOperands_eq_none_iff, operandPairs, List.filter_cons_of_pos htakes,
    List.length_cons, List.zip_cons_cons, List.forall_mem_cons, Nat.add_right_cancel_iff]
  exact and_left_comm

theorem checkOperands_cons_reserved {labels : LabelTable} {field : Field}
    (htakes : field.takesOperand = false) {fields : List Field} {operands : List Text} :
    checkOperands labels (field :: fields) operands = .ok none ↔
      checkOperands labels fields operands = .ok none := by
  have hskip : (field :: fields).filter Field.takesOperand = fields.filter Field.takesOperand :=
    List.filter_cons_of_neg (by simp [htakes])
  simp only [checkOperands_eq_none_iff, operandPairs, hskip]

/-- Operands that pass have one for each field, and it passes there. -/
theorem exists_operand_of_check {labels : LabelTable} {fields : List Field}
    (htakes : ∀ field ∈ fields, field.takesOperand = true) {operands : List Text}
    (hcheck : checkOperands labels fields operands = .ok none) {index : Nat} {field : Field}
    (hfield : fields[index]? = some field) :
    ∃ token, operands[index]? = some token ∧ field.check labels token = .ok none := by
  obtain ⟨hlength, hget⟩ :=
    List.forall₂_iff_get.mp ((checkOperands_iff_forall₂ htakes).mp hcheck)
  obtain ⟨hindex, rfl⟩ := List.getElem?_eq_some_iff.mp hfield
  have hindex' : index < operands.length := hlength ▸ hindex
  exact ⟨operands[index], List.getElem?_eq_getElem hindex', hget index hindex hindex'⟩

theorem map_check_eq_some_iff {check : Except Fault (Option Rejection)} {token : Text}
    {cause : Cause} :
    (do return (← check).map (Cause.operand token)) =
        (.ok (some cause) : Except Fault (Option Cause)) ↔
      ∃ rejection, check = .ok (some rejection) ∧ cause = .operand token rejection := by
  cases check with
  | error fault => simp [bind, Except.bind]
  | ok found =>
      cases found with
      | none => simp [bind, Except.bind, pure, Except.pure]
      | some rejection => simp [bind, Except.bind, pure, Except.pure, eq_comm]

theorem map_check_eq_error_iff {check : Except Fault (Option Rejection)} {token : Text}
    {fault : Fault} :
    (do return (← check).map (Cause.operand token)) =
        (.error fault : Except Fault (Option Cause)) ↔ check = .error fault := by
  cases check with
  | error fault' => simp [bind, Except.bind]
  | ok found => simp [bind, Except.bind, pure, Except.pure]

/-- The operands before a pair pass, so that the check gets to it. -/
def OperandReached (labels : LabelTable) (fields : List Field) (operands : List Text)
    (field : Field) (token : Text) : Prop :=
  operands.length = (fields.filter Field.takesOperand).length ∧
    Reaches (fun pair => pair.1.check labels pair.2 = .ok none) (operandPairs fields operands)
      (field, token)

/-- Operands are refused for their number or for the first one that does not pass. -/
theorem checkOperands_eq_some_iff {labels : LabelTable} {fields : List Field}
    {operands : List Text} {cause : Cause} :
    checkOperands labels fields operands = .ok (some cause) ↔
      (operands.length ≠ (fields.filter Field.takesOperand).length ∧
          cause = .arity (fields.filter Field.takesOperand).length operands.length) ∨
        ∃ field token rejection, OperandReached labels fields operands field token ∧
          field.check labels token = .ok (some rejection) ∧ cause = .operand token rejection := by
  unfold OperandReached
  by_cases hlength : operands.length = (fields.filter Field.takesOperand).length
  · rw [checkOperands_of_length hlength, findSomeM?_eq_iff (by simp)]
    simp only [map_check_eq_none_iff, map_check_eq_some_iff, hlength, ne_eq, not_true_eq_false,
      false_and, false_or, true_and]
    constructor
    · rintro ⟨⟨field, token⟩, hreach, rejection, hcheck, hcause⟩
      exact ⟨field, token, rejection, hreach, hcheck, hcause⟩
    · rintro ⟨field, token, rejection, hreach, hcheck, hcause⟩
      exact ⟨(field, token), hreach, rejection, hcheck, hcause⟩
  · rw [checkOperands_of_arity hlength]
    simp [hlength, eq_comm]

/-- Checking operands ends in a fault only at the first one that does not pass. -/
theorem checkOperands_eq_error_iff {labels : LabelTable} {fields : List Field}
    {operands : List Text} {fault : Fault} :
    checkOperands labels fields operands = .error fault ↔
      ∃ field token, OperandReached labels fields operands field token ∧
        field.check labels token = .error fault := by
  unfold OperandReached
  by_cases hlength : operands.length = (fields.filter Field.takesOperand).length
  · rw [checkOperands_of_length hlength, findSomeM?_eq_iff (by simp)]
    simp only [map_check_eq_none_iff, map_check_eq_error_iff, hlength, true_and]
    constructor
    · rintro ⟨⟨field, token⟩, hreach, hcheck⟩
      exact ⟨field, token, hreach, hcheck⟩
    · rintro ⟨field, token, hreach, hcheck⟩
      exact ⟨(field, token), hreach, hcheck⟩
  · rw [checkOperands_of_arity hlength]
    simp [hlength]

/-! ## Packing values -/

namespace Bits

theorem twoPow_add (m n : Nat) : twoPow (m + n) = twoPow m * twoPow n := by
  unfold twoPow
  rw [show Nat.pow 2 (m + n) = Nat.pow 2 m * Nat.pow 2 n from Nat.pow_add 2 m n]
  rfl

theorem shiftRight_zero (value : Int) : shiftRight value 0 = value := by
  rw [shiftRight_eq_div]
  exact Int.ediv_one value

/-- Bits may be dropped in two steps. -/
theorem shiftRight_shiftRight (value : Int) (first second : Nat) :
    shiftRight (shiftRight value first) second = shiftRight value (first + second) := by
  rw [shiftRight_eq_div, shiftRight_eq_div, shiftRight_eq_div, twoPow_add,
    Int.ediv_ediv_of_nonneg (Int.le_of_lt (twoPow_pos first))]

/-- The low bits of a value are those from `size` upwards on top of the lowest `size` ones. -/
theorem low_add (above size : Nat) (value : Int) :
    low (above + size) value = low above (shiftRight value size) * twoPow size + low size value := by
  have hdiv : value / (twoPow size * twoPow above) = value / twoPow size / twoPow above :=
    Int.ediv_mul_of_nonneg (Int.le_of_lt (twoPow_pos size))
  rw [low_eq_emod, low_eq_emod, low_eq_emod, shiftRight_eq_div, Nat.add_comm, twoPow_add,
    Int.emod_def, hdiv, Int.emod_def value (twoPow size), Int.emod_def (value / twoPow size)]
  ring

/-- The values of a size fall into two halves, by the highest bit. -/
theorem twoPow_eq_two_mul {size : Int} (hsize : 1 ≤ size) :
    twoPow size.toNat = 2 * twoPow (size - 1).toNat := by
  rw [show size.toNat = 1 + (size - 1).toNat by omega, twoPow_add]
  rfl

theorem union_zero (code : Int) : union code 0 = code := by
  cases code with
  | ofNat m => exact congrArg Int.ofNat (Nat.or_zero m)
  | negSucc m =>
      change Int.negSucc (m &&& (m ^^^ 0)) = Int.negSucc m
      rw [Nat.xor_zero, Nat.and_self]

/-- A value that fits its room is put below the code without touching it. -/
theorem append_of_fits {code value : Int} {size : Nat} (hnonneg : 0 ≤ value)
    (hfits : value < twoPow size) : append code size value = code * twoPow size + value := by
  have habove : shiftRight value size = 0 := by
    rw [shiftRight_eq_div]
    exact Int.ediv_eq_zero_of_lt hnonneg hfits
  have hbelow : low size value = value := by
    rw [low_eq_emod]
    exact Int.emod_eq_of_lt hnonneg hfits
  rw [append, habove, hbelow, union_zero, raise_eq_mul]

end Bits

/-- The operands fill the fields with the values: a field that takes an operand gets the value of
the next one, which fits it, and any other field gets zero. -/
inductive Fills (labels : LabelTable) : List Field → List Text → List Int → Prop where
  | nil : Fills labels [] [] []
  | operand {field : Field} {fields : List Field} {token : Text} {operands : List Text} {v : Int}
      {values : List Int} (htakes : field.takesOperand = true) (hsize : field.WellSized)
      (hvalue : field.value labels token = .ok v) (hnonneg : 0 ≤ v) (hfits : v < field.capacity)
      (hrest : Fills labels fields operands values) :
      Fills labels (field :: fields) (token :: operands) (v :: values)
  | reserved {field : Field} {fields : List Field} {operands : List Text} {values : List Int}
      (htakes : field.takesOperand = false) (hsize : field.WellSized)
      (hrest : Fills labels fields operands values) :
      Fills labels (field :: fields) operands (0 :: values)

/-- The number that values make side by side in the fields, the first highest in `room` bits. -/
def place : List Field → List Int → Nat → Int
  | field :: fields, v :: values, room =>
    v * Bits.twoPow (room - field.size.toNat) + place fields values (room - field.size.toNat)
  | _, _, _ => 0

/-- The widths of all fields together. -/
def totalWidth (fields : List Field) : Nat := (fields.map fun field => field.size.toNat).sum

theorem totalWidth_cons (field : Field) (fields : List Field) :
    totalWidth (field :: fields) = field.size.toNat + totalWidth fields := by
  simp [totalWidth]

theorem Field.value_of_not_takesOperand {field : Field} (h : field.takesOperand = false)
    (labels : LabelTable) : field.value labels [] = .ok 0 := by
  cases field with
  | blank size => rfl
  | _ => cases h

/-- A field with an operand appends its value and takes its bits from the room. -/
theorem pack_operand {labels : LabelTable} {field : Field} {token : Text} {v : Int}
    (htakes : field.takesOperand = true) (hsize : field.WellSized)
    (hvalue : field.value labels token = .ok v) (fields : List Field) (operands : List Text)
    (code room : Int) :
    pack labels (field :: fields) (token :: operands) code room =
      pack labels fields operands (Bits.append code field.size.toNat v) (room - field.size) := by
  conv_lhs => unfold pack
  rw [if_pos htakes]
  dsimp only
  rw [Field.width_size hsize, hvalue]
  rfl

/-- A reserved field appends zeros and takes its bits from the room. -/
theorem pack_reserved {labels : LabelTable} {field : Field} (htakes : field.takesOperand = false)
    (hsize : field.WellSized) (fields : List Field) (operands : List Text) (code room : Int) :
    pack labels (field :: fields) operands code room =
      pack labels fields operands (Bits.append code field.size.toNat 0) (room - field.size) := by
  conv_lhs => unfold pack
  rw [if_neg (by simp [htakes]), Field.width_size hsize, Field.value_of_not_takesOperand htakes]
  rfl

/-- The room holds as much as the field times the room behind it. -/
theorem Field.twoPow_eq_capacity_mul {field : Field} {room : Nat}
    (hroom : field.size.toNat ≤ room) :
    Bits.twoPow room = field.capacity * Bits.twoPow (room - field.size.toNat) := by
  rw [capacity, ← Bits.twoPow_add, Nat.add_sub_cancel' hroom]

/-- What one field adds to the word: its value goes right below the code, and the room shrinks
by its width. -/
theorem append_mul_twoPow {field : Field} {v : Int} (hnonneg : 0 ≤ v) (hfits : v < field.capacity)
    {room : Nat} (hroom : field.size.toNat ≤ room) (code : Int) :
    Bits.append code field.size.toNat v * Bits.twoPow (room - field.size.toNat) =
      code * Bits.twoPow room + v * Bits.twoPow (room - field.size.toNat) := by
  rw [Bits.append_of_fits hnonneg hfits, Field.twoPow_eq_capacity_mul hroom, Field.capacity]
  ring

theorem natCast_sub_size {field : Field} (hsize : field.WellSized) {room : Nat}
    (hroom : field.size.toNat ≤ room) :
    (room : Int) - field.size = ((room - field.size.toNat : Nat) : Int) := by
  have hnonneg := Field.size_nonneg hsize
  omega

/-- Filled fields are packed side by side below the code. -/
theorem pack_of_fills {labels : LabelTable} {fields : List Field} {operands : List Text}
    {values : List Int} (hfills : Fills labels fields operands values) (code : Int) {room : Nat}
    (hroom : totalWidth fields ≤ room) :
    pack labels fields operands code room =
      .ok (code * Bits.twoPow room + place fields values room) := by
  -- The room left is never negative, so each width is taken off it as a natural number.
  induction hfills generalizing code room with
  | nil =>
      rw [pack, Bits.shiftLeft, Bits.width_natCast]
      simp [bind, Except.bind, pure, Except.pure, Bits.raise_eq_mul, place]
  | @operand field fields token operands v values htakes hsize hvalue hnonneg hfits _ ih =>
      rw [totalWidth_cons] at hroom
      have hhere : field.size.toNat ≤ room := Nat.le_trans (Nat.le_add_right _ _) hroom
      have hthere : totalWidth fields ≤ room - field.size.toNat := Nat.le_sub_of_add_le' hroom
      rw [pack_operand htakes hsize hvalue, natCast_sub_size hsize hhere, ih _ hthere,
        append_mul_twoPow hnonneg hfits hhere, place, Int.add_assoc]
  | @reserved field fields operands values htakes hsize _ ih =>
      rw [totalWidth_cons] at hroom
      have hhere : field.size.toNat ≤ room := Nat.le_trans (Nat.le_add_right _ _) hroom
      have hthere : totalWidth fields ≤ room - field.size.toNat := Nat.le_sub_of_add_le' hroom
      rw [pack_reserved htakes hsize, natCast_sub_size hsize hhere, ih _ hthere,
        append_mul_twoPow (Int.le_refl 0) (Bits.twoPow_pos _) hhere, place, Int.add_assoc]

/-- Operands that pass their check fill the fields that they were checked against. -/
theorem fills_of_check {labels : LabelTable} (hlabels : ∀ entry ∈ labels, 0 ≤ entry.2)
    {fields : List Field} (hsizes : ∀ field ∈ fields, field.WellSized) {operands : List Text}
    (hcheck : checkOperands labels fields operands = .ok none) :
    ∃ values, Fills labels fields operands values := by
  induction fields generalizing operands with
  | nil =>
      obtain ⟨hlength, _⟩ := checkOperands_eq_none_iff.mp hcheck
      obtain rfl : operands = [] := List.length_eq_zero_iff.mp hlength
      exact ⟨[], .nil⟩
  | cons field fields ih =>
      obtain ⟨hsize, hsizes⟩ := List.forall_mem_cons.mp hsizes
      cases htakes : field.takesOperand with
      | true =>
          cases operands with
          | nil =>
              have hlength := (checkOperands_eq_none_iff.mp hcheck).1
              simp [htakes] at hlength
          | cons token operands =>
              obtain ⟨htoken, hrest⟩ := (checkOperands_cons_operand htakes).mp hcheck
              obtain ⟨v, hvalue, hnonneg, hfits⟩ := Field.value_of_check hsize hlabels htoken
              obtain ⟨values, hvalues⟩ := ih hsizes hrest
              exact ⟨v :: values, .operand htakes hsize hvalue hnonneg hfits hvalues⟩
      | false =>
          obtain ⟨values, hvalues⟩ := ih hsizes ((checkOperands_cons_reserved htakes).mp hcheck)
          exact ⟨0 :: values, .reserved htakes hsize hvalues⟩

/-! ## Shorthands -/

/-- A slot suits a field of the base instruction: it repeats an operand that was checked against
the same kind of field, or puts a fixed token there that has a value of the width. -/
def Slot.suits (fields : List Field) (target : Field) : Slot → Bool
  | operand index => fields[index]? == some target
  | fixed token =>
    match target.value [] token with
    | .ok v => 0 ≤ v && v < target.capacity
    | .error _ => false

/-- The expansion of a shorthand has a suitable slot for each field of the base instruction, all
of which take operands that do not depend on labels. -/
def Shorthand.WellFormed (s : Shorthand) : Prop :=
  (∀ field ∈ s.fields, field.takesOperand = true) ∧
    (∀ field ∈ s.base.fields, field.takesOperand = true ∧ field ≠ .address) ∧
    s.base.fields.length = s.expansion.length ∧
    ∀ pair ∈ s.base.fields.zip s.expansion, pair.2.suits s.fields pair.1 = true

instance : DecidablePred Shorthand.WellFormed := fun _ =>
  inferInstanceAs (Decidable (_ ∧ _ ∧ _ ∧ _))

/-- A suitable slot is filled with a token that has a value in its field. -/
theorem Slot.fill_of_suits {labels : LabelTable} (hlabels : ∀ entry ∈ labels, 0 ≤ entry.2)
    {fields : List Field} (htakes : ∀ field ∈ fields, field.takesOperand = true)
    {operands : List Text} (hcheck : checkOperands labels fields operands = .ok none)
    {target : Field} (hsize : target.WellSized) (htarget : target ≠ .address) {slot : Slot}
    (hsuits : slot.suits fields target = true) :
    ∃ token, slot.fill operands = .ok token ∧ ∃ v, target.value labels token = .ok v ∧ 0 ≤ v ∧
      v < target.capacity := by
  cases slot with
  | operand index =>
      have hfield : fields[index]? = some target := by simpa [suits] using hsuits
      obtain ⟨token, hoperand, hpasses⟩ := exists_operand_of_check htakes hcheck hfield
      obtain ⟨v, hvalue, hbounds⟩ := Field.value_of_check hsize hlabels hpasses
      exact ⟨token, by simp [fill, hoperand], v, hvalue, hbounds⟩
  | fixed token =>
      unfold suits at hsuits
      dsimp only at hsuits
      split at hsuits
      next v hvalue =>
        rw [Bool.and_eq_true, decide_eq_true_eq, decide_eq_true_eq] at hsuits
        rw [Field.value_congr htarget [] labels] at hvalue
        exact ⟨token, rfl, v, hvalue, hsuits⟩
      next => cases hsuits

/-- Tokens with values that fit their fields fill them. -/
theorem fills_of_values {labels : LabelTable} {fields : List Field} {tokens : List Text}
    (htakes : ∀ field ∈ fields, field.takesOperand = true)
    (hsizes : ∀ field ∈ fields, field.WellSized)
    (h : List.Forall₂ (fun field token => ∃ v, field.value labels token = .ok v ∧ 0 ≤ v ∧
      v < field.capacity) fields tokens) :
    ∃ values, Fills labels fields tokens values := by
  induction h with
  | nil => exact ⟨[], .nil⟩
  | cons hfield _ ih =>
      obtain ⟨htake, htakes⟩ := List.forall_mem_cons.mp htakes
      obtain ⟨hsize, hsizes⟩ := List.forall_mem_cons.mp hsizes
      obtain ⟨v, hvalue, hnonneg, hfits⟩ := hfield
      obtain ⟨values, hvalues⟩ := ih htakes hsizes
      exact ⟨v :: values, .operand htake hsize hvalue hnonneg hfits hvalues⟩

/-- The expansion of a shorthand whose operands pass fills the fields of its base instruction. -/
theorem Shorthand.fills_of_check {labels : LabelTable}
    (hlabels : ∀ entry ∈ labels, 0 ≤ entry.2) {s : Shorthand} (hformed : s.WellFormed)
    (hsizes : ∀ field ∈ s.base.fields, field.WellSized) {operands : List Text}
    (hcheck : checkOperands labels s.fields operands = .ok none) :
    ∃ tokens values, s.expand operands = .ok tokens ∧ Fills labels s.base.fields tokens values := by
  obtain ⟨htakes, hbase, hlength, hsuits⟩ := hformed
  obtain ⟨tokens, hexpand, hvalues⟩ : ∃ tokens, s.expand operands = .ok tokens ∧
      List.Forall₂ (fun field token => ∃ v, field.value labels token = .ok v ∧ 0 ≤ v ∧
        v < field.capacity) s.base.fields tokens := by
    apply exists_mapM_of_zip hlength
    intro pair hpair
    have htarget := (List.of_mem_zip hpair).1
    exact Slot.fill_of_suits hlabels htakes hcheck (hsizes _ htarget) (hbase _ htarget).2
      (hsuits pair hpair)
  obtain ⟨values, hfills⟩ :=
    fills_of_values (fun field hfield => (hbase field hfield).1) hsizes hvalues
  exact ⟨tokens, values, hexpand, hfills⟩

/-! ## The catalog -/

namespace Catalog

/-- No two instructions share a mnemonic. -/
theorem nodup_mnemonics : (all.map Instruction.mnemonic).Nodup := by
  decide

/-- An instruction is found under its own mnemonic in any case, and under no other. -/
theorem lookup_eq_some_iff {mnemonic : Text} {i : Instruction} :
    lookup mnemonic = some i ↔ i ∈ all ∧ i.mnemonic = Text.upper mnemonic := by
  have hfound : ∀ j, lookup mnemonic = some j → j ∈ all ∧ j.mnemonic = Text.upper mnemonic := by
    intro j hj
    refine ⟨List.mem_of_find?_eq_some hj, ?_⟩
    simpa using List.find?_some hj
  refine ⟨hfound i, ?_⟩
  rintro ⟨hmem, hmnemonic⟩
  cases hlookup : lookup mnemonic with
  | none =>
      have hother := List.find?_eq_none.mp hlookup i hmem
      simp [hmnemonic] at hother
  | some j =>
      obtain ⟨hmem', hmnemonic'⟩ := hfound j hlookup
      -- Both are of the catalog and share the mnemonic, so they are the same.
      rw [List.inj_on_of_nodup_map nodup_mnemonics hmem' hmem (hmnemonic'.trans hmnemonic.symm)]

/-- Every field of the catalog is well-sized, with at most sixteen bits. -/
theorem wellSized : ∀ i ∈ all, ∀ field ∈ i.fields, field.WellSized ∧ field.size ≤ 16 := by
  decide

/-- The fields of a base instruction fit below its opcode. -/
theorem base_wellSized : ∀ b ∈ base, (∀ field ∈ b.fields, field.WellSized) ∧
    totalWidth b.fields ≤ 12 := by
  decide

theorem shorthand_wellFormed : ∀ s ∈ shorthands, s.WellFormed ∧ s.base ∈ base := by
  decide

end Catalog

/-- The word is the opcode with the values in their places below it. -/
theorem BaseInstruction.encode_of_fills {labels : LabelTable} {b : BaseInstruction}
    {operands : List Text} {values : List Int} (hwidth : totalWidth b.fields ≤ 12)
    (hfills : Fills labels b.fields operands values) :
    b.encode labels operands = .ok (b.opcode * 4096 + place b.fields values 12) :=
  pack_of_fills hfills b.opcode hwidth

namespace Instruction

/-- The base instruction that an instruction is encoded as. -/
def target : Instruction → BaseInstruction
  | base b => b
  | shorthand s => s.base

/-- The operands that the base instruction gets. -/
def targetOperands (operands : List Text) : Instruction → Except Fault (List Text)
  | base _ => .ok operands
  | shorthand s => s.expand operands

/-- An instruction is encoded as the base instruction that it stands for. -/
theorem encode_eq_target (i : Instruction) (labels : LabelTable) (operands : List Text) :
    i.encode labels operands = (do i.target.encode labels (← i.targetOperands operands)) := by
  cases i <;> rfl

/-- The operands of an instruction of the catalog that pass their check fill the fields of its base
instruction, and the word is made of the values. -/
theorem exists_fills_of_check {labels : LabelTable} (hlabels : ∀ entry ∈ labels, 0 ≤ entry.2)
    {i : Instruction} (hmem : i ∈ Catalog.all) {operands : List Text}
    (hcheck : i.check labels operands = .ok none) :
    i.target ∈ Catalog.base ∧ ∃ tokens values, i.targetOperands operands = .ok tokens ∧
      Fills labels i.target.fields tokens values ∧
      i.encode labels operands =
        .ok (i.target.opcode * 4096 + place i.target.fields values 12) := by
  have hfills : i.target ∈ Catalog.base ∧ ∃ tokens values, i.targetOperands operands = .ok tokens ∧
      Fills labels i.target.fields tokens values := by
    rcases List.mem_append.mp hmem with hmem | hmem
    · obtain ⟨b, hb, rfl⟩ := List.mem_map.mp hmem
      obtain ⟨values, hfills⟩ := Rsc.fills_of_check hlabels (Catalog.base_wellSized b hb).1 hcheck
      exact ⟨hb, operands, values, rfl, hfills⟩
    · obtain ⟨s, hs, rfl⟩ := List.mem_map.mp hmem
      obtain ⟨hformed, hbase⟩ := Catalog.shorthand_wellFormed s hs
      exact ⟨hbase, s.fills_of_check hlabels hformed (Catalog.base_wellSized s.base hbase).1 hcheck⟩
  obtain ⟨hbase, tokens, values, htokens, hfills⟩ := hfills
  refine ⟨hbase, tokens, values, htokens, hfills, ?_⟩
  rw [encode_eq_target, htokens]
  exact i.target.encode_of_fills (Catalog.base_wellSized i.target hbase).2 hfills

/-- An instruction of the catalog whose operands pass their check has a word. -/
theorem encode_of_check {labels : LabelTable} (hlabels : ∀ entry ∈ labels, 0 ≤ entry.2)
    {i : Instruction} (hmem : i ∈ Catalog.all) {operands : List Text}
    (hcheck : i.check labels operands = .ok none) :
    ∃ word, i.encode labels operands = .ok word := by
  obtain ⟨_, _, _, _, _, hencode⟩ := exists_fills_of_check hlabels hmem hcheck
  exact ⟨_, hencode⟩

end Instruction

/-! ## The range of words -/

/-- A value of a field's width above a number that fits the rest of the room fits the room. -/
theorem placed_bounds {field : Field} {room : Nat} (hhere : field.size.toNat ≤ room) {v rest : Int}
    (hnonneg : 0 ≤ v) (hfits : v < field.capacity) (hleast : 0 ≤ rest)
    (hgreatest : rest < Bits.twoPow (room - field.size.toNat)) :
    0 ≤ v * Bits.twoPow (room - field.size.toNat) + rest ∧
      v * Bits.twoPow (room - field.size.toNat) + rest < Bits.twoPow room := by
  have hpos := Bits.twoPow_pos (room - field.size.toNat)
  constructor
  · exact Int.add_nonneg (Int.mul_nonneg hnonneg (Int.le_of_lt hpos)) hleast
  · calc
      v * Bits.twoPow (room - field.size.toNat) + rest
          < v * Bits.twoPow (room - field.size.toNat) + Bits.twoPow (room - field.size.toNat) :=
        Int.add_lt_add_left hgreatest _
      _ = (v + 1) * Bits.twoPow (room - field.size.toNat) := by ring
      _ ≤ field.capacity * Bits.twoPow (room - field.size.toNat) :=
        Int.mul_le_mul_of_nonneg_right hfits (Int.le_of_lt hpos)
      _ = Bits.twoPow room := (Field.twoPow_eq_capacity_mul hhere).symm

/-- The values that a field can hold: those of its width, and zero alone if it is reserved. -/
structure Field.Holds (field : Field) (v : Int) : Prop where
  nonneg : 0 ≤ v
  fits : v < field.capacity
  reserved : field.takesOperand = false → v = 0

/-- Fields that are filled hold values of their widths. -/
theorem Fills.holds {labels : LabelTable} {fields : List Field} {operands : List Text}
    {values : List Int} (h : Fills labels fields operands values) :
    List.Forall₂ Field.Holds fields values := by
  induction h with
  | nil => exact .nil
  | operand htakes _ _ hnonneg hfits _ ih =>
      exact .cons ⟨hnonneg, hfits, fun hreserved => by simp [htakes] at hreserved⟩ ih
  | reserved _ _ _ ih => exact .cons ⟨Int.le_refl 0, Bits.twoPow_pos _, fun _ => rfl⟩ ih

/-- Values that fields can hold make a number that fits the room of the fields. -/
theorem place_bounds {fields : List Field} {values : List Int}
    (hholds : List.Forall₂ Field.Holds fields values) {room : Nat}
    (hroom : totalWidth fields ≤ room) :
    0 ≤ place fields values room ∧ place fields values room < Bits.twoPow room := by
  induction hholds generalizing room with
  | nil => exact ⟨Int.le_refl 0, Bits.twoPow_pos room⟩
  | @cons field v fields values hfield _ ih =>
      rw [totalWidth_cons] at hroom
      have hhere : field.size.toNat ≤ room := Nat.le_trans (Nat.le_add_right _ _) hroom
      obtain ⟨hleast, hgreatest⟩ := ih (Nat.le_sub_of_add_le' hroom)
      exact placed_bounds hhere hfield.nonneg hfield.fits hleast hgreatest

/-- The opcodes are the numbers from 0 to 13. -/
theorem Catalog.opcode_bounds : ∀ b ∈ base, 0 ≤ b.opcode ∧ b.opcode ≤ 13 := by
  decide

/-- The word of an instruction whose operands pass their check fits sixteen bits. -/
theorem Instruction.encode_bounds {labels : LabelTable}
    (hlabels : ∀ entry ∈ labels, 0 ≤ entry.2) {i : Instruction} (hmem : i ∈ Catalog.all)
    {operands : List Text} (hcheck : i.check labels operands = .ok none) {word : Int}
    (hencode : i.encode labels operands = .ok word) : 0 ≤ word ∧ word ≤ 65535 := by
  obtain ⟨hbase, tokens, values, _, hfills, hword⟩ :=
    Instruction.exists_fills_of_check hlabels hmem hcheck
  obtain rfl := Except.ok.inj (hword.symm.trans hencode)
  obtain ⟨hleast, hgreatest⟩ := Catalog.opcode_bounds i.target hbase
  obtain ⟨hnonneg, hfits⟩ : 0 ≤ place i.target.fields values 12 ∧
      place i.target.fields values 12 < 4096 :=
    place_bounds hfills.holds (Catalog.base_wellSized i.target hbase).2
  omega

end Rsc
