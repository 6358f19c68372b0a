import Mathlib.Data.List.Basic
import Rsc.Instruction
import Rsc.Proofs.Literals
import Rsc.Proofs.Traversal

/-!
# Operands that fit their fields

Checking and encoding read an operand separately. A token that passes the check of a field has a
value in that field, and the value fits the width of the field. A check breaks down only on a
decimal literal that is too long to read.
-/

namespace Rsc

/-! ## Registers and conditions -/

/-- There are sixteen registers. -/
theorem registerIndex?_lt {t : Text} {index : Nat} (h : registerIndex? t = some index) :
    index < 16 := by
  cases t with
  | nil => cases h
  | cons r t =>
      simp only [registerIndex?] at h
      split at h
      next =>
        split at h
        next d _ =>
          split at h
          next hdigit =>
            have hle : d.toNat ≤ '9'.toNat := hdigit.2
            have hnine : '9'.toNat = 57 := rfl
            have hindex := Option.some.inj h
            omega
          next => cases h
        next d _ =>
          split at h
          next hdigit =>
            have hle : d.toNat ≤ '5'.toNat := hdigit.2
            have hfive : '5'.toNat = 53 := rfl
            have hindex := Option.some.inj h
            omega
          next => cases h
        next => cases h
      next => cases h

theorem flagIndex?_lt {t : Text} {index : Nat} (h : flagIndex? t = some index) : index < 4 := by
  obtain ⟨hlt, _⟩ := List.findIdx?_eq_some_iff_getElem.mp h
  exact hlt

/-- A label is no name of a condition. -/
theorem flagIndex?_marker (t : Text) : flagIndex? ('.' :: t) = none := by
  simp [flagIndex?, flagAliases, Text.lower]

/-- No name of a condition begins like a literal. -/
theorem head_of_mem_flagAliases : ∀ group ∈ flagAliases, ∀ word ∈ group,
    word.head?.all (fun c => !Text.isBlank c && c != '-' && c != '+' && !Numeral.isDigit 10 c) := by
  decide

/-- The name of a condition is no literal. -/
theorem Literal.ofText?_of_flagIndex? {t : Text} {index : Nat} (h : flagIndex? t = some index) :
    Literal.ofText? (Text.trim t) = none := by
  obtain ⟨hlt, hmem, _⟩ := List.findIdx?_eq_some_iff_getElem.mp h
  have hword : Text.lower t ∈ flagAliases[index] := by simpa using hmem
  have hheads := head_of_mem_flagAliases _ (List.getElem_mem hlt) _ hword
  -- Blanks, signs and digits are the same in lower case, so it is enough to look at the names.
  cases t with
  | nil => rfl
  | cons d t =>
      obtain ⟨⟨⟨hnoBlank, hnoMinus⟩, hnoPlus⟩, hnoDigit⟩ : ((Text.isBlank d.toLower = false ∧
          d.toLower ≠ '-') ∧ d.toLower ≠ '+') ∧ Numeral.isDigit 10 d.toLower = false := by
        simpa [Text.lower] using hheads
      have hblank : Text.isBlank d = false := by
        by_contra hblank
        have hsame : d.toLower = d := by
          apply Char.toLower_eq_self_of_lt
          simp only [Text.isBlank, Bool.not_eq_false, Bool.or_eq_true, Bool.and_eq_true,
            decide_eq_true_eq, beq_iff_eq] at hblank
          omega
        rw [hsame] at hnoBlank
        exact hblank hnoBlank
      cases hliteral : Literal.ofText? (Text.trim (d :: t)) with
      | none => rfl
      | some l =>
          obtain ⟨c, hc, hstart⟩ := Literal.head_of_ofText? hliteral
          rw [Text.head?_trim hblank] at hc
          obtain rfl := Option.some.inj hc
          have hsame : d.toLower = d := by
            apply Char.toLower_eq_self_of_lt
            rcases hstart with rfl | rfl | hdigit
            · decide
            · decide
            · exact Or.inl (toNat_lt_of_isDigit hdigit)
          rw [hsame] at hnoMinus hnoPlus hnoDigit
          rcases hstart with rfl | rfl | hdigit
          · exact absurd rfl hnoMinus
          · exact absurd rfl hnoPlus
          · exact absurd (hdigit.symm.trans hnoDigit) (by decide)

theorem Literal.read_of_flagIndex? {t : Text} {index : Nat} (h : flagIndex? t = some index) :
    Literal.read t = .ok none :=
  Literal.read_of_ofText? (Literal.ofText?_of_flagIndex? h)

theorem LabelTable.mem_of_find? {labels : LabelTable} {name : Text} {target : Int}
    (h : labels.find? name = some target) : (name, target) ∈ labels := by
  obtain ⟨before, after, rfl, _⟩ := List.lookup_eq_some_iff.mp h
  simp

/-! ## Widths -/

namespace Bits

theorem width_of_nonneg {n : Int} (h : 0 ≤ n) : width n = .ok n.toNat :=
  if_neg (Int.not_lt.mpr h)

theorem width_of_neg {n : Int} (h : n < 0) : width n = .error .negativeShift :=
  if_pos h

theorem width_natCast (n : Nat) : width n = .ok n :=
  width_of_nonneg (Int.natCast_nonneg n)

end Bits

namespace Field

/-- The widths that a field can have: none is negative, and a signed number has a sign bit. -/
def WellSized : Field → Prop
  | unsigned size => 0 ≤ size
  | signed size _ => 1 ≤ size
  | blank size => 0 ≤ size
  | _ => True

instance : DecidablePred WellSized
  | register => inferInstanceAs (Decidable True)
  | unsigned size => inferInstanceAs (Decidable (0 ≤ size))
  | signed size _ => inferInstanceAs (Decidable (1 ≤ size))
  | blank size => inferInstanceAs (Decidable (0 ≤ size))
  | address => inferInstanceAs (Decidable True)
  | flag => inferInstanceAs (Decidable True)

theorem size_nonneg {field : Field} (h : field.WellSized) : 0 ≤ field.size := by
  cases field with
  | register => decide
  | unsigned size => exact h
  | signed size strict => exact Int.le_trans (by decide) h
  | blank size => exact h
  | address => decide
  | flag => decide

theorem width_size {field : Field} (h : field.WellSized) :
    Bits.width field.size = .ok field.size.toNat :=
  Bits.width_of_nonneg (size_nonneg h)

/-- The number of values that a field of the width has. -/
def capacity (field : Field) : Int := Bits.twoPow field.size.toNat

/-- The greatest number that a signed field takes. -/
def signedGreatest (size : Int) (strict : Bool) : Int :=
  if strict then Bits.twoPow (size - 1).toNat - 1 else Bits.twoPow size.toNat - 1

theorem maxUnsigned_of_nonneg {size : Int} (hsize : 0 ≤ size) :
    Bits.maxUnsigned size = .ok (Bits.twoPow size.toNat - 1) := by
  rw [Bits.maxUnsigned, Bits.width_of_nonneg hsize]
  rfl

theorem signedBounds_of_pos {size : Int} (hsize : 1 ≤ size) (strict : Bool) :
    signedBounds size strict =
      .ok (-Bits.twoPow (size - 1).toNat, signedGreatest size strict) := by
  have hhalf : Bits.shiftLeft 1 (size - 1) = .ok (Bits.twoPow (size - 1).toNat) := by
    rw [Bits.shiftLeft, Bits.width_of_nonneg (by omega)]
    simp [bind, Except.bind, pure, Except.pure, Bits.raise]
  unfold signedBounds signedGreatest
  rw [hhalf, maxUnsigned_of_nonneg (by omega)]
  cases strict <;> rfl

/-! ## Numbers between two bounds

The number fields differ in their bounds and in how they refuse; each reads a literal and asks
whether it lies between the bounds. -/

/-- Reads a literal, and refuses one that does not lie between the bounds. -/
def checkWithin (least greatest : Int) (refusal : Except Fault (Option Rejection)) (token : Text) :
    Except Fault (Option Rejection) := do
  let value ← Literal.read token
  if within least greatest value then return none
  refusal

/-- Only a number that was read lies between bounds. -/
theorem within_eq_true_iff {least greatest : Int} {value : Option Int} :
    within least greatest value = true ↔ ∃ v, value = some v ∧ least ≤ v ∧ v ≤ greatest := by
  cases value <;> simp [within]

/-- A token passes if it is a literal between the bounds. -/
theorem checkWithin_eq_none_iff {least greatest : Int} {refusal : Except Fault (Option Rejection)}
    {token : Text} (hrefusal : refusal ≠ .ok none) :
    checkWithin least greatest refusal token = .ok none ↔
      ∃ v, Literal.read token = .ok (some v) ∧ least ≤ v ∧ v ≤ greatest := by
  unfold checkWithin
  rw [bind_eq_ok_iff]
  constructor
  · rintro ⟨value, hread, hvalue⟩
    split at hvalue
    next hwithin =>
      obtain ⟨v, rfl, hbounds⟩ := within_eq_true_iff.mp hwithin
      exact ⟨v, hread, hbounds⟩
    next => exact absurd hvalue hrefusal
  · rintro ⟨v, hread, hbounds⟩
    refine ⟨some v, hread, ?_⟩
    rw [if_pos (within_eq_true_iff.mpr ⟨v, rfl, hbounds⟩)]
    rfl

theorem checkWithin_eq_error_iff {least greatest : Int} {rejection : Rejection} {token : Text}
    {fault : Fault} :
    checkWithin least greatest (.ok (some rejection)) token = .error fault ↔
      Literal.read token = .error fault := by
  unfold checkWithin
  rw [bind_eq_error_iff]
  constructor
  · rintro (hread | ⟨value, _, hvalue⟩)
    · exact hread
    · split at hvalue <;> cases hvalue
  · exact Or.inl

theorem reject_ne_none (numbers : List Int) (rejection : Rejection) :
    reject numbers rejection ≠ .ok none := by
  unfold reject
  split <;> simp

theorem check_unsigned {size : Int} (hsize : 0 ≤ size) (labels : LabelTable) (token : Text) :
    (unsigned size).check labels token =
      checkWithin 0 (Bits.twoPow size.toNat - 1)
        (reject [size, Bits.twoPow size.toNat - 1] (.unsigned size (Bits.twoPow size.toNat - 1)))
        token := by
  unfold check checkWithin
  dsimp only
  rw [maxUnsigned_of_nonneg hsize]
  rfl

theorem check_signed {size : Int} (hsize : 1 ≤ size) (strict : Bool) (labels : LabelTable)
    (token : Text) :
    (signed size strict).check labels token =
      checkWithin (-Bits.twoPow (size - 1).toNat) (signedGreatest size strict)
        (reject [size, -Bits.twoPow (size - 1).toNat, signedGreatest size strict]
          (.signed strict size (-Bits.twoPow (size - 1).toNat) (signedGreatest size strict)))
        token := by
  unfold check checkWithin
  dsimp only
  rw [signedBounds_of_pos hsize]
  rfl

/-- An unsigned operand is a literal from zero up to the greatest value of its size. -/
theorem check_unsigned_iff {size : Int} (hsize : 0 ≤ size) {labels : LabelTable} {token : Text} :
    (unsigned size).check labels token = .ok none ↔
      ∃ v, Literal.read token = .ok (some v) ∧ 0 ≤ v ∧ v ≤ Bits.twoPow size.toNat - 1 := by
  rw [check_unsigned hsize, checkWithin_eq_none_iff (reject_ne_none _ _)]

/-- A signed operand goes down to the least value in two's complement; how far up it goes depends on
strictness. -/
theorem check_signed_iff {size : Int} (hsize : 1 ≤ size) {strict : Bool} {labels : LabelTable}
    {token : Text} :
    (signed size strict).check labels token = .ok none ↔
      ∃ v, Literal.read token = .ok (some v) ∧ -Bits.twoPow (size - 1).toNat ≤ v ∧
        v ≤ signedGreatest size strict := by
  rw [check_signed hsize, checkWithin_eq_none_iff (reject_ne_none _ _)]

/-- An address that does not begin with a label marker is a number of ten bits. -/
theorem check_address_of_no_marker {token : Text} (htoken : token.head? ≠ some '.')
    (labels : LabelTable) :
    address.check labels token = checkWithin 0 1023 (.ok (some (.address 1023))) token := by
  unfold check checkWithin
  dsimp only
  rw [maxUnsigned_of_nonneg (by decide)]
  split
  next name => simp at htoken
  next => rfl

theorem check_address_marker (labels : LabelTable) (name : Text) :
    address.check labels ('.' :: name) =
      match labels.find? name with
      | none => .ok (some (.undefinedLabel name))
      | some target =>
        if target ≤ 1023 then .ok none
        else reject [target] (.labelOutOfRange name target addressSize) := by
  unfold check
  dsimp only
  rw [maxUnsigned_of_nonneg (by decide)]
  rfl

/-- A label passes as an address when it is bound to an address of ten bits. -/
theorem check_address_label_iff {labels : LabelTable} {name : Text} :
    address.check labels ('.' :: name) = .ok none ↔
      ∃ target, labels.find? name = some target ∧ target ≤ 1023 := by
  rw [check_address_marker]
  cases labels.find? name with
  | none => simp
  | some target =>
      by_cases hle : target ≤ 1023
      · simp [hle]
      · simp [hle, reject_ne_none]

/-- A condition is given by number or by name, and is read as a literal in either case. -/
theorem check_flag_iff {labels : LabelTable} {token : Text} :
    flag.check labels token = .ok none ↔
      ∃ value, Literal.read token = .ok value ∧
        (within 0 3 value = true ∨ (flagIndex? token).isSome = true) := by
  unfold check
  dsimp only
  rw [bind_eq_ok_iff]
  constructor
  · rintro ⟨value, hread, hvalue⟩
    split at hvalue
    next hfits => exact ⟨value, hread, Bool.or_eq_true_iff.mp hfits⟩
    next => cases hvalue
  · rintro ⟨value, hread, hfits⟩
    refine ⟨value, hread, ?_⟩
    rw [if_pos (Bool.or_eq_true_iff.mpr hfits)]
    rfl

/-! ## Accepted operands -/

/-- A token has a value where it has a code. -/
theorem value_eq_ok_iff {labels : LabelTable} {token : Text} {field : Field} {v : Int} :
    field.value labels token = .ok v ↔ field.encode labels token = .ok (some v) := by
  unfold value
  rw [bind_eq_ok_iff]
  constructor
  · rintro ⟨found, hencode, hfound⟩
    cases found with
    | none => cases hfound
    | some w =>
        obtain rfl := Except.ok.inj hfound
        exact hencode
  · intro hencode
    exact ⟨some v, hencode, rfl⟩

theorem value_address_label {labels : LabelTable} {name : Text} {target : Int}
    (hfind : labels.find? name = some target) :
    address.value labels ('.' :: name) = .ok target := by
  rw [value_eq_ok_iff]
  simp [encode, hfind]

theorem encode_address_of_no_marker {token : Text} (htoken : token.head? ≠ some '.')
    (labels : LabelTable) : address.encode labels token = Literal.read token := by
  unfold encode
  dsimp only
  split
  next name => simp at htoken
  next => rfl

/-- A signed field holds the low bits of its number. -/
theorem encode_signed {size : Int} (hsize : 1 ≤ size) (strict : Bool) {labels : LabelTable}
    {token : Text} {v : Int} (hread : Literal.read token = .ok (some v)) :
    (signed size strict).encode labels token = .ok (some (Bits.low size.toNat v)) := by
  unfold encode
  dsimp only
  rw [hread, Bits.width_of_nonneg (by omega)]
  rfl

theorem encode_flag_of_index {labels : LabelTable} {token : Text} {index : Nat}
    (hindex : flagIndex? token = some index) :
    flag.encode labels token = .ok (some (index : Int)) := by
  unfold encode
  dsimp only
  rw [Literal.read_of_flagIndex? hindex, hindex]
  rfl

/-- A literal stands for the condition of that number, even where there is none. -/
theorem encode_flag_of_literal {labels : LabelTable} {token : Text} {v : Int}
    (hread : Literal.read token = .ok (some v)) :
    flag.encode labels token = .ok (some v) := by
  unfold encode
  dsimp only
  rw [hread]
  rfl

/-- A token that passes the check of a field has a value there, and the value fits the field. -/
theorem value_of_check {field : Field} {labels : LabelTable} {token : Text}
    (hsize : field.WellSized) (hlabels : ∀ entry ∈ labels, 0 ≤ entry.2)
    (hcheck : field.check labels token = .ok none) :
    ∃ v, field.value labels token = .ok v ∧ 0 ≤ v ∧ v < field.capacity := by
  simp only [value_eq_ok_iff]
  cases field with
  | register =>
      cases hindex : registerIndex? token with
      | none => simp [check, hindex] at hcheck
      | some index =>
          refine ⟨index, by simp [encode, hindex], Int.natCast_nonneg index, ?_⟩
          exact Int.ofNat_lt.mpr (registerIndex?_lt hindex)
  | unsigned size =>
      obtain ⟨v, hread, hleast, hgreatest⟩ := (check_unsigned_iff hsize).mp hcheck
      exact ⟨v, hread, hleast, Int.lt_of_le_sub_one hgreatest⟩
  | signed size strict =>
      obtain ⟨v, hread, _, _⟩ := (check_signed_iff hsize).mp hcheck
      exact ⟨_, encode_signed hsize strict hread, Bits.low_nonneg _ _, Bits.low_lt_twoPow _ _⟩
  | blank size => exact ⟨0, rfl, Int.le_refl 0, Bits.twoPow_pos _⟩
  | address =>
      by_cases hmarker : token.head? = some '.'
      · obtain ⟨name, rfl⟩ := List.head?_eq_some_iff.mp hmarker
        obtain ⟨target, hfind, hle⟩ := check_address_label_iff.mp hcheck
        refine ⟨target, value_eq_ok_iff.mp (value_address_label hfind), ?_, ?_⟩
        · exact hlabels (name, target) (LabelTable.mem_of_find? hfind)
        · exact Int.lt_of_le_sub_one hle
      · rw [check_address_of_no_marker hmarker, checkWithin_eq_none_iff (by simp)] at hcheck
        obtain ⟨v, hread, hleast, hgreatest⟩ := hcheck
        refine ⟨v, ?_, hleast, Int.lt_of_le_sub_one hgreatest⟩
        rw [encode_address_of_no_marker hmarker, hread]
  | flag =>
      obtain ⟨value, hread, hfits⟩ := check_flag_iff.mp hcheck
      cases hindex : flagIndex? token with
      | some index =>
          refine ⟨index, encode_flag_of_index hindex, Int.natCast_nonneg index, ?_⟩
          exact Int.ofNat_lt.mpr (flagIndex?_lt hindex)
      | none =>
          obtain ⟨v, rfl, hleast, hgreatest⟩ : ∃ v, value = some v ∧ 0 ≤ v ∧ v ≤ 3 := by
            simpa [hindex, within_eq_true_iff] using hfits
          exact ⟨v, encode_flag_of_literal hread, hleast, Int.lt_of_le_sub_one hgreatest⟩

/-! ## Checks that break down -/

/-- Whether the field reads the token as a literal. -/
def readsLiteral (token : Text) : Field → Bool
  | unsigned _ | signed _ _ | flag => true
  | address => token.head? != some '.'
  | register | blank _ => false

theorem lt_pow_of_le {n limit : Nat} (h : n ≤ 65536) (hlimit : 5 ≤ limit) :
    n < Nat.pow 10 limit :=
  calc
    n ≤ 65536 := h
    _ < Nat.pow 10 5 := by decide
    _ ≤ Nat.pow 10 limit := Nat.pow_le_pow_right (by decide) hlimit

/-- Numbers up to 65536 are short enough to be written. -/
theorem writable_of_natAbs_le {n : Int} (h : n.natAbs ≤ 65536) : Numeral.writable n = true :=
  decide_eq_true (lt_pow_of_le h (by decide))

theorem reject_of_writable {numbers : List Int} (rejection : Rejection)
    (h : ∀ n ∈ numbers, n.natAbs ≤ 65536) : reject numbers rejection = .ok (some rejection) := by
  unfold reject
  rw [if_pos (List.all_eq_true.mpr fun n hn => writable_of_natAbs_le (h n hn))]

theorem twoPow_le_of_le (size : Nat) (h : size ≤ 16) : Bits.twoPow size ≤ 65536 := by
  have hpow : Nat.pow 2 size ≤ Nat.pow 2 16 := Nat.pow_le_pow_right (by decide) h
  exact Int.ofNat_le.mpr hpow

/-- A check breaks down only where the field reads a literal, and then as the reading does. -/
theorem check_eq_error_iff {field : Field} {labels : LabelTable} {token : Text} {fault : Fault}
    (hsize : field.WellSized) (hsmall : field.size ≤ 16)
    (hlabels : ∀ entry ∈ labels, entry.2.natAbs ≤ 65536) :
    field.check labels token = .error fault ↔
      field.readsLiteral token = true ∧ Literal.read token = .error fault := by
  cases field with
  | register =>
      have hnever : register.check labels token ≠ .error fault := by
        unfold check
        dsimp only
        split <;> simp
      simp [hnever, readsLiteral]
  | unsigned size =>
      have hsize : 0 ≤ size := hsize
      have hsmall : size ≤ 16 := hsmall
      have hcapacity := twoPow_le_of_le size.toNat (by omega)
      have hpos := Bits.twoPow_pos size.toNat
      rw [check_unsigned hsize, reject_of_writable, checkWithin_eq_error_iff]
      · simp [readsLiteral]
      · simp only [List.forall_mem_cons, List.not_mem_nil, false_imp_iff, implies_true, and_true]
        omega
  | signed size strict =>
      have hsize : 1 ≤ size := hsize
      have hsmall : size ≤ 16 := hsmall
      have hcapacity := twoPow_le_of_le size.toNat (by omega)
      have hpos := Bits.twoPow_pos size.toNat
      have hhalf := twoPow_le_of_le (size - 1).toNat (by omega)
      have hhalfpos := Bits.twoPow_pos (size - 1).toNat
      rw [check_signed hsize, reject_of_writable, checkWithin_eq_error_iff]
      · simp [readsLiteral]
      · simp only [signedGreatest, List.forall_mem_cons, List.not_mem_nil, false_imp_iff,
          implies_true, and_true]
        split <;> omega
  | blank size => simp [check, readsLiteral]
  | address =>
      by_cases hmarker : token.head? = some '.'
      · obtain ⟨name, rfl⟩ := List.head?_eq_some_iff.mp hmarker
        rw [check_address_marker]
        cases hfind : labels.find? name with
        | none => simp [readsLiteral]
        | some target =>
            have htarget := hlabels _ (LabelTable.mem_of_find? hfind)
            have hreject : reject [target] (.labelOutOfRange name target addressSize) =
                .ok (some (.labelOutOfRange name target addressSize)) :=
              reject_of_writable _ (by simpa using htarget)
            by_cases hle : target ≤ 1023
            · simp [hle, readsLiteral]
            · simp [hle, hreject, readsLiteral]
      · rw [check_address_of_no_marker hmarker, checkWithin_eq_error_iff]
        simp [readsLiteral, hmarker]
  | flag =>
      have hsplit : flag.check labels token = .error fault ↔ Literal.read token = .error fault := by
        unfold check
        dsimp only
        rw [bind_eq_error_iff]
        constructor
        · rintro (hread | ⟨value, _, hvalue⟩)
          · exact hread
          · split at hvalue <;> cases hvalue
        · exact Or.inl
      rw [hsplit]
      simp [readsLiteral]

/-! ## Which fields look at labels -/

/-- Only addresses depend on the label table. -/
theorem check_congr {field : Field} (hfield : field ≠ address) (labels labels' : LabelTable)
    (token : Text) : field.check labels token = field.check labels' token := by
  cases field with
  | address => exact absurd rfl hfield
  | _ => rfl

/-- Only address fields look at the table. -/
theorem value_congr {field : Field} (hfield : field ≠ address) (labels labels' : LabelTable)
    (token : Text) : field.value labels token = field.value labels' token := by
  cases field with
  | address => exact absurd rfl hfield
  | _ => rfl

/-- A token without a marker means the same under every table. -/
theorem congr_of_no_marker {token : Text} (hmarker : token.head? ≠ some '.') (field : Field)
    (labels labels' : LabelTable) :
    field.check labels token = field.check labels' token ∧
      field.value labels token = field.value labels' token := by
  by_cases hfield : field = address
  · subst hfield
    rw [check_address_of_no_marker hmarker, check_address_of_no_marker hmarker]
    refine ⟨rfl, ?_⟩
    unfold value
    rw [encode_address_of_no_marker hmarker, encode_address_of_no_marker hmarker]
  · exact ⟨check_congr hfield labels labels' token, value_congr hfield labels labels' token⟩

end Field

end Rsc
