import Rsc.Proofs.Fields
import Rsc.Proofs.Spelling

/-!
# What operands stand for

A token names a register, a condition or a label, or it spells a number; no token does two of these.
A token that passes the check of a field that takes operands stands for exactly one value there,
which is the one that it is encoded as, and which fits the field. A reserved field passes every
token and is zero whatever the token.
-/

namespace Rsc

/-- The token is the name of a register: `r` in either case, and the index in decimal. A line feed
may follow. -/
def NamesRegister (token : Text) (index : Nat) : Prop :=
  index < 16 ∧ ∃ letter tail, (letter = 'r' ∨ letter = 'R') ∧ (tail = [] ∨ tail = ['\n']) ∧
    token = letter :: (Numeral.digits 10 index ++ tail)

/-- The token is, in any case, a name of the condition at an index. -/
def NamesCondition (token : Text) (index : Nat) : Prop :=
  ∃ names, flagAliases[index]? = some names ∧ Text.lower token ∈ names

/-- What a token stands for in a field of so many values: the index of a register, a number up to
multiples of the capacity, the index of a condition, or the address that a label is bound to. -/
inductive StandsFor (labels : LabelTable) (capacity : Int) (token : Text) : Int → Prop where
  | register {index : Nat} (hnames : NamesRegister token index) :
      StandsFor labels capacity token index
  | literal {n : Int} (hdenotes : Literal.Denotes token n) :
      StandsFor labels capacity token (n % capacity)
  | condition {index : Nat} (hnames : NamesCondition token index) :
      StandsFor labels capacity token index
  | label {name : Text} {target : Int} (htoken : token = '.' :: name)
      (hfind : labels.find? name = some target) : StandsFor labels capacity token target

/-! ## Registers -/

theorem registerIndex?_digits :
    ∀ index < 16, ∀ letter ∈ ['r', 'R'], ∀ tail ∈ [[], ['\n']],
      registerIndex? (letter :: (Numeral.digits 10 index ++ tail)) = some index := by
  decide

/-- One digit from 0 to 9 is the number of that digit. -/
theorem digits_of_digit {d : Char} (hleast : '0' ≤ d) (hgreatest : d ≤ '9') :
    [d] = Numeral.digits 10 (d.toNat - 48) := by
  have hleast : 48 ≤ d.toNat := hleast
  have hgreatest : d.toNat ≤ 57 := hgreatest
  have hlt : d.toNat - 48 < 10 := by omega
  have hchar : (Nat.digitChar (d.toNat - 48)).toNat = d.toNat := by
    rw [Nat.toNat_digitChar_of_lt_ten hlt]
    omega
  rw [Numeral.digits, Nat.toDigits_of_lt_base hlt, Char.toNat_inj.mp hchar]

theorem digits_of_teen {d : Char} (hleast : '0' ≤ d) (hgreatest : d ≤ '5') :
    ['1', d] = Numeral.digits 10 (d.toNat - 38) := by
  have hdigit := digits_of_digit hleast (Char.le_trans hgreatest (by decide))
  have hleast : 48 ≤ d.toNat := hleast
  have hgreatest : d.toNat ≤ 53 := hgreatest
  have hlt : d.toNat - 48 < 10 := by omega
  rw [Numeral.digits, Nat.toDigits_of_lt_base hlt] at hdigit
  rw [Numeral.digits, Nat.toDigits_eq_if (by decide), if_neg (by omega),
    show (d.toNat - 38) / 10 = 1 by omega, show (d.toNat - 38) % 10 = d.toNat - 48 by omega,
    ← hdigit]
  rfl

/-- A text is what is left of it without a line feed at its end, and that line feed if there is
one. -/
theorem exists_line_feed (t : Text) :
    ∃ tail, (tail = [] ∨ tail = ['\n']) ∧
      t = (if t.getLast? = some '\n' then t.dropLast else t) ++ tail := by
  split
  next hlast => exact ⟨['\n'], Or.inr rfl, (List.dropLast_append_getLast? '\n' hlast).symm⟩
  next => exact ⟨[], Or.inl rfl, (List.append_nil t).symm⟩

/-- The names that are read as registers are those of the grammar. -/
theorem registerIndex?_eq_some_iff {token : Text} {index : Nat} :
    registerIndex? token = some index ↔ NamesRegister token index := by
  constructor
  · intro h
    refine ⟨registerIndex?_lt h, ?_⟩
    cases token with
    | nil => cases h
    | cons letter t =>
        obtain ⟨tail, htail, ht⟩ := exists_line_feed t
        simp only [registerIndex?] at h
        generalize (if t.getLast? = some '\n' then t.dropLast else t) = body at h ht
        split at h
        next hletter =>
          refine ⟨letter, tail, hletter, htail, ?_⟩
          rw [ht]
          split at h
          next d =>
            split at h
            next hdigit =>
              obtain rfl := Option.some.inj h
              rw [← digits_of_digit hdigit.1 hdigit.2]
            next => cases h
          next d =>
            split at h
            next hdigit =>
              obtain rfl := Option.some.inj h
              rw [← digits_of_teen hdigit.1 hdigit.2]
            next => cases h
          next => cases h
        next => cases h
  · rintro ⟨hlt, letter, tail, hletter, htail, htoken⟩
    rw [htoken]
    exact registerIndex?_digits index hlt letter (by simpa using hletter) tail
      (by simpa using htail)

/-! ## Conditions -/

theorem findIdx?_flagAliases :
    ∀ group ∈ flagAliases.zipIdx, ∀ word ∈ group.1,
      (flagAliases.findIdx? fun names => names.contains word) = some group.2 := by
  decide

theorem flagIndex?_eq_some_iff {token : Text} {index : Nat} :
    flagIndex? token = some index ↔ NamesCondition token index := by
  constructor
  · intro h
    obtain ⟨hlt, hmem, _⟩ := List.findIdx?_eq_some_iff_getElem.mp h
    exact ⟨flagAliases[index], List.getElem?_eq_getElem hlt, by simpa using hmem⟩
  · intro ⟨names, hnames, hmem⟩
    exact findIdx?_flagAliases (names, index) (List.mem_zipIdx_iff_getElem?.mpr hnames) _ hmem

/-! ## No token is of two kinds -/

theorem NamesRegister.not_literal {token : Text} {index : Nat} (h : NamesRegister token index) :
    Literal.ofText? (Text.trim token) = none := by
  obtain ⟨_, letter, tail, hletter, _, rfl⟩ := h
  have hsolid : Text.isBlank letter = false := by
    rcases hletter with rfl | rfl <;> decide
  cases hliteral : Literal.ofText? _ with
  | none => rfl
  | some l =>
      obtain ⟨c, hc, hstart⟩ := Literal.head_of_ofText? hliteral
      rw [Text.head?_trim hsolid] at hc
      obtain rfl := Option.some.inj hc
      rcases hletter with rfl | rfl <;> exact absurd hstart (by decide)

theorem NamesRegister.not_condition {token : Text} {index : Nat} (h : NamesRegister token index) :
    flagIndex? token = none := by
  obtain ⟨_, letter, tail, hletter, _, rfl⟩ := h
  rcases hletter with rfl | rfl <;> simp [flagIndex?, flagAliases, Text.lower]

theorem registerIndex?_marker (t : Text) : registerIndex? ('.' :: t) = none := by
  simp [registerIndex?]

theorem registerIndex?_eq_none {token : Text} (h : ∀ index, ¬ NamesRegister token index) :
    registerIndex? token = none := by
  rw [Option.eq_none_iff_forall_ne_some]
  exact fun index hindex => h index (registerIndex?_eq_some_iff.mp hindex)

/-- The value that a token stands for, with its kinds tried one after the other. -/
def operandValue? (labels : LabelTable) (capacity : Int) (token : Text) : Option Int :=
  match registerIndex? token, Literal.ofText? (Text.trim token), flagIndex? token with
  | some index, _, _ => some index
  | none, some l, _ => some (l.value % capacity)
  | none, none, some index => some index
  | none, none, none =>
    match token with
    | '.' :: name => labels.find? name
    | _ => none

theorem StandsFor.operandValue?_eq {labels : LabelTable} {capacity : Int} {token : Text} {v : Int}
    (h : StandsFor labels capacity token v) : operandValue? labels capacity token = some v := by
  unfold operandValue?
  cases h with
  | register hnames =>
      rw [registerIndex?_eq_some_iff.mpr hnames]
  | literal hdenotes =>
      obtain ⟨negative, base, ds, hspells, rfl⟩ := hdenotes
      obtain ⟨digits, htext, rfl⟩ := Literal.spells_iff.mp hspells
      have hregister : registerIndex? token = none := registerIndex?_eq_none fun index hnames => by
        rw [hnames.not_literal] at htext
        cases htext
      rw [hregister, htext]
      dsimp only
      rw [Literal.value_eq_denoted]
  | condition hnames =>
      have hindex := flagIndex?_eq_some_iff.mpr hnames
      have hregister : registerIndex? token = none := registerIndex?_eq_none fun index hnames => by
        rw [hnames.not_condition] at hindex
        cases hindex
      rw [hregister, Literal.ofText?_of_flagIndex? hindex, hindex]
  | label htoken hfind =>
      rw [htoken, registerIndex?_marker, Literal.ofText?_marker, flagIndex?_marker]
      exact hfind

/-- An operand stands for one value only. -/
theorem StandsFor.unique {labels : LabelTable} {capacity : Int} {token : Text} {v w : Int}
    (hv : StandsFor labels capacity token v) (hw : StandsFor labels capacity token w) : v = w :=
  Option.some.inj (hv.operandValue?_eq.symm.trans hw.operandValue?_eq)

/-! ## Accepted operands -/

namespace Field

theorem standsFor_of_read {labels : LabelTable} {capacity : Int} {token : Text} {n v : Int}
    (hread : Literal.read token = .ok (some n)) (hv : v = n % capacity) :
    StandsFor labels capacity token v := by
  rw [hv]
  exact .literal ((Literal.denotes_iff_of_read hread).mpr rfl)

/-- What a token that passes is encoded as is what it stands for. -/
theorem standsFor_of_check {field : Field} (hsize : field.WellSized)
    (htakes : field.takesOperand = true) {labels : LabelTable} {token : Text}
    (hcheck : field.check labels token = .ok none) {v : Int}
    (hencode : field.encode labels token = .ok (some v)) (hleast : 0 ≤ v)
    (hfits : v < field.capacity) : StandsFor labels field.capacity token v := by
  have hmod : v = v % field.capacity := (Int.emod_eq_of_lt hleast hfits).symm
  cases field with
  | register =>
      cases hindex : registerIndex? token with
      | none => simp [check, hindex] at hcheck
      | some index =>
          obtain rfl : (index : Int) = v := by simpa [encode, hindex] using hencode
          exact .register (registerIndex?_eq_some_iff.mp hindex)
  | unsigned size => exact standsFor_of_read hencode hmod
  | signed size strict =>
      obtain ⟨n, hread, _, _⟩ := (check_signed_iff hsize).mp hcheck
      rw [encode_signed hsize strict hread, Bits.low_eq_emod] at hencode
      exact standsFor_of_read hread (Option.some.inj (Except.ok.inj hencode)).symm
  | blank size => cases htakes
  | address =>
      by_cases hmarker : token.head? = some '.'
      · obtain ⟨name, rfl⟩ := List.head?_eq_some_iff.mp hmarker
        obtain ⟨target, hfind, _⟩ := check_address_label_iff.mp hcheck
        rw [value_eq_ok_iff.mp (value_address_label hfind)] at hencode
        obtain rfl := Option.some.inj (Except.ok.inj hencode)
        exact .label rfl hfind
      · rw [encode_address_of_no_marker hmarker] at hencode
        exact standsFor_of_read hencode hmod
  | flag =>
      obtain ⟨value, hread, hpasses⟩ := check_flag_iff.mp hcheck
      cases hindex : flagIndex? token with
      | some index =>
          rw [encode_flag_of_index hindex] at hencode
          obtain rfl := Option.some.inj (Except.ok.inj hencode)
          exact .condition (flagIndex?_eq_some_iff.mp hindex)
      | none =>
          obtain ⟨n, rfl, _⟩ : ∃ n, value = some n ∧ 0 ≤ n ∧ n ≤ 3 := by
            simpa [hindex, within_eq_true_iff] using hpasses
          rw [encode_flag_of_literal hread] at hencode
          obtain rfl := Option.some.inj (Except.ok.inj hencode)
          exact standsFor_of_read hread hmod

/-- A token that passes the check of a field is encoded as a number that fits the field. In a field
that takes operands this is the one value that the token stands for, and in a reserved field it is
zero. -/
theorem encode_standsFor {field : Field} (hsize : field.WellSized) {labels : LabelTable}
    (hlabels : ∀ entry ∈ labels, 0 ≤ entry.2) {token : Text}
    (hcheck : field.check labels token = .ok none) :
    ∃ v, field.encode labels token = .ok (some v) ∧ 0 ≤ v ∧ v < field.capacity ∧
      (field.takesOperand = true → ∀ w, StandsFor labels field.capacity token w ↔ w = v) ∧
      (field.takesOperand = false → v = 0) := by
  obtain ⟨v, hvalue, hleast, hfits⟩ := value_of_check hsize hlabels hcheck
  have hencode := value_eq_ok_iff.mp hvalue
  refine ⟨v, hencode, hleast, hfits, ?_, ?_⟩
  · intro htakes w
    have hstands := standsFor_of_check hsize htakes hcheck hencode hleast hfits
    constructor
    · intro hw
      exact hw.unique hstands
    · intro hw
      rw [hw]
      exact hstands
  · intro htakes
    cases field with
    | blank size => exact (Option.some.inj (Except.ok.inj hencode)).symm
    | _ => cases htakes

/-- A jump target by name, with the address that the name is bound to. -/
theorem encode_standsFor_label :
    let labels : LabelTable := [("loop".toList, 7), ("end".toList, 1023)]
    (∀ entry ∈ labels, 0 ≤ entry.2) ∧ address.check labels ".end".toList = .ok none ∧
      ∃ v, address.encode labels ".end".toList = .ok (some v) ∧ 0 ≤ v ∧ v < address.capacity ∧
        (address.takesOperand = true →
          ∀ w, StandsFor labels address.capacity ".end".toList w ↔ w = v) ∧
        (address.takesOperand = false → v = 0) := by
  intro labels
  have hlabels : ∀ entry ∈ labels, 0 ≤ entry.2 := by decide
  have hcheck : address.check labels ".end".toList = .ok none := by decide
  have hsize : address.WellSized := trivial
  exact ⟨hlabels, hcheck, encode_standsFor hsize hlabels hcheck⟩

/-- A reserved field passes a literal and does not hold the value that it stands for. -/
theorem encode_blank_literal :
    (blank 4).WellSized ∧ (blank 4).check [] "5".toList = .ok none ∧
      (blank 4).encode [] "5".toList = .ok (some 0) ∧
      StandsFor [] (blank 4).capacity "5".toList 5 ∧
      ¬ StandsFor [] (blank 4).capacity "5".toList 0 := by
  have hread : Literal.read "5".toList = .ok (some 5) := by decide
  have hfive : StandsFor [] (blank 4).capacity "5".toList 5 := standsFor_of_read hread (by decide)
  refine ⟨by decide, rfl, rfl, hfive, ?_⟩
  intro hzero
  have heq := hfive.unique hzero
  omega

end Field

end Rsc
