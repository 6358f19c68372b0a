import Mathlib.Data.List.Forall2
import Mathlib.Data.Nat.Digits.Defs
import Rsc.Proofs.Numerals

/-!
# How literals are spelt

A literal is spelt as a sign or none, the marker of a base or none, and digits of that base. Reading
accepts exactly the texts that are spelt in this way between blanks, and gives the sign times the
positional value of the digits. It breaks down on the decimal ones that have too many digits, and
nowhere else, so a number that is written out in any base is read back.
-/

namespace Rsc

namespace Literal

/-- How a sign is spelt. -/
inductive SpellsSign : Bool → Text → Prop where
  | plain : SpellsSign false []
  | plus : SpellsSign false ['+']
  | minus : SpellsSign true ['-']

/-- How a base is announced: by a zero and a letter in either case, and decimal by nothing. -/
inductive SpellsBase : Nat → Text → Prop where
  | hexadecimal {letter : Char} (hletter : letter = 'x' ∨ letter = 'X') :
      SpellsBase 16 ['0', letter]
  | binary {letter : Char} (hletter : letter = 'b' ∨ letter = 'B') : SpellsBase 2 ['0', letter]
  | octal {letter : Char} (hletter : letter = 'o' ∨ letter = 'O') : SpellsBase 8 ['0', letter]
  | decimal : SpellsBase 10 []

/-- The character is the digit `d` of the base, with a letter in either case. -/
def SpellsDigit (base d : Nat) (c : Char) : Prop :=
  d < base ∧ (c = Nat.digitChar d ∨ c = (Nat.digitChar d).toUpper)

/-- The text is a sign, the marker of a base, and the digits `ds` of the base, at least one. -/
inductive Spells (negative : Bool) (base : Nat) (ds : List Nat) : Text → Prop where
  | intro {sign marker digits : Text} (hsign : SpellsSign negative sign)
      (hmarker : SpellsBase base marker) (hsome : ds ≠ [])
      (hdigits : List.Forall₂ (SpellsDigit base) ds digits) :
      Spells negative base ds (sign ++ (marker ++ digits))

/-- The sign times the positional value of the digits, of which the first counts most. -/
def denoted (negative : Bool) (base : Nat) (ds : List Nat) : Int :=
  (if negative then -1 else 1) * (Nat.ofDigits base ds.reverse : Nat)

/-- The number that a text between blanks denotes as a literal. -/
def Denotes (t : Text) (n : Int) : Prop :=
  ∃ negative base ds, Spells negative base ds (Text.trim t) ∧ n = denoted negative base ds

/-- A number written in a base: a minus sign if it is negative, the marker of the base, any number
of zeros, and the digits of the number with small or with capital letters. -/
def written (capitals : Bool) (marker : Text) (base zeros : Nat) (n : Int) : Text :=
  let digits := Numeral.digits base n.natAbs
  (if n < 0 then ['-'] else []) ++
    (marker ++ (List.replicate zeros '0' ++ if capitals then digits.map Char.toUpper else digits))

end Literal

/-! ## Digits -/

namespace Numeral

theorem digitValue?_toUpper_digitChar :
    ∀ d < 16, digitValue? (Nat.digitChar d).toUpper = some d := by
  decide

theorem toUpper_toUpper_digitChar :
    ∀ d < 16, (Nat.digitChar d).toUpper.toUpper = (Nat.digitChar d).toUpper := by
  decide

theorem toNat_digitChar_of_le :
    ∀ d < 16, 10 ≤ d → (Nat.digitChar d).toNat = d + 87 ∧
      (Nat.digitChar d).toUpper.toNat = d + 55 := by
  decide

end Numeral

namespace Literal

theorem SpellsSign.not_blank {negative : Bool} {sign : Text} (h : SpellsSign negative sign) :
    ∀ c ∈ sign, Text.isBlank c = false := by
  cases h <;> decide

theorem SpellsBase.not_blank {base : Nat} {marker : Text} (h : SpellsBase base marker) :
    ∀ c ∈ marker, Text.isBlank c = false := by
  cases h with
  | hexadecimal hletter => rcases hletter with rfl | rfl <;> decide
  | binary hletter => rcases hletter with rfl | rfl <;> decide
  | octal hletter => rcases hletter with rfl | rfl <;> decide
  | decimal => simp

theorem SpellsBase.one_lt {base : Nat} {marker : Text} (h : SpellsBase base marker) :
    1 < base := by
  cases h <;> decide

theorem SpellsBase.le_sixteen {base : Nat} {marker : Text} (h : SpellsBase base marker) :
    base ≤ 16 := by
  cases h <;> decide

/-- A character spells a digit if it has its value. -/
theorem spellsDigit_iff {base d : Nat} {c : Char} (hbase : base ≤ 16) :
    SpellsDigit base d c ↔ Numeral.digitValue? c = some d ∧ d < base := by
  constructor
  · intro ⟨hlt, hc⟩
    have hlt' : d < 16 := Nat.lt_of_lt_of_le hlt hbase
    rcases hc with rfl | rfl
    · exact ⟨Numeral.digitValue?_digitChar d hlt', hlt⟩
    · exact ⟨Numeral.digitValue?_toUpper_digitChar d hlt', hlt⟩
  · intro ⟨hvalue, hlt⟩
    refine ⟨hlt, ?_⟩
    rcases Numeral.range_of_digitValue? hvalue with hdigit | hsmall | hcapital
    · have hchar := Nat.toNat_digitChar_of_lt_ten (n := d) (by omega)
      exact Or.inl (Char.toNat_inj.mp (by omega))
    · have hchar := Numeral.toNat_digitChar_of_le d (by omega) (by omega)
      exact Or.inl (Char.toNat_inj.mp (by omega))
    · have hchar := Numeral.toNat_digitChar_of_le d (by omega) (by omega)
      exact Or.inr (Char.toNat_inj.mp (by omega))

/-- The values of digits, each on its own. -/
def digitValues (text : Text) : List Nat := text.map fun c => (Numeral.digitValue? c).getD 0

/-- The value of a text is that of its digits, the last one being the lowest. -/
theorem value_eq_ofDigits (base : Nat) (text : Text) :
    Numeral.value base text = Nat.ofDigits base (digitValues text).reverse := by
  induction text using List.reverseRecOn with
  | nil => rfl
  | append_singleton text c ih =>
      have hlast : digitValues (text ++ [c]) =
          digitValues text ++ [(Numeral.digitValue? c).getD 0] := List.map_append
      rw [Numeral.value_append_digit, ih, hlast, List.reverse_concat, Nat.ofDigits_cons,
        Nat.add_comm, Nat.mul_comm]

/-- A text spells the values of its characters, if all of them are digits. -/
theorem forall₂_spellsDigit_iff {base : Nat} (hbase : base ≤ 16) {ds : List Nat} {text : Text} :
    List.Forall₂ (SpellsDigit base) ds text ↔
      ds = digitValues text ∧ ∀ c ∈ text, Numeral.isDigit base c = true := by
  induction text generalizing ds with
  | nil => simp [digitValues]
  | cons c text ih =>
      cases ds with
      | nil => simp [digitValues]
      | cons d ds =>
          rw [List.forall₂_cons, spellsDigit_iff hbase, ih, List.forall_mem_cons,
            Numeral.isDigit_iff]
          simp only [digitValues, List.map_cons, List.cons.injEq]
          constructor
          · intro ⟨⟨hvalue, hlt⟩, htail, hdigits⟩
            exact ⟨⟨by simp [hvalue], htail⟩, ⟨d, hvalue, hlt⟩, hdigits⟩
          · intro ⟨⟨hd, htail⟩, ⟨d', hvalue, hlt⟩, hdigits⟩
            obtain rfl : d = d' := by simpa [hvalue] using hd
            exact ⟨⟨hvalue, hlt⟩, htail, hdigits⟩

theorem length_digitValues (text : Text) : (digitValues text).length = text.length :=
  List.length_map _

/-! ## The grammar and the reader -/

/-- There are digits, and all of them are digits of the base. -/
structure WellFormed (l : Literal) : Prop where
  some : l.digits ≠ []
  digits : ∀ c ∈ l.digits, Numeral.isDigit l.base c = true

theorem ofDigits?_eq_some_iff {negative : Bool} {base : Nat} {ds : Text} {l : Literal} :
    ofDigits? negative base ds = some l ↔ l = ⟨negative, base, ds⟩ ∧ l.WellFormed := by
  unfold ofDigits?
  constructor
  · intro h
    split at h
    next hds =>
      obtain rfl := Option.some.inj h
      rw [Bool.and_eq_true, List.all_eq_true] at hds
      exact ⟨rfl, by simpa using hds.1, hds.2⟩
    next => cases h
  · intro ⟨hl, hsome, hdigits⟩
    subst hl
    rw [if_pos]
    simpa [hsome] using hdigits

theorem ofUnsigned?_eq_some_iff {negative : Bool} {t : Text} {l : Literal} :
    ofUnsigned? negative t = some l ↔
      l.negative = negative ∧ l.WellFormed ∧
        ∃ marker, SpellsBase l.base marker ∧ t = marker ++ l.digits := by
  constructor
  · intro h
    -- one case for each marker in each case, and the last for decimal
    unfold ofUnsigned? at h
    split at h <;> obtain ⟨rfl, hl⟩ := ofDigits?_eq_some_iff.mp h
    · exact ⟨rfl, hl, _, .hexadecimal (Or.inl rfl), rfl⟩
    · exact ⟨rfl, hl, _, .hexadecimal (Or.inr rfl), rfl⟩
    · exact ⟨rfl, hl, _, .binary (Or.inl rfl), rfl⟩
    · exact ⟨rfl, hl, _, .binary (Or.inr rfl), rfl⟩
    · exact ⟨rfl, hl, _, .octal (Or.inl rfl), rfl⟩
    · exact ⟨rfl, hl, _, .octal (Or.inr rfl), rfl⟩
    · exact ⟨rfl, hl, _, .decimal, rfl⟩
  · intro ⟨hnegative, hl, marker, hmarker, ht⟩
    obtain ⟨negative', base, ds⟩ := l
    subst hnegative ht
    have hread := ofDigits?_eq_some_iff.mpr ⟨rfl, hl⟩
    cases hmarker with
    | hexadecimal hletter => rcases hletter with rfl | rfl <;> exact hread
    | binary hletter => rcases hletter with rfl | rfl <;> exact hread
    | octal hletter => rcases hletter with rfl | rfl <;> exact hread
    | decimal => exact ofUnsigned?_of_digits negative' hl.some hl.digits

/-- A literal is a sign, a base marker and digits of that base, in this order. -/
theorem ofText?_eq_some_iff {t : Text} {l : Literal} :
    ofText? t = some l ↔
      l.WellFormed ∧ ∃ sign marker, SpellsSign l.negative sign ∧ SpellsBase l.base marker ∧
        t = sign ++ (marker ++ l.digits) := by
  constructor
  · intro h
    unfold ofText? at h
    split at h <;>
      obtain ⟨hnegative, hl, marker, hmarker, rfl⟩ := ofUnsigned?_eq_some_iff.mp h
    · exact ⟨hl, ['-'], marker, hnegative ▸ .minus, hmarker, rfl⟩
    · exact ⟨hl, ['+'], marker, hnegative ▸ .plus, hmarker, rfl⟩
    · exact ⟨hl, [], marker, hnegative ▸ .plain, hmarker, rfl⟩
  · intro ⟨hl, sign, marker, hsign, hmarker, ht⟩
    obtain ⟨negative, base, ds⟩ := l
    have hread : ofUnsigned? negative (marker ++ ds) = some ⟨negative, base, ds⟩ :=
      ofUnsigned?_eq_some_iff.mpr ⟨rfl, hl, marker, hmarker, rfl⟩
    subst ht
    cases hsign with
    | plus => exact hread
    | minus => exact hread
    | plain =>
        -- without a sign the text begins with a digit, so none is taken off it
        obtain ⟨c, hc, hdigit⟩ := head_of_ofUnsigned? hread
        obtain ⟨rest, hrest⟩ := List.head?_eq_some_iff.mp hc
        rw [hrest] at hread
        rw [List.nil_append, hrest]
        unfold ofText?
        split
        next heq =>
          obtain ⟨rfl, rfl⟩ := List.cons.inj heq
          exact absurd hdigit (by decide)
        next heq =>
          obtain ⟨rfl, rfl⟩ := List.cons.inj heq
          exact absurd hdigit (by decide)
        next => exact hread

/-- The grammar says which texts are literals, and which digits they have. -/
theorem spells_iff {negative : Bool} {base : Nat} {ds : List Nat} {t : Text} :
    Spells negative base ds t ↔
      ∃ digits, ofText? t = some ⟨negative, base, digits⟩ ∧ ds = digitValues digits := by
  constructor
  · intro h
    cases h with
    | @intro sign marker digits hsign hmarker hsome hdigits =>
        obtain ⟨rfl, hall⟩ := (forall₂_spellsDigit_iff hmarker.le_sixteen).mp hdigits
        have hne : digits ≠ [] := fun hnil => hsome (by rw [hnil]; rfl)
        refine ⟨digits, ?_, rfl⟩
        exact ofText?_eq_some_iff.mpr ⟨⟨hne, hall⟩, sign, marker, hsign, hmarker, rfl⟩
  · intro ⟨digits, htext, hds⟩
    obtain ⟨hl, sign, marker, hsign, hmarker, rfl⟩ := ofText?_eq_some_iff.mp htext
    have hdigits := (forall₂_spellsDigit_iff hmarker.le_sixteen).mpr ⟨hds, hl.digits⟩
    refine .intro hsign hmarker ?_ hdigits
    intro hnil
    rw [hnil] at hdigits
    exact hl.some (List.forall₂_nil_left_iff.mp hdigits)

/-- The value of a literal is what its sign, base and digits denote. -/
theorem value_eq_denoted (negative : Bool) (base : Nat) (digits : Text) :
    value ⟨negative, base, digits⟩ = denoted negative base (digitValues digits) := by
  rw [denoted, ← value_eq_ofDigits, value]
  cases negative <;> simp

/-- A text reads as no number if the grammar does not spell it. -/
theorem read_eq_none_iff {t : Text} :
    read t = .ok none ↔ ∀ negative base ds, ¬ Spells negative base ds (Text.trim t) := by
  simp only [spells_iff]
  unfold read
  cases htext : ofText? (Text.trim t) with
  | none => simp
  | some l =>
      obtain ⟨negative, base, digits⟩ := l
      dsimp only
      constructor
      · intro h
        split at h <;> cases h
      · intro h
        exact (h negative base _ ⟨digits, rfl, rfl⟩).elim

/-- What the grammar spells is read as the number that it denotes, unless it is too long. -/
theorem read_of_spells {negative : Bool} {base : Nat} {ds : List Nat} {t : Text}
    (h : Spells negative base ds (Text.trim t))
    (hlength : base = 10 → ds.length ≤ Numeral.decimalLimit) :
    read t = .ok (some (denoted negative base ds)) := by
  obtain ⟨digits, htext, rfl⟩ := spells_iff.mp h
  rw [length_digitValues] at hlength
  unfold read
  rw [htext]
  dsimp only
  rw [if_neg, value_eq_denoted]
  intro ⟨hbase, hlong⟩
  exact Nat.not_lt.mpr (hlength hbase) hlong

/-- Reading is a fault only for decimal spellings that are too long. -/
theorem read_eq_error_iff_spells {t : Text} {fault : Fault} :
    read t = .error fault ↔
      ∃ negative ds, Spells negative 10 ds (Text.trim t) ∧ Numeral.decimalLimit < ds.length ∧
        fault = .literalTooLong ds.length := by
  rw [read_eq_error_iff]
  constructor
  · intro ⟨l, htext, hbase, hlong, hfault⟩
    obtain ⟨negative, base, digits⟩ := l
    obtain rfl : base = 10 := hbase
    refine ⟨negative, digitValues digits, spells_iff.mpr ⟨digits, htext, rfl⟩, ?_⟩
    rw [length_digitValues]
    exact ⟨hlong, hfault⟩
  · intro ⟨negative, ds, hspells, hlong, hfault⟩
    obtain ⟨digits, htext, rfl⟩ := spells_iff.mp hspells
    rw [length_digitValues] at hlong hfault
    exact ⟨⟨negative, 10, digits⟩, htext, rfl, hlong, hfault⟩

/-- A text that is read denotes the number that is read, and no other. -/
theorem denotes_iff_of_read {t : Text} {m n : Int} (hread : read t = .ok (some m)) :
    Denotes t n ↔ n = m := by
  have hreads : ∀ negative base ds, Spells negative base ds (Text.trim t) →
      m = denoted negative base ds := by
    intro negative base ds hspells
    obtain ⟨digits, htext, rfl⟩ := spells_iff.mp hspells
    rw [← value_eq_denoted]
    exact Option.some.inj (eq_value_of_read htext hread)
  constructor
  · intro ⟨negative, base, ds, hspells, hn⟩
    rw [hn, hreads negative base ds hspells]
  · intro hn
    by_contra hnone
    have hnil : read t = .ok none := read_eq_none_iff.mpr fun negative base ds hspells =>
      hnone ⟨negative, base, ds, hspells, hn.trans (hreads negative base ds hspells)⟩
    rw [hread] at hnil
    cases hnil

/-! ## Numbers written out -/

/-- There are no blanks in a literal. -/
theorem Spells.trim {negative : Bool} {base : Nat} {ds : List Nat} {t : Text}
    (h : Spells negative base ds t) : Text.trim t = t := by
  obtain ⟨digits, htext, _⟩ := spells_iff.mp h
  obtain ⟨hl, sign, marker, hsign, hmarker, rfl⟩ := ofText?_eq_some_iff.mp htext
  apply Text.trim_of_no_blank
  intro c hc
  rcases List.mem_append.mp hc with hc | hc
  · exact hsign.not_blank c hc
  · rcases List.mem_append.mp hc with hc | hc
    · exact hmarker.not_blank c hc
    · exact Numeral.not_blank_of_isDigit (hl.digits c hc)

/-- The digits of a number spell it, with small letters and with capital ones. -/
theorem exists_spelt_digits (capitals : Bool) {base : Nat} (hone : 1 < base) (hbase : base ≤ 16)
    (n : Nat) :
    ∃ ds, List.Forall₂ (SpellsDigit base) ds
        (if capitals then (Numeral.digits base n).map Char.toUpper else Numeral.digits base n) ∧
      ds.length = (Numeral.digits base n).length ∧ Nat.ofDigits base ds.reverse = n := by
  have hsmall : List.Forall₂ (SpellsDigit base) (digitValues (Numeral.digits base n))
      (Numeral.digits base n) :=
    (forall₂_spellsDigit_iff hbase).mpr ⟨rfl, Numeral.isDigit_of_mem_digits hone hbase n⟩
  refine ⟨_, ?_, length_digitValues _, ?_⟩
  · cases capitals with
    | false => exact hsmall
    | true =>
        rw [if_pos rfl, List.forall₂_map_right_iff]
        apply hsmall.imp
        intro d c ⟨hlt, hc⟩
        refine ⟨hlt, Or.inr ?_⟩
        rcases hc with rfl | rfl
        · rfl
        · exact Numeral.toUpper_toUpper_digitChar d (Nat.lt_of_lt_of_le hlt hbase)
  · rw [← value_eq_ofDigits, Numeral.value_digits hone hbase]

/-- A number that is written out is a literal that denotes it. -/
theorem exists_spells_written (capitals : Bool) {marker : Text} {base : Nat}
    (hmarker : SpellsBase base marker) (zeros : Nat) (n : Int) :
    ∃ ds, Spells (decide (n < 0)) base ds (written capitals marker base zeros n) ∧
      ds.length = zeros + (Numeral.digits base n.natAbs).length ∧
      denoted (decide (n < 0)) base ds = n := by
  obtain ⟨ds, hdigits, hlength, hvalue⟩ :=
    exists_spelt_digits capitals hmarker.one_lt hmarker.le_sixteen n.natAbs
  have hzero : SpellsDigit base 0 '0' :=
    ⟨Nat.lt_trans Nat.zero_lt_one hmarker.one_lt, Or.inl rfl⟩
  have hzeros : List.Forall₂ (SpellsDigit base) (List.replicate zeros 0)
      (List.replicate zeros '0') :=
    List.forall₂_iff_get.mpr ⟨by simp, by simpa using fun _ _ => hzero⟩
  refine ⟨List.replicate zeros 0 ++ ds, ?_, by simp [hlength], ?_⟩
  · refine .intro ?_ hmarker ?_ (List.rel_append hzeros hdigits)
    · split
      next hneg => rw [decide_eq_true hneg]; exact .minus
      next hnonneg => rw [decide_eq_false hnonneg]; exact .plain
    · intro hnil
      have hds : ds.length = 0 := by simp [(List.append_eq_nil_iff.mp hnil).2]
      rw [hlength] at hds
      exact Nat.toDigits_ne_nil (List.length_eq_zero_iff.mp hds)
  · rw [denoted, List.reverse_append, List.reverse_replicate, Nat.ofDigits_append_replicate_zero,
      hvalue]
    by_cases hneg : n < 0
    · simp only [hneg, decide_true, if_true]
      omega
    · simp only [hneg, decide_false, Bool.false_eq_true, if_false]
      omega

/-- Every number is read back from each of its spellings. -/
theorem read_written (capitals : Bool) {marker : Text} {base : Nat}
    (hmarker : SpellsBase base marker) (zeros : Nat) (n : Int)
    (hlength : base = 10 → zeros + (Numeral.digits base n.natAbs).length ≤ Numeral.decimalLimit) :
    read (written capitals marker base zeros n) = .ok (some n) := by
  obtain ⟨ds, hspells, hds, hdenoted⟩ := exists_spells_written capitals hmarker zeros n
  rw [read_of_spells, hdenoted]
  · rw [hspells.trim]
    exact hspells
  · rw [hds]
    exact hlength

/-! ## What reading gives -/

/-- What is read between blanks is exactly what the grammar spells: everything else is no literal,
the decimal literals beyond the limit are a fault, and all others give the number they denote. In
particular a number is read back from any base, with any leading zeros that the limit allows. -/
theorem read_spelling :
    (∀ t : Text,
      (read t = .ok none ↔ ∀ negative base ds, ¬ Spells negative base ds (Text.trim t)) ∧
      (∀ fault, read t = .error fault ↔ ∃ negative ds, Spells negative 10 ds (Text.trim t) ∧
        4300 < ds.length ∧ fault = .literalTooLong ds.length) ∧
      ∀ negative base ds, Spells negative base ds (Text.trim t) →
        (base = 10 → ds.length ≤ 4300) → read t = .ok (some (denoted negative base ds))) ∧
    ∀ (n : Int) (base : Nat) (marker : Text) (capitals : Bool) (zeros : Nat),
      SpellsBase base marker →
      (base = 10 → zeros + (Numeral.digits base n.natAbs).length ≤ 4300) →
        read (written capitals marker base zeros n) = .ok (some n) := by
  refine ⟨?_, ?_⟩
  · intro t
    refine ⟨read_eq_none_iff, fun fault => read_eq_error_iff_spells, ?_⟩
    intro negative base ds hspells hlength
    exact read_of_spells hspells hlength
  · intro n base marker capitals zeros hmarker hlength
    exact read_written capitals hmarker zeros n hlength

-- A sign, a marker, leading zeros and digits in either case, between blanks.
example : read " -0X00fF\t".toList = .ok (some (-255)) := by decide

end Literal

end Rsc
