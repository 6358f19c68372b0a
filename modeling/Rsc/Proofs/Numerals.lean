import Rsc.Proofs.Literals

/-!
# Numbers written out

The digits of a number in a base up to sixteen are digits of that base and have the number as their
value. A number written in decimal is therefore a literal, and is read back unless it is too long
to be read at all.
-/

namespace Rsc

namespace Numeral

theorem digitValue?_digitChar : ∀ d < 16, digitValue? (Nat.digitChar d) = some d := by
  decide

theorem not_blank_of_isDigit {base : Nat} {c : Char} (h : isDigit base c = true) :
    Text.isBlank c = false := by
  obtain ⟨d, hvalue, _⟩ := isDigit_iff.mp h
  have hrange := range_of_digitValue? hvalue
  simp only [Text.isBlank, Bool.or_eq_false_iff, Bool.and_eq_false_iff, decide_eq_false_iff_not,
    beq_eq_false_iff_ne]
  omega

/-- A further digit moves the others up by one place. -/
theorem value_append_digit (base : Nat) (ds : Text) (c : Char) :
    value base (ds ++ [c]) = value base ds * base + (digitValue? c).getD 0 := by
  simp [value]

section

variable {base : Nat} (hone : 1 < base) (hbase : base ≤ 16)

include hone hbase

/-- A number is read back from its digits. -/
theorem value_digits (n : Nat) : value base (digits base n) = n := by
  induction n using Nat.strong_induction_on with
  | _ n ih =>
      unfold digits at ih ⊢
      rw [Nat.toDigits_eq_if hone]
      split
      next hlt => simp [value, digitValue?_digitChar n (Nat.lt_of_lt_of_le hlt hbase)]
      next hle =>
        have hmod : n % base < 16 := Nat.lt_of_lt_of_le (Nat.mod_lt n (by omega)) hbase
        rw [value_append_digit, ih (n / base) (Nat.div_lt_self (by omega) hone),
          digitValue?_digitChar _ hmod]
        exact Nat.div_add_mod' n base

theorem isDigit_of_mem_digits (n : Nat) : ∀ c ∈ digits base n, isDigit base c = true := by
  have hchar : ∀ d < base, isDigit base (Nat.digitChar d) = true := by
    intro d hd
    exact isDigit_iff.mpr ⟨d, digitValue?_digitChar d (Nat.lt_of_lt_of_le hd hbase), hd⟩
  induction n using Nat.strong_induction_on with
  | _ n ih =>
      unfold digits at ih ⊢
      rw [Nat.toDigits_eq_if hone]
      split
      next hlt => simpa using hchar n hlt
      next hle =>
        intro c hc
        rcases List.mem_append.mp hc with hc | hc
        · exact ih (n / base) (Nat.div_lt_self (by omega) hone) c hc
        · rw [List.mem_singleton.mp hc]
          exact hchar _ (Nat.mod_lt n (by omega))

end

theorem isDigit_of_mem_decimal {n : Nat} {c : Char} (h : c ∈ digits 10 n) : isDigit 10 c = true :=
  isDigit_of_mem_digits (by decide) (by decide) n c h

theorem length_digits_le_iff {n limit : Nat} (hlimit : 0 < limit) :
    (digits 10 n).length ≤ limit ↔ n < Nat.pow 10 limit :=
  Nat.length_toDigits_le_iff (by decide) hlimit

end Numeral

namespace Literal

/-- Digits alone are a decimal literal, since no base marker is a digit. -/
theorem ofUnsigned?_of_digits (negative : Bool) {ds : Text} (hne : ds ≠ [])
    (hds : ∀ c ∈ ds, Numeral.isDigit 10 c = true) :
    ofUnsigned? negative ds = some ⟨negative, 10, ds⟩ := by
  have hmarker : ∀ c ∈ ds.tail.head?, Numeral.isDigit 10 c = true := fun c hc =>
    hds c (List.mem_of_mem_tail (List.mem_of_mem_head? hc))
  unfold ofUnsigned?
  split
  iterate 6 exact absurd (hmarker _ rfl) (by decide)
  simp [ofDigits?, hne, List.all_eq_true.mpr hds]

/-- A number in decimal is a literal with its sign and its digits. -/
theorem ofText?_decimal (n : Int) :
    ofText? (Numeral.decimal n) = some ⟨decide (n < 0), 10, Numeral.digits 10 n.natAbs⟩ := by
  have hne : Numeral.digits 10 n.natAbs ≠ [] := Nat.toDigits_ne_nil
  have hdigits : ∀ c ∈ Numeral.digits 10 n.natAbs, Numeral.isDigit 10 c = true :=
    fun c => Numeral.isDigit_of_mem_decimal
  unfold Numeral.decimal
  split
  next hneg =>
    rw [decide_eq_true hneg]
    exact ofUnsigned?_of_digits true hne hdigits
  next hnonneg =>
    rw [decide_eq_false hnonneg, ← ofUnsigned?_of_digits false hne hdigits]
    unfold ofText?
    split
    next t ht => exact absurd (hdigits '-' (ht ▸ List.mem_cons_self)) (by decide)
    next t ht => exact absurd (hdigits '+' (ht ▸ List.mem_cons_self)) (by decide)
    next => rfl

theorem not_blank_of_mem_decimal {n : Int} {c : Char} (h : c ∈ Numeral.decimal n) :
    Text.isBlank c = false := by
  unfold Numeral.decimal at h
  split at h
  next =>
    rcases List.mem_cons.mp h with rfl | hdigit
    · decide
    · exact Numeral.not_blank_of_isDigit (Numeral.isDigit_of_mem_decimal hdigit)
  next => exact Numeral.not_blank_of_isDigit (Numeral.isDigit_of_mem_decimal h)

/-- A number written in decimal is read back. -/
theorem read_decimal {n : Int} (h : Numeral.writable n = true) :
    read (Numeral.decimal n) = .ok (some n) := by
  have hlength : (Numeral.digits 10 n.natAbs).length ≤ Numeral.decimalLimit :=
    (Numeral.length_digits_le_iff (by decide)).mpr (of_decide_eq_true h)
  have hvalue : Literal.value ⟨decide (n < 0), 10, Numeral.digits 10 n.natAbs⟩ = n := by
    have hdigits : Numeral.value 10 (Numeral.digits 10 n.natAbs) = n.natAbs :=
      Numeral.value_digits (by decide) (by decide) _
    unfold Literal.value
    simp only [hdigits, decide_eq_true_eq]
    split <;> omega
  unfold read
  rw [Text.trim_of_no_blank fun c => not_blank_of_mem_decimal, ofText?_decimal]
  dsimp only
  rw [if_neg (by omega), hvalue]

end Literal

end Rsc
