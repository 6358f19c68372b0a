import Rsc.Literal
import Rsc.Proofs.Tokens

/-!
# Reading literals

Reading breaks down exactly on decimal literals beyond the limit. Every other literal is read as
the number that it denotes, and what does not begin with a sign or a digit is no literal.
-/

namespace Rsc

/-- Reading fails only at decimal literals with more digits than the limit. -/
theorem Literal.read_eq_error_iff {t : Text} {fault : Fault} :
    Literal.read t = .error fault ↔
      ∃ l, Literal.ofText? (Text.trim t) = some l ∧ l.base = 10 ∧
        Numeral.decimalLimit < l.digits.length ∧ fault = .literalTooLong l.digits.length := by
  unfold Literal.read
  cases htext : Literal.ofText? (Text.trim t) with
  | none => simp
  | some l =>
      by_cases hlong : l.base = 10 ∧ Numeral.decimalLimit < l.digits.length
      · simp only [hlong, and_self, if_true, Except.error.injEq, Option.some.injEq]
        constructor
        · intro hfault
          exact ⟨l, rfl, hlong.1, hlong.2, hfault.symm⟩
        · rintro ⟨l', rfl, _, _, hfault⟩
          exact hfault.symm
      · simp only [hlong, if_false, reduceCtorEq, Option.some.injEq, false_iff]
        rintro ⟨l', rfl, hbase, hlength, _⟩
        exact hlong ⟨hbase, hlength⟩

/-- A literal that can be read is read as the number that it denotes. -/
theorem Literal.eq_value_of_read {t : Text} {l : Literal} {v : Option Int}
    (htext : Literal.ofText? (Text.trim t) = some l) (hread : Literal.read t = .ok v) :
    v = some l.value := by
  unfold Literal.read at hread
  rw [htext] at hread
  dsimp only at hread
  split at hread
  next => cases hread
  next => exact (Except.ok.inj hread).symm

theorem Literal.head_of_ofDigits? {negative : Bool} {base : Nat} {ds : Text} {l : Literal}
    (h : Literal.ofDigits? negative base ds = some l) :
    ∃ c ∈ ds.head?, Numeral.isDigit base c = true := by
  unfold Literal.ofDigits? at h
  split at h
  next hall =>
    cases ds with
    | nil => simp at hall
    | cons c ds =>
        rw [Bool.and_eq_true, List.all_cons, Bool.and_eq_true] at hall
        exact ⟨c, rfl, hall.2.1⟩
  next => cases h

/-- An unsigned literal begins with a decimal digit; base markers do as well. -/
theorem Literal.head_of_ofUnsigned? {negative : Bool} {ds : Text} {l : Literal}
    (h : Literal.ofUnsigned? negative ds = some l) :
    ∃ c ∈ ds.head?, Numeral.isDigit 10 c = true := by
  unfold Literal.ofUnsigned? at h
  split at h
  -- the six base markers, each after a zero
  iterate 6 exact ⟨'0', rfl, by decide⟩
  exact Literal.head_of_ofDigits? h

/-- A literal begins with a sign or a decimal digit. -/
theorem Literal.head_of_ofText? {t : Text} {l : Literal} (h : Literal.ofText? t = some l) :
    ∃ c ∈ t.head?, c = '-' ∨ c = '+' ∨ Numeral.isDigit 10 c = true := by
  unfold Literal.ofText? at h
  split at h
  next t => exact ⟨'-', rfl, Or.inl rfl⟩
  next t => exact ⟨'+', rfl, Or.inr (Or.inl rfl)⟩
  next =>
    obtain ⟨c, hc, hdigit⟩ := Literal.head_of_ofUnsigned? h
    exact ⟨c, hc, Or.inr (Or.inr hdigit)⟩

theorem head?_ne_marker_of_ofText? {t : Text} {l : Literal} (h : Literal.ofText? t = some l) :
    t.head? ≠ some '.' := by
  intro hmarker
  obtain ⟨c, hc, hstart⟩ := Literal.head_of_ofText? h
  rw [hmarker] at hc
  obtain rfl := Option.some.inj hc
  exact absurd hstart (by decide)

theorem Literal.read_of_ofText? {t : Text} (h : Literal.ofText? (Text.trim t) = none) :
    Literal.read t = .ok none := by
  unfold Literal.read
  rw [h]

/-- A label is no literal, whatever is trimmed off it. -/
theorem Literal.ofText?_marker (t : Text) : Literal.ofText? (Text.trim ('.' :: t)) = none := by
  have hhead : (Text.trim ('.' :: t)).head? = some '.' := Text.head?_trim (by decide)
  cases hliteral : Literal.ofText? (Text.trim ('.' :: t)) with
  | none => rfl
  | some l => exact absurd hhead (head?_ne_marker_of_ofText? hliteral)

theorem Literal.read_marker (t : Text) : Literal.read ('.' :: t) = .ok none :=
  Literal.read_of_ofText? (Literal.ofText?_marker t)

/-- Lower case changes the letters from `A` to `Z` only. -/
theorem Char.toLower_eq_self_of_lt {c : Char} (h : c.toNat < 65 ∨ 90 < c.toNat) :
    c.toLower = c := by
  unfold Char.toLower
  rw [dif_neg]
  rintro ⟨hlow, hhigh⟩
  have hlow : 65 ≤ c.toNat := hlow
  have hhigh : c.toNat ≤ 90 := hhigh
  omega

/-- The three ranges of digits. -/
theorem Numeral.range_of_digitValue? {c : Char} {d : Nat} (h : digitValue? c = some d) :
    (48 ≤ c.toNat ∧ c.toNat ≤ 57 ∧ d = c.toNat - 48) ∨
      (97 ≤ c.toNat ∧ c.toNat ≤ 102 ∧ d = c.toNat - 87) ∨
      (65 ≤ c.toNat ∧ c.toNat ≤ 70 ∧ d = c.toNat - 55) := by
  unfold digitValue? at h
  split at h
  next hdigit => exact Or.inl ⟨hdigit.1, hdigit.2, (Option.some.inj h).symm⟩
  next =>
    split at h
    next hsmall => exact Or.inr (Or.inl ⟨hsmall.1, hsmall.2, (Option.some.inj h).symm⟩)
    next =>
      split at h
      next hcapital => exact Or.inr (Or.inr ⟨hcapital.1, hcapital.2, (Option.some.inj h).symm⟩)
      next => cases h

theorem Numeral.isDigit_iff {base : Nat} {c : Char} :
    isDigit base c = true ↔ ∃ d, digitValue? c = some d ∧ d < base := by
  unfold isDigit
  cases digitValue? c <;> simp

theorem toNat_lt_of_isDigit {c : Char} (h : Numeral.isDigit 10 c = true) : c.toNat < 65 := by
  obtain ⟨d, hvalue, hlt⟩ := Numeral.isDigit_iff.mp h
  have hrange := Numeral.range_of_digitValue? hvalue
  omega

end Rsc
