import Rsc.Bits
import Rsc.Proofs.Spelling

/-!
# Numbers in columns

Words, addresses and line numbers are written in columns. A number that is filled up with zeros to
the width of its column is shown by the digits there, and fills the column exactly if it has no more
digits than the column is wide.
-/

namespace Rsc

/-- A text is cut in one way before the first character of a kind. -/
theorem Text.cut_unique {stop : Char → Bool} {word rest word' rest' : Text}
    (hword : ∀ c ∈ word, stop c = false) (hrest : ∃ c ∈ rest.head?, stop c = true)
    (hword' : ∀ c ∈ word', stop c = false) (hrest' : ∃ c ∈ rest'.head?, stop c = true)
    (h : word ++ rest = word' ++ rest') : word = word' ∧ rest = rest' := by
  have hcut : ∀ {word rest : Text}, (∀ c ∈ word, stop c = false) →
      (∃ c ∈ rest.head?, stop c = true) →
      (word ++ rest).takeWhile (fun c => !stop c) = word ∧
        (word ++ rest).dropWhile (fun c => !stop c) = rest := by
    rintro word rest hword ⟨c, hc, hstop⟩
    obtain ⟨rest, rfl⟩ := List.head?_eq_some_iff.mp hc
    have hgoes : ∀ c ∈ word, (!stop c) = true := by simpa using hword
    rw [List.takeWhile_append_of_pos hgoes, List.dropWhile_append_of_pos hgoes]
    simp [hstop]
  obtain ⟨htake, hdrop⟩ := hcut hword hrest
  obtain ⟨htake', hdrop'⟩ := hcut hword' hrest'
  rw [← h] at htake' hdrop'
  exact ⟨htake.symm.trans htake', hdrop.symm.trans hdrop'⟩

namespace Numeral

/-- The text is made of digits of the base, letters in capitals, and their value is `n`. -/
structure Shows (base : Nat) (n : Int) (t : Text) : Prop where
  digits : ∀ c ∈ t, isDigit base c = true ∧ c.toUpper = c
  value_eq : (value base t : Int) = n

theorem toUpper_eq_self_of_lt {c : Char} (h : c.toNat < 97) : c.toUpper = c := by
  unfold Char.toUpper
  rw [dif_neg]
  intro ⟨hsmall, _⟩
  have hsmall : 97 ≤ c.toNat := hsmall
  omega

theorem toUpper_of_isDigit {c : Char} (h : isDigit 10 c = true) : c.toUpper = c := by
  have hlt := toNat_lt_of_isDigit h
  exact toUpper_eq_self_of_lt (by omega)

theorem toUpper_of_spellsDigit {base d : Nat} {c : Char} (hbase : base ≤ 16)
    (h : Literal.SpellsDigit base d c) : c.toUpper.toUpper = c.toUpper := by
  obtain ⟨hlt, hc⟩ := h
  have hcapital := toUpper_toUpper_digitChar d (Nat.lt_of_lt_of_le hlt hbase)
  rcases hc with rfl | rfl
  · exact hcapital
  · rw [hcapital, hcapital]

theorem value_zeros (base count : Nat) (t : Text) :
    value base (List.replicate count '0' ++ t) = value base t := by
  rw [Literal.value_eq_ofDigits, Literal.value_eq_ofDigits]
  have hzeros : Literal.digitValues (List.replicate count '0' ++ t) =
      List.replicate count 0 ++ Literal.digitValues t := by
    simp [Literal.digitValues, digitValue?]
  rw [hzeros, List.reverse_append, List.reverse_replicate, Nat.ofDigits_append_replicate_zero]

/-- Zeros in front do not change the value. -/
theorem Shows.padLeft {base : Nat} (hbase : 0 < base) {n : Int} {t : Text} (h : Shows base n t)
    (width : Nat) : Shows base n (Text.padLeft '0' width t) := by
  constructor
  · intro c hc
    rcases List.mem_append.mp hc with hzero | hc
    · obtain rfl := List.eq_of_mem_replicate hzero
      exact ⟨isDigit_iff.mpr ⟨0, rfl, hbase⟩, rfl⟩
    · exact h.digits c hc
  · rw [Text.padLeft, value_zeros, h.value_eq]

/-- The value of a column that holds a number is told by the column. -/
theorem Shows.unique {base : Nat} {m n : Int} {t : Text} (hm : Shows base m t)
    (hn : Shows base n t) : m = n :=
  hm.value_eq.symm.trans hn.value_eq

theorem Shows.not_blank {base : Nat} {n : Int} {t : Text} (h : Shows base n t) :
    ∀ c ∈ t, Text.isBlank c = false :=
  fun c hc => not_blank_of_isDigit (h.digits c hc).1

section

variable {base : Nat} (hone : 1 < base)

include hone

theorem shows_capitals (hbase : base ≤ 16) (n : Nat) :
    Shows base n ((digits base n).map Char.toUpper) := by
  obtain ⟨ds, hspelt, _, hvalue⟩ := Literal.exists_spelt_digits true hone hbase n
  rw [if_pos rfl] at hspelt
  obtain ⟨rfl, hdigits⟩ := (Literal.forall₂_spellsDigit_iff hbase).mp hspelt
  constructor
  · intro c hc
    refine ⟨hdigits c hc, ?_⟩
    obtain ⟨d, hd, rfl⟩ := List.mem_map.mp hc
    obtain ⟨v, hv, hlt⟩ := isDigit_iff.mp (isDigit_of_mem_digits hone hbase n d hd)
    exact toUpper_of_spellsDigit hbase ((Literal.spellsDigit_iff hbase).mpr ⟨hv, hlt⟩)
  · rw [Literal.value_eq_ofDigits, hvalue]

/-- Up to base ten there are no letters among the digits. -/
theorem map_toUpper_digits (hbase : base ≤ 10) (n : Nat) :
    (digits base n).map Char.toUpper = digits base n := by
  refine (List.map_congr_left ?_).trans (List.map_id _)
  intro c hc
  obtain ⟨d, hd, hlt⟩ := isDigit_iff.mp (isDigit_of_mem_digits hone (by omega) n c hc)
  exact toUpper_of_isDigit (isDigit_iff.mpr ⟨d, hd, by omega⟩)

theorem shows_digits (hbase : base ≤ 10) (n : Nat) : Shows base n (digits base n) := by
  rw [← map_toUpper_digits hone hbase n]
  exact shows_capitals hone (by omega) n

theorem length_padLeft_of_lt {n width : Nat} (hwidth : 0 < width) (h : n < Nat.pow base width)
    {t : Text} (ht : t.length = (digits base n).length) :
    (Text.padLeft '0' width t).length = width := by
  have hle : (digits base n).length ≤ width := (Nat.length_toDigits_le_iff hone hwidth).mpr h
  rw [Text.length_padLeft, ht]
  exact Nat.max_eq_left hle

end

theorem decimal_ne_nil (n : Int) : decimal n ≠ [] := by
  unfold decimal
  split
  next => exact List.cons_ne_nil _ _
  next => exact Nat.toDigits_ne_nil

/-- A number that is not negative is shown by its decimal digits alone. -/
theorem shows_decimal {n : Int} (h : 0 ≤ n) : Shows 10 n (decimal n) := by
  have hshows : Shows 10 (n.natAbs : Int) (digits 10 n.natAbs) :=
    shows_digits (by decide) (by decide) n.natAbs
  rw [Int.natAbs_of_nonneg h] at hshows
  rwa [decimal, if_neg (Int.not_lt.mpr h)]

/-- Numbers that are not negative are filled up with zeros in hexadecimal. -/
theorem shows_hex {n : Int} (h : 0 ≤ n) (width : Nat) : Shows 16 n (hex width n) := by
  have hshows : Shows 16 (n.natAbs : Int) ((digits 16 n.natAbs).map Char.toUpper) :=
    shows_capitals (by decide) (by decide) n.natAbs
  rw [Int.natAbs_of_nonneg h] at hshows
  simp only [hex, if_neg (Int.not_lt.mpr h)]
  exact hshows.padLeft (by decide) width

/-- A number that fits its column fills it. -/
theorem length_hex {n : Int} {width : Nat} (h : 0 ≤ n) (hwidth : 0 < width)
    (hfits : n.natAbs < Nat.pow 16 width) : (hex width n).length = width := by
  simp only [hex, if_neg (Int.not_lt.mpr h)]
  exact length_padLeft_of_lt (by decide) hwidth hfits (List.length_map _)

end Numeral

namespace Bits

/-- The low bits of a number are shown in binary. -/
theorem shows_binaryDigits (value : Int) (size : Nat) :
    Numeral.Shows 2 (low size value) (binaryDigits value size) := by
  have hshows : Numeral.Shows 2 ((low size value).toNat : Int)
      (Numeral.digits 2 (low size value).toNat) :=
    Numeral.shows_digits (by decide) (by decide) _
  rw [Int.toNat_of_nonneg (low_nonneg size value)] at hshows
  exact hshows.padLeft (by decide) size

/-- Fixed-width binary has exactly the width; a width of zero would still have one digit. -/
theorem length_binaryDigits (value : Int) {size : Nat} (hsize : 0 < size) :
    (binaryDigits value size).length = size := by
  have hfits : (low size value).toNat < Nat.pow 2 size :=
    (Int.toNat_lt (low_nonneg size value)).mpr (low_lt_twoPow size value)
  exact Numeral.length_padLeft_of_lt (by decide) hsize hfits rfl

end Bits

end Rsc
