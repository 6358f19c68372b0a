import Rsc.Proofs.Columns
import Rsc.Proofs.Sessions

/-!
# Words read back from their images

A program is written as lines of binary digits, as lines of hexadecimal digits, or as bytes. The
lines hold the low sixteen bits of each word in as many digits as sixteen bits take, so that reading
them gives back the words as far as sixteen bits go. The bytes hold the words themselves, and there
are none if a word does not fit. A program that fits is read back from all three.
-/

namespace Rsc

theorem Bits.low_wordSize (word : Int) : low wordSize word = word % 65536 :=
  low_eq_emod wordSize word

/-! ## Lines -/

namespace WordFormat

/-- The base of the digits. -/
def base : WordFormat → Nat
  | binary => 2
  | hex => 16

/-- The number of digits on a line. -/
def width : WordFormat → Nat
  | binary => 16
  | hex => 4

/-- The values of the digits on the lines of a text. -/
def read (format : WordFormat) (t : Text) : List Int :=
  (t.splitOn '\n').map fun line => (Numeral.value format.base line : Int)

theorem ofName?_name (format : WordFormat) : ofName? format.name = some format := by
  cases format <;> decide

/-- A rendered word has its full width and shows the low sixteen bits. -/
theorem shows_render (format : WordFormat) (word : Int) :
    (format.render word).length = format.width ∧
      Numeral.Shows format.base (word % 65536) (format.render word) := by
  have hleast := Bits.low_nonneg wordSize word
  have hgreatest : Bits.low wordSize word < 65536 := Bits.low_lt_twoPow wordSize word
  rw [← Bits.low_wordSize]
  cases format with
  | binary =>
      exact ⟨Bits.length_binaryDigits word (by decide), Bits.shows_binaryDigits word wordSize⟩
  | hex =>
      have hfits : (Bits.low wordSize word).natAbs < Nat.pow 16 4 := by
        have hpow : Nat.pow 16 4 = 65536 := rfl
        omega
      exact ⟨Numeral.length_hex hleast (by decide) hfits, Numeral.shows_hex hleast 4⟩

/-- The lines of a text are those that it was joined from. -/
theorem splitOn_renderWords (format : WordFormat) {words : List Int} (hne : words ≠ []) :
    (renderWords format words).splitOn '\n' = words.map fun word => format.render word := by
  apply List.splitOn_intercalate
  · intro line hline hfeed
    obtain ⟨word, _, rfl⟩ := List.mem_map.mp hline
    have hblank := (format.shows_render word).2.not_blank '\n' hfeed
    exact absurd hblank (by decide)
  · simpa using hne

theorem read_renderWords (format : WordFormat) {words : List Int} (hne : words ≠ []) :
    format.read (renderWords format words) = words.map fun word => word % 65536 := by
  rw [read, format.splitOn_renderWords hne, List.map_map]
  apply List.map_congr_left
  intro word _
  exact (format.shows_render word).2.value_eq

end WordFormat

/-! ## Bytes -/

/-- The words whose bytes follow each other, the high byte of each first. There are none if a byte
is left over. -/
def readImage : Bytes → Option (List Int)
  | [] => some []
  | [_] => none
  | high :: low :: rest => (readImage rest).map (((high.toNat * 256 + low.toNat : Nat) : Int) :: ·)

/-- A word of sixteen bits has two bytes, the higher first; another has none. -/
theorem wordBytes_eq_ok_iff {word : Int} {bytes : Bytes} :
    wordBytes word = .ok bytes ↔ (0 ≤ word ∧ word ≤ 65535) ∧
      bytes = [UInt8.ofNat (word.toNat / 256), UInt8.ofNat (word.toNat % 256)] := by
  unfold wordBytes
  by_cases hfits : 0 ≤ word ∧ word ≤ 65535
  · simp [hfits, eq_comm]
  · simp [hfits]

theorem rawImage_eq_ok_iff {words : List Int} {bytes : Bytes} :
    rawImage words = .ok bytes ↔
      ∃ parts, List.Forall₂ (fun word part => wordBytes word = .ok part) words parts ∧
        bytes = parts.flatten := by
  rw [rawImage, bind_eq_ok_iff]
  constructor
  · rintro ⟨parts, hparts, hbytes⟩
    exact ⟨parts, mapM_eq_ok_iff.mp hparts, (Except.ok.inj hbytes).symm⟩
  · rintro ⟨parts, hparts, hbytes⟩
    exact ⟨parts, mapM_eq_ok_iff.mpr hparts, congrArg Except.ok hbytes.symm⟩

theorem readImage_cons {word : Int} {part : Bytes} (h : wordBytes word = .ok part)
    (rest : Bytes) : readImage (part ++ rest) = (readImage rest).map (word :: ·) := by
  obtain ⟨⟨hleast, hgreatest⟩, rfl⟩ := wordBytes_eq_ok_iff.mp h
  have hvalue : (((UInt8.ofNat (word.toNat / 256)).toNat * 256 +
      (UInt8.ofNat (word.toNat % 256)).toNat : Nat) : Int) = word := by
    simp only [UInt8.toNat_ofNat']
    omega
  simp only [List.cons_append, List.nil_append, readImage, hvalue]

/-- Each word has two bytes, from which it is read back. -/
theorem readImage_of_parts {words : List Int} {parts : List Bytes}
    (h : List.Forall₂ (fun word part => wordBytes word = .ok part) words parts) :
    parts.flatten.length = 2 * words.length ∧ readImage parts.flatten = some words := by
  induction h with
  | nil => exact ⟨rfl, rfl⟩
  | @cons word part words parts hword _ ih =>
      obtain ⟨hlength, hread⟩ := ih
      have hpart : part.length = 2 := by
        obtain ⟨_, rfl⟩ := wordBytes_eq_ok_iff.mp hword
        rfl
      rw [List.flatten_cons, List.length_append, List.length_cons, hlength, hpart,
        readImage_cons hword, hread]
      exact ⟨by omega, rfl⟩

/-- There is an image exactly of words of sixteen bits. -/
theorem exists_rawImage_iff {words : List Int} :
    (∃ bytes, rawImage words = .ok bytes) ↔ ∀ word ∈ words, 0 ≤ word ∧ word ≤ 65535 := by
  constructor
  · intro ⟨bytes, hbytes⟩
    obtain ⟨parts, hparts, _⟩ := rawImage_eq_ok_iff.mp hbytes
    exact forall_mem_right_of_forall₂ hparts.flip fun part word hword =>
      (wordBytes_eq_ok_iff.mp hword).1
  · exact exists_rawImage

/-! ## All three images -/

/-- The lines of a program in either format are as many as its words, and each has as many digits
as sixteen bits take, which show the word modulo 65536. There are bytes exactly if all words fit
sixteen bits, two for each word. Then the words are read back from the bytes and from the lines. -/
theorem images_read_back {words : List Int} (hne : words ≠ []) :
    (∀ format : WordFormat, ∃ t, renderNamed format.name words = .ok t ∧
      List.Forall₂ (fun word line => line.length = format.width ∧
        Numeral.Shows format.base (word % 65536) line) words (t.splitOn '\n') ∧
      format.read t = words.map fun word => word % 65536) ∧
    ((∃ bytes, rawImage words = .ok bytes) ↔ ∀ word ∈ words, 0 ≤ word ∧ word ≤ 65535) ∧
    ∀ bytes, rawImage words = .ok bytes →
      bytes.length = 2 * words.length ∧ readImage bytes = some words ∧
        ∀ (format : WordFormat) (t : Text), renderNamed format.name words = .ok t →
          format.read t = words := by
  have hnamed : ∀ format : WordFormat,
      renderNamed format.name words = .ok (renderWords format words) := by
    intro format
    rw [renderNamed, format.ofName?_name]
  refine ⟨?_, exists_rawImage_iff, ?_⟩
  · intro format
    refine ⟨_, hnamed format, ?_, format.read_renderWords hne⟩
    rw [format.splitOn_renderWords hne, List.forall₂_map_right_iff, List.forall₂_same]
    exact fun word _ => format.shows_render word
  · intro bytes hbytes
    have hfits := exists_rawImage_iff.mp ⟨bytes, hbytes⟩
    obtain ⟨parts, hparts, rfl⟩ := rawImage_eq_ok_iff.mp hbytes
    obtain ⟨hlength, hread⟩ := readImage_of_parts hparts
    refine ⟨hlength, hread, ?_⟩
    intro format t ht
    obtain rfl := Except.ok.inj ((hnamed format).symm.trans ht)
    rw [format.read_renderWords hne]
    refine (List.map_congr_left ?_).trans (List.map_id _)
    intro word hword
    obtain ⟨hleast, hgreatest⟩ := hfits word hword
    exact Int.emod_eq_of_lt hleast (by omega)

/-- A negative word is shown by its low bits, and has no bytes. -/
theorem images_read_back_negative :
    ([33029, -1] : List Int) ≠ [] ∧
      (∃ t, renderNamed "hex".toList [33029, -1] = .ok t ∧ WordFormat.hex.read t = [33029, 65535]) ∧
      ¬ ∃ bytes, rawImage [33029, -1] = .ok bytes := by
  have hne : ([33029, -1] : List Int) ≠ [] := by decide
  obtain ⟨hlines, hbytes, _⟩ := images_read_back hne
  obtain ⟨t, ht, _, hread⟩ := hlines .hex
  refine ⟨hne, ⟨t, ht, hread⟩, ?_⟩
  intro hsome
  exact absurd (hbytes.mp hsome (-1) (by decide)) (by decide)

end Rsc
