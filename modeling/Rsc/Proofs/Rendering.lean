import Rsc.Image
import Rsc.Listing
import Rsc.Proofs.Reemission

/-!
# The end of a rendered text

Words and listings are rendered as lines with line feeds between them. Every line ends in a
character that is not blank: words end in a digit, the rows of a listing in the source of an
instruction, which is kept without the blanks around it. So no rendered text ends in a line feed,
and the last line is never empty.
-/

namespace Rsc

namespace Text

/-- A text that ends in a character that is not blank. -/
def EndsNonBlank (t : Text) : Prop := ∃ c ∈ t.getLast?, isBlank c = false

theorem EndsNonBlank.ne_nil {t : Text} (h : t.EndsNonBlank) : t ≠ [] := by
  rcases h with ⟨c, hlast, _⟩
  rintro rfl
  cases hlast

theorem EndsNonBlank.append_left {t : Text} (h : t.EndsNonBlank) (s : Text) :
    (s ++ t).EndsNonBlank := by
  rw [EndsNonBlank, List.getLast?_append_of_ne_nil s h.ne_nil]
  exact h

/-- Filling up on the left does not change how a text ends. -/
theorem EndsNonBlank.padLeft {t : Text} (h : t.EndsNonBlank) (fill : Char) (width : Nat) :
    (Text.padLeft fill width t).EndsNonBlank :=
  h.append_left _

theorem endsNonBlank_of_getLast? {t : Text} (hne : t ≠ [])
    (h : ∀ c ∈ t.getLast?, isBlank c = false) : t.EndsNonBlank := by
  have hlast := List.getLast?_eq_some_getLast hne
  exact ⟨t.getLast hne, hlast, h _ hlast⟩

/-- Lines with line feeds between them end as the last of them does, not in a line feed. -/
theorem getLast?_join_lines {lines : List Text} (h : ∀ line ∈ lines, line.EndsNonBlank) :
    (join ['\n'] lines).getLast? ≠ some '\n' := by
  intro hfeed
  rcases getLast?_join (fun line hline => (h line hline).ne_nil) _ hfeed with ⟨line, hline, hlast⟩
  rcases h line hline with ⟨c, hc, hblank⟩
  obtain rfl := Option.some.inj (hc.symm.trans hlast)
  exact absurd hblank (by decide)

end Text

namespace Numeral

theorem not_blank_digitChar : ∀ d < 16, Text.isBlank (Nat.digitChar d) = false ∧
    Text.isBlank (Nat.digitChar d).toUpper = false := by
  decide

theorem getLast?_digits {base : Nat} (hone : 1 < base) (n : Nat) :
    (digits base n).getLast? = some (Nat.digitChar (n % base)) := by
  rw [digits, Nat.toDigits_eq_if hone]
  split
  next hlt => rw [Nat.mod_eq_of_lt hlt, List.getLast?_singleton]
  next => rw [List.getLast?_concat]

theorem endsNonBlank_binary (n : Nat) : Text.EndsNonBlank (digits 2 n) := by
  refine ⟨_, getLast?_digits (by decide) n, (not_blank_digitChar _ ?_).1⟩
  omega

theorem endsNonBlank_hex (width : Nat) (n : Int) : Text.EndsNonBlank (hex width n) := by
  have hbody : Text.EndsNonBlank ((digits 16 n.natAbs).map Char.toUpper) := by
    rw [Text.EndsNonBlank, List.getLast?_map, getLast?_digits (by decide), Option.map_some]
    refine ⟨_, rfl, (not_blank_digitChar _ ?_).2⟩
    omega
  simp only [hex]
  split
  next => exact (hbody.padLeft '0' (width - 1)).append_left ['-']
  next => exact hbody.padLeft '0' width

end Numeral

theorem WordFormat.endsNonBlank_render (format : WordFormat) (word : Int) :
    (format.render word).EndsNonBlank := by
  cases format with
  | binary => exact (Numeral.endsNonBlank_binary _).padLeft '0' wordSize
  | hex => exact Numeral.endsNonBlank_hex 4 _

/-- Rendered words have no line end behind the last one. -/
theorem getLast?_renderWords (format : WordFormat) (words : List Int) :
    (renderWords format words).getLast? ≠ some '\n' := by
  apply Text.getLast?_join_lines
  intro line hline
  rcases List.mem_map.mp hline with ⟨word, _, rfl⟩
  exact format.endsNonBlank_render word

/-- The source of an entry is an instruction without blanks around it. -/
theorem endsNonBlank_source {raw : List Text} {p : Program} (h : assemble raw = .ok p)
    {entry : Entry} (hentry : entry ∈ p.listing) : entry.source.text.EndsNonBlank := by
  have hbare := (bare_of_assemble h).2 entry.source.text (List.mem_map_of_mem hentry)
  apply Text.endsNonBlank_of_getLast? hbare.nonempty
  rw [← hbare.clean]
  exact getLast?_cleanText _

theorem endsNonBlank_header {line : Text} (h : line ∈ listingHeader) : line.EndsNonBlank := by
  rw [listingHeader, List.mem_pair] at h
  rcases h with rfl | rfl
  · exact ⟨'E', by decide, by decide⟩
  · exact ⟨'-', by decide, by decide⟩

/-- A rendered listing has no line end behind the last row. -/
theorem getLast?_renderListing {raw : List Text} {p : Program} (h : assemble raw = .ok p) :
    (renderListing p.listing).getLast? ≠ some '\n' := by
  apply Text.getLast?_join_lines
  intro line hline
  rcases List.mem_append.mp hline with hline | hline
  · exact endsNonBlank_header hline
  · rcases List.mem_map.mp hline with ⟨entry, hentry, rfl⟩
    exact (endsNonBlank_source h hentry).append_left _

end Rsc
