import Rsc.Proofs.Cleaning
import Rsc.Proofs.Comments

/-!
# What cleaning keeps

A line is cut at the first place where a comment marker stands, so that no marker is left in what
is kept. Cleaning keeps the lines that still say something, in their order and with their places,
and finds nothing more to take off when it is repeated. Blanks in front of a line and a comment
behind a blank at its end belong to what is taken off.
-/

namespace Rsc

/-- A comment marker stands somewhere in the text. -/
def HasMarker (t : Text) : Prop := ∃ marker ∈ commentMarkers, marker <:+: t

/-- The text begins with `front`, and a comment marker stands right behind it. -/
def CommentFollows (front t : Text) : Prop := ∃ marker ∈ commentMarkers, front ++ marker <+: t

/-! ## The first comment -/

theorem not_hasMarker_iff {t : Text} : ¬ HasMarker t ↔ stripComment t = t := by
  rw [stripComment_eq_self_iff]
  constructor
  · intro hnone s hsuffix
    cases hstarts : startsComment s with
    | false => rfl
    | true =>
        obtain ⟨marker, hmarker, hprefix⟩ := startsComment_iff.mp hstarts
        exact absurd ⟨marker, hmarker, hprefix.isInfix.trans hsuffix.isInfix⟩ hnone
  · intro hnone hmarked
    obtain ⟨marker, hmarker, hpart⟩ := hmarked
    obtain ⟨s, hprefix, hsuffix⟩ := List.infix_iff_prefix_suffix.mp hpart
    have hstarts := startsComment_iff.mpr ⟨marker, hmarker, hprefix⟩
    rw [hnone s hsuffix] at hstarts
    cases hstarts

theorem startsComment_of_stripComment {t : Text} (hne : t ≠ []) (h : stripComment t = []) :
    startsComment t = true := by
  obtain ⟨c, rest, rfl⟩ := List.exists_cons_of_ne_nil hne
  cases hstarts : startsComment (c :: rest) with
  | true => rfl
  | false =>
      rw [stripComment_cons_of_not hstarts] at h
      cases h

/-- If there is a marker, one stands where the text is cut. -/
theorem commentFollows_stripComment {t : Text} (h : HasMarker t) :
    CommentFollows (stripComment t) t := by
  obtain ⟨comment, ht, hcomment⟩ := exists_comment t
  have hne : comment ≠ [] := by
    rintro rfl
    rw [List.append_nil] at ht
    exact not_hasMarker_iff.mpr ht.symm h
  obtain ⟨marker, hmarker, rest, hrest⟩ :=
    startsComment_iff.mp (startsComment_of_stripComment hne hcomment)
  refine ⟨marker, hmarker, rest, ?_⟩
  rw [List.append_assoc, hrest, ← ht]

/-- No marker stands before the place where the text is cut. -/
theorem stripComment_isPrefix {front t : Text} (h : CommentFollows front t) :
    stripComment t <+: front := by
  obtain ⟨marker, hmarker, rest, rfl⟩ := h
  induction front with
  | nil =>
      have hstarts : startsComment (marker ++ rest) = true :=
        startsComment_iff.mpr ⟨marker, hmarker, List.prefix_append marker rest⟩
      exact List.prefix_nil.mpr (stripComment_of_startsComment hstarts)
  | cons c front ih =>
      rw [List.cons_append, List.cons_append, stripComment]
      split
      next => exact List.nil_prefix
      next => exact List.cons_prefix_cons.mpr ⟨rfl, ih⟩

/-- What is kept of a text: the shortest front with a comment marker right behind it, or the whole
text if it has no marker. -/
structure CutAtComment (t kept : Text) : Prop where
  shortest : HasMarker t →
    CommentFollows kept t ∧ ∀ front, CommentFollows front t → kept <+: front
  whole : ¬ HasMarker t → kept = t
  unmarked : ¬ HasMarker kept

theorem cutAtComment_stripComment (t : Text) : CutAtComment t (stripComment t) where
  shortest := by
    intro hmarked
    exact ⟨commentFollows_stripComment hmarked, fun _ => stripComment_isPrefix⟩
  whole := not_hasMarker_iff.mp
  unmarked := not_hasMarker_iff.mpr (stripComment_stripComment t)

/-! ## Lines that are kept -/

/-- Cleaning twice is cleaning once. -/
theorem cleanText_cleanText (raw : Text) : cleanText (cleanText raw) = cleanText raw := by
  rw [cleanText_eq (cleanText raw), stripComment_cleanText]
  exact Text.trim_trim _

/-- The texts that are kept are those that are not empty, in their order. -/
theorem texts_cleanLines (raw : List Text) :
    (cleanLines raw).map Line.text = (raw.map cleanText).filter fun text => !text.isEmpty := by
  induction raw with
  | nil => rfl
  | cons line raw ih =>
      have hrest : ((cleanLines raw).map (Line.shift 1)).map Line.text =
          (cleanLines raw).map Line.text := by
        rw [List.map_map]
        rfl
      have hfirst : (cleanLines [line]).map Line.text =
          [cleanText line].filter fun text => !text.isEmpty := by
        by_cases hempty : cleanText line = [] <;> simp [cleanLines, hempty]
      have hsplit : cleanLines (line :: raw) =
          cleanLines [line] ++ (cleanLines raw).map (Line.shift 1) :=
        cleanLines_append [line] raw
      rw [hsplit, List.map_append, hrest, ih, hfirst, ← List.filter_append]
      rfl

/-- Texts that were kept are kept as they are. -/
theorem texts_cleanLines_again (raw : List Text) :
    (cleanLines ((cleanLines raw).map Line.text)).map Line.text =
      (cleanLines raw).map Line.text := by
  have hclean : ∀ text ∈ (cleanLines raw).map Line.text, cleanText text = text := by
    intro text htext
    rw [texts_cleanLines] at htext
    obtain ⟨line, _, rfl⟩ := List.mem_map.mp (List.mem_filter.mp htext).1
    exact cleanText_cleanText line
  rw [texts_cleanLines ((cleanLines raw).map Line.text), List.map_congr_left hclean, List.map_id',
    texts_cleanLines, List.filter_filter]
  simp only [Bool.and_self]

/-- The lines of a source that say something: with the place of each, counted from 1, and with what
is left of it without comment and outer blanks. -/
structure Cleans (raw : List Text) (lines : List Line) : Prop where
  mem_iff : ∀ line, line ∈ lines ↔ ∃ (i : Nat) (text : Text), raw[i]? = some text ∧
    line = ⟨(i + 1 : Nat), Text.trim (stripComment text)⟩ ∧ Text.trim (stripComment text) ≠ []
  increasing : lines.Pairwise fun first second => first.number < second.number
  head_not_blank : ∀ line ∈ lines, ∀ c ∈ line.text.head?, Text.isBlank c = false
  last_not_blank : ∀ line ∈ lines, ∀ c ∈ line.text.getLast?, Text.isBlank c = false
  unmarked : ∀ line ∈ lines, ¬ HasMarker line.text
  again : (cleanLines (lines.map Line.text)).map Line.text = lines.map Line.text

theorem cleans_cleanLines (raw : List Text) : Cleans raw (cleanLines raw) where
  mem_iff := by
    intro line
    simp only [mem_cleanLines_iff, cleanText_eq]
  increasing := pairwise_cleanLines raw
  head_not_blank := by
    intro line hline
    obtain ⟨_, text, _, rfl, _⟩ := mem_cleanLines_iff.mp hline
    exact head?_cleanText text
  last_not_blank := by
    intro line hline
    obtain ⟨_, text, _, rfl, _⟩ := mem_cleanLines_iff.mp hline
    exact getLast?_cleanText text
  unmarked := by
    intro line hline
    obtain ⟨_, text, _, rfl, _⟩ := mem_cleanLines_iff.mp hline
    exact not_hasMarker_iff.mpr (stripComment_cleanText text)
  again := texts_cleanLines_again raw

/-! ## What may be put around a line -/

theorem cleanText_blank_append {lead : Text} (h : ∀ c ∈ lead, Text.isBlank c = true)
    (raw : Text) : cleanText (lead ++ raw) = cleanText raw := by
  rw [cleanText_eq, cleanText_eq, stripComment_blank_append h, Text.trim_blank_append h]

/-- A line may be replaced by one that says the same. -/
theorem cleanLines_modify {f : Text → Text} (h : ∀ line, cleanText (f line) = cleanText line)
    (raw : List Text) (i : Nat) : cleanLines (raw.modify i f) = cleanLines raw := by
  apply cleanLines_congr
  apply List.ext_getElem?
  intro j
  rw [List.getElem?_map, List.getElem?_map, List.getElem?_modify]
  by_cases hij : i = j
  · cases hline : raw[j]? with
    | none => rfl
    | some line => simp [hij, h]
  · simp [hij]

/-- A text is cut before its first comment. The lines that say something are kept in their places,
without comments and outer blanks, and cleaning them again keeps their texts. A comment behind a
blank, or blanks in front, may be added to any line of the source. -/
theorem cleaning_drops_comments (t : Text) (raw : List Text) :
    CutAtComment t (stripComment t) ∧ Cleans raw (cleanLines raw) ∧ ∀ i : Nat,
      (∀ b marker comment, Text.isBlank b = true → marker ∈ commentMarkers →
        cleanLines (raw.modify i fun line => line ++ b :: (marker ++ comment)) = cleanLines raw) ∧
      ∀ lead : Text, (∀ c ∈ lead, Text.isBlank c = true) →
        cleanLines (raw.modify i fun line => lead ++ line) = cleanLines raw := by
  refine ⟨cutAtComment_stripComment t, cleans_cleanLines raw, ?_⟩
  intro i
  constructor
  · intro b marker comment hb hmarker
    exact cleanLines_modify (fun line => cleanText_append_comment line hb hmarker comment) raw i
  · intro lead hlead
    exact cleanLines_modify (cleanText_blank_append hlead) raw i

/-- Half a marker is kept right before the marker that cuts the line, and at the end of a line also
when a blank and a comment are put behind it. -/
theorem cleaning_drops_comments_touching :
    CommentFollows "z -/".toList "z -/--/#".toList ∧
      stripComment "z -/--/#".toList = "z -/".toList ∧
      cleanLines ["x -".toList, "# y".toList] = [⟨1, "x -".toList⟩] ∧
      cleanLines ["x -\t---".toList, "# y".toList] = [⟨1, "x -".toList⟩] := by
  have hkept : stripComment "z -/--/#".toList = "z -/".toList := by decide
  have hlines : cleanLines ["x -".toList, "# y".toList] = [⟨1, "x -".toList⟩] := by decide
  have hmarked : HasMarker "z -/--/#".toList :=
    ⟨"--".toList, by decide, "z -/".toList, "/#".toList, rfl⟩
  obtain ⟨hcut, _, hadded⟩ :=
    cleaning_drops_comments "z -/--/#".toList ["x -".toList, "# y".toList]
  have hfollows := (hcut.shortest hmarked).1
  rw [hkept] at hfollows
  refine ⟨hfollows, hkept, hlines, ?_⟩
  exact ((hadded 0).1 '\t' "--".toList "-".toList (by decide) (by decide)).trans hlines

end Rsc
