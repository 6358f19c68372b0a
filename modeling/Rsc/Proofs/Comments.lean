import Rsc.Proofs.Tokens
import Rsc.Source

/-!
# Comments of a line

A text has no comment when none of its suffixes begins with a marker. What stands before the first
comment is such a text, and whatever is put behind it in a comment does not change what the line
says.
-/

namespace Rsc

/-- The texts that begin a comment. -/
def commentMarkers : List Text := ["#".toList, "//".toList, "--".toList]

/-- A comment begins where one of the markers does. -/
theorem startsComment_iff {t : Text} :
    startsComment t = true ↔ ∃ marker ∈ commentMarkers, marker <+: t := by
  unfold commentMarkers
  simp only [List.mem_cons, List.not_mem_nil, or_false, exists_eq_or_imp, exists_eq_left]
  constructor
  · intro h
    unfold startsComment at h
    split at h
    next rest => exact Or.inl ⟨rest, rfl⟩
    next rest => exact Or.inr (Or.inl ⟨rest, rfl⟩)
    next rest => exact Or.inr (Or.inr ⟨rest, rfl⟩)
    next => cases h
  · rintro (⟨rest, rfl⟩ | ⟨rest, rfl⟩ | ⟨rest, rfl⟩) <;> rfl

/-- What stands behind a marker is part of the comment. -/
theorem startsComment_mono {t u : Text} (hpre : t <+: u) (h : startsComment t = true) :
    startsComment u = true := by
  obtain ⟨marker, hmarker, hstarts⟩ := startsComment_iff.mp h
  exact startsComment_iff.mpr ⟨marker, hmarker, hstarts.trans hpre⟩

/-- Two characters decide whether a comment begins. -/
theorem startsComment_take (t : Text) : startsComment (t.take 2) = startsComment t := by
  have hshort : ∀ marker ∈ commentMarkers, marker.length ≤ 2 := by decide
  rw [Bool.eq_iff_iff, startsComment_iff, startsComment_iff]
  refine exists_congr fun marker => and_congr_right fun hmarker => ?_
  rw [List.prefix_take_iff, and_iff_left (hshort marker hmarker)]

theorem startsComment_cons_append (c : Char) {t : Text} (ht : t ≠ []) (s : Text) :
    startsComment (c :: (t ++ s)) = startsComment (c :: t) := by
  obtain ⟨d, u, rfl⟩ := List.exists_cons_of_ne_nil ht
  rw [← startsComment_take, ← startsComment_take (c :: d :: u)]
  rfl

/-- A character that no marker repeats decides it alone. -/
theorem startsComment_cons_of_ne {c : Char} (hslash : c ≠ '/') (hdash : c ≠ '-') (s : Text) :
    startsComment (c :: s) = startsComment [c] := by
  unfold startsComment
  split <;> simp_all

/-- No marker has a blank in it. -/
theorem ne_of_isBlank {c : Char} (h : Text.isBlank c = true) : c ≠ '#' ∧ c ≠ '/' ∧ c ≠ '-' := by
  refine ⟨?_, ?_, ?_⟩ <;> rintro rfl <;> exact absurd h (by decide)

/-- So does a character before a blank. -/
theorem startsComment_cons_blank (c : Char) {b : Char} (hb : Text.isBlank b = true) (s : Text) :
    startsComment (c :: b :: s) = startsComment [c] := by
  obtain ⟨_, hslash, hdash⟩ := ne_of_isBlank hb
  unfold startsComment
  split <;> simp_all

theorem startsComment_of_ne {c : Char} (h : c ≠ '#' ∧ c ≠ '/' ∧ c ≠ '-') (s : Text) :
    startsComment (c :: s) = false := by
  rw [startsComment_cons_of_ne h.2.1 h.2.2]
  simp [startsComment, h.1]

/-! ## Texts without a comment -/

theorem stripComment_cons_of_not {c : Char} {t : Text} (h : startsComment (c :: t) = false) :
    stripComment (c :: t) = c :: stripComment t := by
  rw [stripComment, if_neg (by simp [h])]

theorem stripComment_of_startsComment {t : Text} (h : startsComment t = true) :
    stripComment t = [] := by
  cases t with
  | nil => rfl
  | cons c t => rw [stripComment, if_pos h]

/-- A text is kept whole if no comment begins anywhere in it. -/
theorem stripComment_eq_self_iff {t : Text} :
    stripComment t = t ↔ ∀ s, s <:+ t → startsComment s = false := by
  induction t with
  | nil =>
      refine iff_of_true rfl ?_
      intro s hs
      rw [List.suffix_nil.mp hs]
      rfl
  | cons c t ih =>
      simp only [List.suffix_cons_iff, forall_eq_or_imp, ← ih]
      cases h : startsComment (c :: t) with
      | true => simp [stripComment_of_startsComment h]
      | false => simp [stripComment_cons_of_not h]

/-- A part of a text without a comment has none either. -/
theorem stripComment_of_part {t u : Text} (hpart : t <:+: u) (h : stripComment u = u) :
    stripComment t = t := by
  obtain ⟨before, after, rfl⟩ := hpart
  rw [stripComment_eq_self_iff] at h ⊢
  intro s hs
  obtain ⟨front, rfl⟩ := hs
  have hwhole := h (s ++ after) ⟨before ++ front, by simp⟩
  cases hstarts : startsComment s with
  | false => rfl
  | true =>
      have hlonger := startsComment_mono (List.prefix_append s after) hstarts
      rw [hwhole] at hlonger
      cases hlonger

/-- A text in two parts: the cut is where the comment begins, if there is one. -/
theorem exists_comment (t : Text) :
    ∃ comment, t = stripComment t ++ comment ∧ stripComment comment = [] := by
  induction t with
  | nil => exact ⟨[], rfl, rfl⟩
  | cons c t ih =>
      cases h : startsComment (c :: t) with
      | true =>
          have hnone := stripComment_of_startsComment h
          exact ⟨c :: t, by rw [hnone]; rfl, hnone⟩
      | false =>
          obtain ⟨comment, ht, hcomment⟩ := ih
          refine ⟨comment, ?_, hcomment⟩
          rw [stripComment_cons_of_not h, List.cons_append, ← ht]

/-- What stands before the first comment has no comment: a marker in it would have been one in the
whole text. -/
theorem stripComment_stripComment (t : Text) :
    stripComment (stripComment t) = stripComment t := by
  induction t with
  | nil => rfl
  | cons c t ih =>
      cases h : startsComment (c :: t) with
      | true => rw [stripComment_of_startsComment h]; rfl
      | false =>
          rw [stripComment_cons_of_not h]
          obtain ⟨comment, ht, _⟩ := exists_comment t
          have hpre : c :: stripComment t <+: c :: t := ⟨comment, by rw [List.cons_append, ← ht]⟩
          have hstrip : startsComment (c :: stripComment t) = false := by
            cases hstarts : startsComment (c :: stripComment t) with
            | false => rfl
            | true => exact absurd (startsComment_mono hpre hstarts) (by simp [h])
          rw [stripComment_cons_of_not hstrip, ih]

/-! ## Texts put together -/

/-- Nothing behind a comment matters. -/
theorem stripComment_append_of_ne {t : Text} (h : stripComment t ≠ t) (s : Text) :
    stripComment (t ++ s) = stripComment t := by
  induction t with
  | nil => exact absurd rfl h
  | cons c t ih =>
      cases hstarts : startsComment (c :: t) with
      | true =>
          rw [stripComment_of_startsComment hstarts]
          exact stripComment_of_startsComment (startsComment_mono ⟨s, rfl⟩ hstarts)
      | false =>
          rw [stripComment_cons_of_not hstarts, ne_eq, List.cons.injEq, not_and] at h
          have hrest := h rfl
          have ht : t ≠ [] := by
            rintro rfl
            exact hrest rfl
          have hwhole := (startsComment_cons_append c ht s).trans hstarts
          rw [List.cons_append, stripComment_cons_of_not hwhole, stripComment_cons_of_not hstarts,
            ih hrest]

/-- A text without a comment stays, whatever follows it, unless a marker forms across the seam. -/
theorem stripComment_append {t s : Text} (h : stripComment t = t)
    (hseam : ∀ c ∈ t.getLast?, startsComment (c :: s) = startsComment [c]) :
    stripComment (t ++ s) = t ++ stripComment s := by
  induction t with
  | nil => rfl
  | cons c t ih =>
      have hstarts : startsComment (c :: t) = false :=
        stripComment_eq_self_iff.mp h _ List.suffix_rfl
      have hrest : stripComment t = t := stripComment_of_part (List.suffix_cons c t).isInfix h
      cases t with
      | nil =>
          have hwhole : startsComment (c :: s) = false := (hseam c rfl).trans hstarts
          exact stripComment_cons_of_not hwhole
      | cons d t =>
          have hwhole := (startsComment_cons_append c (List.cons_ne_nil d t) s).trans hstarts
          rw [List.cons_append, stripComment_cons_of_not hwhole, ih hrest]
          · rfl
          · intro e he
            apply hseam e
            rw [List.getLast?_cons_cons]
            exact he

/-- A blank is part of no marker, so the search goes on behind it as at a start. -/
theorem stripComment_append_blank {t : Text} (h : stripComment t = t) {b : Char}
    (hb : Text.isBlank b = true) (s : Text) :
    stripComment (t ++ b :: s) = t ++ b :: stripComment s := by
  rw [stripComment_append h fun c _ => startsComment_cons_blank c hb s,
    stripComment_cons_of_not (startsComment_of_ne (ne_of_isBlank hb) s)]

/-- Without any character of a marker there is no comment. -/
theorem stripComment_of_ne {t : Text} (h : ∀ c ∈ t, c ≠ '#' ∧ c ≠ '/' ∧ c ≠ '-') :
    stripComment t = t := by
  rw [stripComment_eq_self_iff]
  intro s hs
  cases s with
  | nil => rfl
  | cons c s => exact startsComment_of_ne (h c (hs.subset List.mem_cons_self)) s

theorem stripComment_of_blank {t : Text} (h : ∀ c ∈ t, Text.isBlank c = true) :
    stripComment t = t :=
  stripComment_of_ne fun c hc => ne_of_isBlank (h c hc)

/-! ## What a line says -/

/-- Blanks and a comment behind a line leave what the line says. -/
theorem trim_stripComment_append (t : Text) {b : Char} (hb : Text.isBlank b = true) {s : Text}
    (hs : ∀ c ∈ stripComment s, Text.isBlank c = true) :
    Text.trim (stripComment (t ++ b :: s)) = Text.trim (stripComment t) := by
  by_cases h : stripComment t = t
  · rw [stripComment_append_blank h hb, h]
    exact Text.trim_append_blank (List.forall_mem_cons.mpr ⟨hb, hs⟩) t
  · rw [stripComment_append_of_ne h]

/-- Blanks in front are kept by the search for a comment. -/
theorem stripComment_blank_append {lead : Text} (h : ∀ c ∈ lead, Text.isBlank c = true)
    (t : Text) : stripComment (lead ++ t) = lead ++ stripComment t := by
  apply stripComment_append (stripComment_of_blank h)
  intro c hc
  obtain ⟨_, hslash, hdash⟩ := ne_of_isBlank (h c (List.mem_of_mem_getLast? hc))
  exact startsComment_cons_of_ne hslash hdash t

/-- Outer blanks do not matter to the search for a comment. -/
theorem cleanText_eq (raw : Text) : cleanText raw = Text.trim (stripComment raw) := by
  obtain ⟨lead, gap, hraw, hlead, hgap⟩ := Text.exists_trim raw
  have hright : Text.trim (stripComment (Text.trim raw ++ gap)) =
      Text.trim (stripComment (Text.trim raw)) := by
    cases gap with
    | nil => rw [List.append_nil]
    | cons b gap =>
        obtain ⟨hb, hgap⟩ := List.forall_mem_cons.mp hgap
        apply trim_stripComment_append _ hb
        rw [stripComment_of_blank hgap]
        exact hgap
  conv_rhs => rw [hraw, List.append_assoc, stripComment_blank_append hlead,
    Text.trim_blank_append hlead, hright]
  rfl

/-- What a line says has no comment. -/
theorem stripComment_cleanText (raw : Text) : stripComment (cleanText raw) = cleanText raw := by
  rw [cleanText_eq]
  exact stripComment_of_part (Text.trim_isInfix _) (stripComment_stripComment raw)

/-- A comment behind a blank leaves what the line says. -/
theorem cleanText_append_comment (raw : Text) {b : Char} (hb : Text.isBlank b = true)
    {marker : Text} (hmarker : marker ∈ commentMarkers) (comment : Text) :
    cleanText (raw ++ b :: (marker ++ comment)) = cleanText raw := by
  have hstarts : startsComment (marker ++ comment) = true :=
    startsComment_iff.mpr ⟨marker, hmarker, List.prefix_append marker comment⟩
  rw [cleanText_eq, cleanText_eq]
  apply trim_stripComment_append raw hb
  rw [stripComment_of_startsComment hstarts]
  exact fun c hc => absurd hc List.not_mem_nil

end Rsc
