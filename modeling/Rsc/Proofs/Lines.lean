import Mathlib.Data.List.Basic
import Rsc.Text.Lines

/-!
# Cutting a text into lines

A text that is cut anywhere but inside a pair of carriage return and line feed is cut into lines
part by part: the lines of the first part stay, except that the last of them, still open, goes on
with the first line of the second part.
-/

namespace Rsc.Text

theorem mergeReturns_append {before after : Text}
    (h : ¬ (before.getLast? = some '\r' ∧ after.head? = some '\n')) :
    mergeReturns (before ++ after) = mergeReturns before ++ mergeReturns after := by
  induction before with
  | nil => rfl
  | cons c before ih =>
      cases before with
      | nil =>
          have hc : ¬ (c = '\r' ∧ after.head? = some '\n') := by simpa using h
          rw [List.singleton_append, mergeReturns_cons, if_neg hc, mergeReturns_cons]
          simp
      | cons d before =>
          rw [List.getLast?_cons_cons] at h
          have hhead : (d :: before ++ after).head? = (d :: before).head? := rfl
          rw [List.cons_append, mergeReturns_cons, mergeReturns_cons c (d :: before), ih h, hhead]
          by_cases hpair : c = '\r' ∧ (d :: before).head? = some '\n'
          · rw [if_pos hpair, if_pos hpair]
          · rw [if_neg hpair, if_neg hpair, List.cons_append]

theorem mergeReturns_of_no_return {t : Text} (h : ∀ c ∈ t, c ≠ '\r') : mergeReturns t = t := by
  induction t with
  | nil => rfl
  | cons c t ih =>
      obtain ⟨hc, ht⟩ := List.forall_mem_cons.mp h
      rw [mergeReturns_cons, if_neg fun hpair => hc hpair.1, ih ht]

/-- Merging keeps a line end in front. -/
theorem head?_mergeReturns {t : Text} (h : ∀ c ∈ t.head?, isLineEnd c = true) :
    ∀ c ∈ (mergeReturns t).head?, isLineEnd c = true := by
  intro c hc
  cases t with
  | nil => cases hc
  | cons d t =>
      rw [mergeReturns_cons] at hc
      split at hc
      next hpair =>
        cases t with
        | nil => cases hpair.2
        | cons e t =>
            obtain rfl : e = '\n' := Option.some.inj hpair.2
            rw [mergeReturns_cons, if_neg (by simp)] at hc
            cases hc
            decide
      next =>
        obtain rfl : d = c := Option.some.inj hc
        exact h d rfl

/-! ## Closed and open lines -/

/-- A line end in front opens an empty line before the others. -/
theorem lineStep_end {c : Char} (hc : isLineEnd c = true) (lines : List Text) :
    lineStep c lines = [] :: lines :=
  if_pos hc

theorem lineStep_cons {c : Char} (hc : isLineEnd c = false) (line : Text) (rest : List Text) :
    lineStep c (line :: rest) = (c :: line) :: rest :=
  if_neg (by simp [hc])

theorem lineStep_nil {c : Char} (hc : isLineEnd c = false) : lineStep c [] = [[c]] :=
  if_neg (by simp [hc])

theorem foldr_lineStep_of_no_end {t : Text} (h : ∀ c ∈ t, isLineEnd c = false) (line : Text)
    (rest : List Text) : t.foldr lineStep (line :: rest) = (t ++ line) :: rest := by
  induction t with
  | nil => rfl
  | cons c t ih =>
      obtain ⟨hc, ht⟩ := List.forall_mem_cons.mp h
      rw [List.foldr_cons, ih ht, lineStep_cons hc, List.cons_append]

/-- A text without line ends is one line. -/
theorem foldr_lineStep_nil_of_no_end {t : Text} (h : ∀ c ∈ t, isLineEnd c = false)
    (hne : t ≠ []) : t.foldr lineStep [] = [t] := by
  obtain ⟨before, c, rfl⟩ := (List.eq_nil_or_concat' t).resolve_left hne
  have hc : isLineEnd c = false := h c (by simp)
  rw [List.foldr_append, List.foldr_cons, List.foldr_nil, lineStep_nil hc]
  exact foldr_lineStep_of_no_end (fun d hd => h d (List.mem_append_left _ hd)) [c] []

/-- No line holds a line end. -/
theorem no_end_of_mem_lines {t line : Text} (h : line ∈ lines t) :
    ∀ c ∈ line, isLineEnd c = false := by
  unfold lines at h
  generalize mergeReturns t = merged at h
  induction merged generalizing line with
  | nil => cases h
  | cons c merged ih =>
      rw [List.foldr_cons] at h
      cases hc : isLineEnd c with
      | true =>
          rw [lineStep_end hc] at h
          rcases List.mem_cons.mp h with rfl | h
          · simp
          · exact ih h
      | false =>
          cases hlines : merged.foldr lineStep [] with
          | nil =>
              rw [hlines, lineStep_nil hc, List.mem_singleton] at h
              rw [h]
              simpa using hc
          | cons first rest =>
              rw [hlines] at ih
              rw [hlines, lineStep_cons hc] at h
              rcases List.mem_cons.mp h with rfl | h
              · exact List.forall_mem_cons.mpr ⟨hc, ih List.mem_cons_self⟩
              · exact ih (List.mem_cons_of_mem _ h)

/-- Cutting a text leaves closed lines, one at least if there is a line end, and an open one, which
goes on in what follows. -/
theorem exists_open_line (t : Text) :
    ∃ closed unclosed, (∀ line rest, t.foldr lineStep (line :: rest) =
        closed ++ (unclosed ++ line) :: rest) ∧
      t.foldr lineStep [] = closed ++ (if unclosed = [] then [] else [unclosed]) ∧
      (closed = [] → ∀ c ∈ t, isLineEnd c = false) := by
  induction t with
  | nil => exact ⟨[], [], fun _ _ => rfl, rfl, by simp⟩
  | cons c t ih =>
      obtain ⟨closed, unclosed, hcons, hnil, hopen⟩ := ih
      simp only [List.foldr_cons, hcons, hnil]
      by_cases hc : isLineEnd c = true
      · refine ⟨[] :: closed, unclosed, ?_, ?_, by simp⟩
        · intro line rest
          exact lineStep_end hc _
        · exact lineStep_end hc _
      · rw [Bool.not_eq_true] at hc
        cases closed with
        | nil =>
            refine ⟨[], c :: unclosed, ?_, ?_, fun _ => List.forall_mem_cons.mpr ⟨hc, hopen rfl⟩⟩
            · intro line rest
              exact lineStep_cons hc _ _
            · cases unclosed with
              | nil => exact lineStep_nil hc
              | cons d unclosed => exact lineStep_cons hc _ _
        | cons first closed =>
            refine ⟨(c :: first) :: closed, unclosed, ?_, ?_, by simp⟩
            · intro line rest
              exact lineStep_cons hc _ _
            · exact lineStep_cons hc _ _

/-! ## Ends of lines in text files -/

/-- Between the two parts of a text, a line of a text file ends: a line feed, a carriage return or
both together follow, or nothing. -/
structure EndsLine (before after : Text) : Prop where
  terminated : ∀ c ∈ after.head?, c = '\n' ∨ c = '\r'
  whole : ¬ (before.getLast? = some '\r' ∧ after.head? = some '\n')

theorem EndsLine.isLineEnd {before after : Text} (h : EndsLine before after) :
    ∀ c ∈ after.head?, Text.isLineEnd c = true := by
  intro c hc
  rcases h.terminated c hc with rfl | rfl <;> decide

theorem ne_return_of_no_end {t : Text} (h : ∀ c ∈ t, Text.isLineEnd c = false) :
    ∀ c ∈ t, c ≠ '\r' := by
  rintro c hc rfl
  exact absurd (h '\r' hc) (by decide)

theorem EndsLine.lines_append {before after : Text} (h : EndsLine before after) :
    lines (before ++ after) = (mergeReturns before).foldr lineStep (lines after) := by
  rw [lines, mergeReturns_append h.whole, List.foldr_append]
  rfl

theorem lines_insert {before inserted after : Text}
    (hinserted : ∀ c ∈ inserted, Text.isLineEnd c = false) (hne : inserted ≠ []) :
    lines (before ++ inserted ++ after) =
      (mergeReturns before).foldr lineStep (inserted.foldr lineStep (lines after)) := by
  have hreturn := ne_return_of_no_end hinserted
  have hfeed : ¬ (before.getLast? = some '\r' ∧ inserted.head? = some '\n') := by
    rintro ⟨_, hhead⟩
    exact absurd (hinserted '\n' (List.mem_of_mem_head? hhead)) (by decide)
  have hback : ¬ ((before ++ inserted).getLast? = some '\r' ∧ after.head? = some '\n') := by
    rintro ⟨hlast, _⟩
    rw [List.getLast?_append_of_ne_nil _ hne] at hlast
    exact hreturn '\r' (List.mem_of_mem_getLast? hlast) rfl
  rw [lines, mergeReturns_append hback, mergeReturns_append hfeed,
    mergeReturns_of_no_return hreturn, List.foldr_append, List.foldr_append]
  rfl

/-- What follows the end of a line is cut into no line, or into an empty one and others. -/
theorem EndsLine.lines_after {before after : Text} (h : EndsLine before after) :
    lines after = [] ∨ ∃ rest, lines after = [] :: rest := by
  have hhead := head?_mergeReturns h.isLineEnd
  unfold lines
  cases hafter : mergeReturns after with
  | nil => exact Or.inl rfl
  | cons c t =>
      rw [hafter] at hhead
      exact Or.inr ⟨_, lineStep_end (hhead c rfl) _⟩

/-- A text without a line end that is put behind a line becomes part of the line, or a line of its
own at the end. -/
theorem EndsLine.exists_lines_insert {before after : Text} (h : EndsLine before after)
    {inserted : Text} (hinserted : ∀ c ∈ inserted, Text.isLineEnd c = false) (hne : inserted ≠ []) :
    ∃ closed line rest,
      lines (before ++ inserted ++ after) = closed ++ (line ++ inserted) :: rest ∧
        (lines (before ++ after) = closed ++ line :: rest ∨
          line = [] ∧ rest = [] ∧ lines (before ++ after) = closed) := by
  obtain ⟨closed, unclosed, hcons, hnil, _⟩ := exists_open_line (mergeReturns before)
  rw [Text.lines_insert hinserted hne, h.lines_append]
  rcases h.lines_after with hafter | ⟨rest, hafter⟩
  · rw [hafter, foldr_lineStep_nil_of_no_end hinserted hne, hcons, hnil]
    refine ⟨closed, unclosed, [], rfl, ?_⟩
    by_cases hopen : unclosed = []
    · exact Or.inr ⟨hopen, rfl, by simp [hopen]⟩
    · exact Or.inl (by simp [hopen])
  · rw [hafter, foldr_lineStep_of_no_end hinserted, hcons, hcons]
    exact ⟨closed, unclosed, rest, by simp, Or.inl (by simp)⟩

end Rsc.Text
