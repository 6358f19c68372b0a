import Rsc.Proofs.Comments
import Rsc.Proofs.Lines
import Rsc.Proofs.Outcome

/-!
# Comments in a source text

A comment put behind a line of a source text belongs to that line as long as it holds no character
that ends a line, and then it changes nothing. The lines of a text file end at line feeds and
carriage returns only, but a source text is cut at other characters as well: behind one of these
a comment is source again, or at least moves every line below it.
-/

namespace Rsc

/-- A failure without the text of its line. -/
def Failure.withoutText : Failure → Failure
  | reported d => reported { d with text := [] }
  | broken fault => broken fault

/-- The words of a source text, or why and where there are none. -/
def assembledWords (source : Text) : Except Failure (List Int) :=
  ((assembleText source).map Program.words).mapError Failure.withoutText

/-- The comment changes no source text, behind whichever line of it the comment is put. -/
def CommentInert (marker comment : Text) : Prop :=
  ∀ before after, Text.EndsLine before after →
    assembledWords (before ++ ' ' :: (marker ++ comment) ++ after) =
      assembledWords (before ++ after)

/-! ## Comments of one line -/

theorem assemble_congr {raw raw' : List Text} (h : cleanLines raw = cleanLines raw') :
    assemble raw = assemble raw' := by
  unfold assemble
  rw [h]

theorem marker_no_end : ∀ marker ∈ commentMarkers, ∀ c ∈ marker, Text.isLineEnd c = false := by
  decide

/-- A comment without a line end leaves the whole program as it is. -/
theorem assembleText_insert_comment {before after : Text} (hends : Text.EndsLine before after)
    {marker : Text} (hmarker : marker ∈ commentMarkers) {comment : Text}
    (hcomment : ∀ c ∈ comment, Text.isLineEnd c = false) :
    assembleText (before ++ ' ' :: (marker ++ comment) ++ after) =
      assembleText (before ++ after) := by
  have hinserted : ∀ c ∈ ' ' :: (marker ++ comment), Text.isLineEnd c = false := by
    intro c hc
    rcases List.mem_cons.mp hc with rfl | hc
    · decide
    · rcases List.mem_append.mp hc with hc | hc
      · exact marker_no_end marker hmarker c hc
      · exact hcomment c hc
  obtain ⟨closed, line, rest, hnew, hold⟩ :=
    hends.exists_lines_insert hinserted (List.cons_ne_nil _ _)
  have hclean : cleanText (line ++ ' ' :: (marker ++ comment)) = cleanText line :=
    cleanText_append_comment line (by decide) hmarker comment
  apply assemble_congr
  rw [hnew]
  rcases hold with hold | ⟨rfl, rfl, hold⟩
  · rw [hold]
    apply cleanLines_congr
    simp [hclean]
  · rw [hold]
    exact cleanLines_append_silent closed hclean

/-! ## Comments of several lines -/

/-- A mnemonic that is reported as unknown is the first token of the instruction on the line that
the diagnostic points at. -/
theorem exists_line_of_unknownMnemonic {raw : List Text} {mnemonic : Text} {number : Int}
    {text : Text}
    (h : assemble raw = .error (.reported ⟨.unknownMnemonic mnemonic, number, text⟩)) :
    ∃ (i : Nat) (line : Text) (operands : List Text), raw[i]? = some line ∧
      number = (i + 1 : Nat) ∧ Text.tokens (instructionText line) = mnemonic :: operands := by
  have houtcome := outcome_of_assemble raw
  rw [h] at houtcome
  generalize hfailure : Failure.reported ⟨.unknownMnemonic mnemonic, number, text⟩ = failure
    at houtcome
  cases houtcome with
  | label _ _ hfault =>
      obtain rfl := (Diagnostic.mk.inj (Failure.reported.inj hfailure)).1
      cases hfault
  | size => cases hfailure
  | instruction _ _ hreached hfails =>
      subst hfailure
      cases hfails with
      | unknownMnemonic htokens _ =>
          obtain ⟨i, line, hget, rfl⟩ := exists_raw_of_mem_instructionLines hreached.mem
          exact ⟨i, line, _, hget, rfl, htokens⟩

theorem assembleText_of_assembledWords {source : Text} {d : Diagnostic}
    (h : assembledWords source = .error (.reported d)) :
    ∃ text, assembleText source = .error (.reported ⟨d.cause, d.line, text⟩) := by
  unfold assembledWords at h
  cases hrun : assembleText source with
  | ok p =>
      rw [hrun] at h
      cases h
  | error failure =>
      rw [hrun] at h
      cases failure with
      | broken fault => cases h
      | reported d' =>
          obtain rfl := Failure.reported.inj (Except.error.inj h)
          exact ⟨d'.text, rfl⟩

/-- A text with a line end, put in front of a line, takes up two lines at least. The second of
them does not depend on what follows. -/
theorem exists_second_line {inserted : Text} (hreturn : ∀ c ∈ inserted, c ≠ '\r')
    (hend : ¬ ∀ c ∈ inserted, Text.isLineEnd c = false) :
    ∃ second, ∀ line, (∀ c ∈ line, Text.isLineEnd c = false) → line ≠ [] →
      (Text.lines (inserted ++ '\n' :: line))[1]? = some second := by
  obtain ⟨closed, unclosed, hcons, _, hopen⟩ := Text.exists_open_line inserted
  have hlength : 1 < (closed ++ [unclosed]).length := by
    have hclosed : closed ≠ [] := mt hopen hend
    simpa using List.length_pos_iff.mpr hclosed
  refine ⟨(closed ++ [unclosed])[1], fun line hline hne => ?_⟩
  have hmerge : Text.mergeReturns (inserted ++ '\n' :: line) = inserted ++ '\n' :: line := by
    apply Text.mergeReturns_of_no_return
    intro c hc
    rcases List.mem_append.mp hc with hc | hc
    · exact hreturn c hc
    · rcases List.mem_cons.mp hc with rfl | hc
      · decide
      · exact Text.ne_return_of_no_end hline c hc
  have hlines : Text.lines (inserted ++ '\n' :: line) = (closed ++ [unclosed]) ++ [line] := by
    rw [Text.lines, hmerge, List.foldr_append, List.foldr_cons, Text.lineStep_end (by decide),
      Text.foldr_lineStep_nil_of_no_end hline hne, hcons]
    simp
  rw [hlines, List.getElem?_append_left hlength, List.getElem?_eq_getElem hlength]

/-- A comment that is put behind an empty first line and changes nothing leaves the second line to
what stood there. -/
theorem CommentInert.second_line {marker comment : Text} (h : CommentInert marker comment)
    (mnemonic : Text) {line : Text} (hrun : assembledWords ('\n' :: mnemonic) =
      .error (.reported ⟨.unknownMnemonic mnemonic, 2, []⟩))
    (hline : (Text.lines (' ' :: (marker ++ comment) ++ '\n' :: mnemonic))[1]? = some line) :
    ∃ operands, Text.tokens (instructionText line) = mnemonic :: operands := by
  have hends : Text.EndsLine [] ('\n' :: mnemonic) := ⟨by simp, by simp⟩
  have hsame := (h [] ('\n' :: mnemonic) hends).trans hrun
  obtain ⟨text, herror⟩ := assembleText_of_assembledWords hsame
  obtain ⟨i, line', operands, hget, hnumber, htokens⟩ := exists_line_of_unknownMnemonic herror
  obtain rfl : i = 1 := by
    have hnumber : (2 : Int) = (i + 1 : Nat) := hnumber
    omega
  obtain rfl := Option.some.inj (hget.symm.trans hline)
  exact ⟨operands, htokens⟩

/-- A comment is inert exactly when it holds none of the characters that end a line. -/
theorem commentInert_iff {marker : Text} (hmarker : marker ∈ commentMarkers) {comment : Text}
    (hcomment : ∀ c ∈ comment, c ≠ '\n' ∧ c ≠ '\r') :
    CommentInert marker comment ↔ ∀ c ∈ comment, Text.isLineEnd c = false := by
  constructor
  · intro hinert
    by_contra hend
    have hreturn : ∀ c ∈ ' ' :: (marker ++ comment), c ≠ '\r' := by
      intro c hc
      rcases List.mem_cons.mp hc with rfl | hc
      · decide
      · rcases List.mem_append.mp hc with hc | hc
        · exact Text.ne_return_of_no_end (marker_no_end marker hmarker) c hc
        · exact (hcomment c hc).2
    have hends : ¬ ∀ c ∈ ' ' :: (marker ++ comment), Text.isLineEnd c = false := by
      intro hnone
      exact hend fun c hc => hnone c (List.mem_cons_of_mem _ (List.mem_append_right _ hc))
    -- The second line is part of the comment, and cannot be both of two lines that stood there.
    obtain ⟨second, hsecond⟩ := exists_second_line hreturn hends
    obtain ⟨operands, htokens⟩ := hinert.second_line ['A'] (by decide)
      (hsecond ['A'] (by decide) (by decide))
    obtain ⟨operands', htokens'⟩ := hinert.second_line ['B'] (by decide)
      (hsecond ['B'] (by decide) (by decide))
    exact absurd (List.cons.inj (htokens.symm.trans htokens')).1 (by decide)
  · intro hnone before after hends
    unfold assembledWords
    rw [assembleText_insert_comment hends hmarker hnone]

theorem commentInert_words :
    CommentInert "#".toList " stop here".toList ∧
      ¬ CommentInert "//".toList " stop\x0bHLT".toList := by
  constructor
  · exact (commentInert_iff (by decide) (by decide)).mpr (by decide)
  · intro hinert
    exact absurd ((commentInert_iff (by decide) (by decide)).mp hinert) (by decide)

/-- Behind a vertical tab the comment is an instruction. -/
theorem assembledWords_comment_tab :
    assembledWords "NOP\n".toList = .ok [0] ∧
      assembledWords "NOP # off\x0bHLT\n".toList = .ok [0, 4096] := by
  decide

end Rsc
