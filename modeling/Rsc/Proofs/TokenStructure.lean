import Rsc.Proofs.Correspondence

/-!
# Sources with the same tokens

Nothing but the tokens of its lines decides what a source assembles to. Whether a line begins with
a marker, which name it defines and which tokens its instruction has can all be read off its
tokens, so that sources with the same tokens correspond line by line. They give the same words and
labels, or fail for the same reason at the same one of the lines that say something.
-/

namespace Rsc

/-- The tokens of each line that says something. -/
def sourceTokens (raw : List Text) : List (List Text) :=
  (cleanLines raw).map fun line => Text.tokens line.text

/-- The numbers of lines at the same place among those that say something. -/
def SamePlace (first second : List Text) (number number' : Int) : Prop :=
  ∃ (k : Nat) (line line' : Line), (cleanLines first)[k]? = some line ∧
    (cleanLines second)[k]? = some line' ∧ number = line.number ∧ number' = line'.number

/-- Two failures for the same reason, with diagnostics at corresponding lines. -/
inductive Failure.Alike (Placed : Int → Int → Prop) : Failure → Failure → Prop where
  | reported {d d' : Diagnostic} (hcause : d.cause = d'.cause) (hplace : Placed d.line d'.line) :
      Alike Placed (.reported d) (.reported d')
  | broken (fault : Fault) : Alike Placed (.broken fault) (.broken fault)

/-- Two sources give the same words and labels, or fail alike at the same place. -/
def AssembleAlike (first second : List Text) : Prop :=
  Agree (Failure.Alike (SamePlace first second))
    (fun p q => p.words = q.words ∧ p.labels = q.labels) (assemble first) (assemble second)

/-! ## Lines read off their tokens -/

/-- The tokens after the label marker, on a line with these tokens. -/
def markerTokens? : List Text → Option (List Text)
  | ('.' :: t) :: rest => some (if t.isEmpty then rest else t :: rest)
  | _ => none

/-- The tokens of the instruction, on a line with these tokens. -/
def instructionTokens? (tokens : List Text) : Option (List Text) :=
  match markerTokens? tokens with
  | none => some tokens
  | some after => if after.tail.isEmpty then none else some after.tail

theorem Text.tokens_takeWhile (t : Text) :
    tokens t =
      if (t.takeWhile fun c => !isBlank c).isEmpty then tokens (t.dropWhile fun c => !isBlank c)
      else (t.takeWhile fun c => !isBlank c) :: tokens (t.dropWhile fun c => !isBlank c) := by
  cases t with
  | nil => rfl
  | cons c t =>
      cases hc : isBlank c with
      | true => simp [hc]
      | false =>
          rw [tokens_cons_of_not_blank hc]
          simp [hc]

/-- What follows the marker is told by the tokens of the line. -/
theorem Line.afterMarker?_eq_markerTokens? {line : Line}
    (hhead : ∀ c ∈ line.text.head?, Text.isBlank c = false) :
    line.afterMarker? = markerTokens? (Text.tokens line.text) := by
  unfold Line.afterMarker?
  split
  next t ht =>
    have hdot : Text.isBlank '.' = false := by decide
    rw [ht, Text.tokens_cons_of_not_blank hdot, Text.tokens_takeWhile t]
    simp [hdot, markerTokens?]
  next hmarker =>
    cases htext : line.text with
    | nil => rfl
    | cons c t =>
        have hc : Text.isBlank c = false := hhead c (by rw [htext]; rfl)
        have hdot : c ≠ '.' := by
          rintro rfl
          exact hmarker t htext
        rw [Text.tokens_cons_of_not_blank hc]
        simp [hc, markerTokens?, hdot]

/-- The tokens of the instruction are told by those of the line. -/
theorem Line.map_tokens_instruction? {line : Line}
    (hhead : ∀ c ∈ line.text.head?, Text.isBlank c = false) :
    (line.instruction?.map fun i => Text.tokens i.text) =
      instructionTokens? (Text.tokens line.text) := by
  unfold instructionTokens?
  rw [← Line.afterMarker?_eq_markerTokens? hhead]
  by_cases hmarker : ∃ t, line.text = '.' :: t
  · obtain ⟨t, ht⟩ := hmarker
    have hafter : line.afterMarker? = some (Text.tokens t) := by simp [Line.afterMarker?, ht]
    rcases Statement.ofText_marker t with
      ⟨htokens, hstatement⟩ | ⟨name, rest, htokens, hrest, hstatement⟩
    · simp [Line.instruction?, ht, hstatement, hafter, htokens]
    · by_cases hempty : rest = []
      · simp [Line.instruction?, ht, hstatement, hafter, htokens, hempty]
      · have hsome : Text.tokens rest ≠ [] := mt hrest.mpr hempty
        simp [Line.instruction?, ht, hstatement, hafter, htokens, hempty, hsome]
  · have hplain : ∀ t, line.text ≠ '.' :: t := fun t ht => hmarker ⟨t, ht⟩
    have hafter := Line.afterMarker?_of_no_marker hplain
    have hstatement := Statement.ofText_of_no_marker hplain
    simp [Line.instruction?, hstatement, hafter]

/-! ## Sources in step -/

section

variable {first second : List Text}

/-- Two instructions at the same place, with the same tokens. -/
def SameTokens (first second : List Text) (line line' : Line) : Prop :=
  Text.tokens line.text = Text.tokens line'.text ∧
    SamePlace first second line.number line'.number

theorem head?_of_mem_cleanLines {raw : List Text} {line : Line} (h : line ∈ cleanLines raw) :
    ∀ c ∈ line.text.head?, Text.isBlank c = false := by
  obtain ⟨i, text, _, rfl, _⟩ := mem_cleanLines_iff.mp h
  exact head?_cleanText text

theorem Line.corresponds_of_tokens {line line' : Line} (hline : line ∈ cleanLines first)
    (hline' : line' ∈ cleanLines second) (h : SameTokens first second line line') :
    line.Corresponds (SamePlace first second) (SameTokens first second) line' := by
  obtain ⟨htokens, hplace⟩ := h
  have hhead := head?_of_mem_cleanLines hline
  have hhead' := head?_of_mem_cleanLines hline'
  have hafter : line.afterMarker? = line'.afterMarker? := by
    rw [afterMarker?_eq_markerTokens? hhead, afterMarker?_eq_markerTokens? hhead', htokens]
  have hinstruction : (line.instruction?.map fun i => Text.tokens i.text) =
      line'.instruction?.map fun i => Text.tokens i.text := by
    rw [map_tokens_instruction? hhead, map_tokens_instruction? hhead', htokens]
  refine ⟨hplace, by rw [name?, name?, hafter], by rw [lacksName, lacksName, hafter], ?_⟩
  cases hfirst : line.instruction? with
  | none =>
      cases hsecond : line'.instruction? with
      | none => exact .none
      | some i' => simp [hfirst, hsecond] at hinstruction
  | some i =>
      cases hsecond : line'.instruction? with
      | none => simp [hfirst, hsecond] at hinstruction
      | some i' =>
          -- an instruction has the number of the line that carries it
          obtain ⟨hnumber, _⟩ := instruction?_eq_some hfirst (tokens_of_mem_cleanLines hline)
          obtain ⟨hnumber', _⟩ := instruction?_eq_some hsecond (tokens_of_mem_cleanLines hline')
          refine .some ⟨by simpa [hfirst, hsecond] using hinstruction, ?_⟩
          rw [hnumber, hnumber']
          exact hplace

theorem corresponds_of_sourceTokens (h : sourceTokens first = sourceTokens second) :
    List.Forall₂ (Line.Corresponds (SamePlace first second) (SameTokens first second))
      (cleanLines first) (cleanLines second) := by
  have hlength : (cleanLines first).length = (cleanLines second).length := by
    simpa [sourceTokens] using congrArg List.length h
  refine List.forall₂_iff_get.mpr ⟨hlength, ?_⟩
  intro k hk hk'
  apply Line.corresponds_of_tokens (List.getElem_mem hk) (List.getElem_mem hk')
  constructor
  · simpa [sourceTokens, hk, hk'] using congrArg (·[k]?) h
  · exact ⟨k, _, _, List.getElem?_eq_getElem hk, List.getElem?_eq_getElem hk', rfl, rfl⟩

/-! ## Runs in step -/

theorem checkSize_alike {lines lines' : List Line}
    (h : List.Forall₂ (SameTokens first second) lines lines') :
    Agree (Failure.Alike (SamePlace first second)) (fun _ _ => True) (checkSize lines)
      (checkSize lines') := by
  have hlength := h.length_eq
  by_cases hsize : lines.length ≤ maxProgramSize
  · rw [checkSize_of_le hsize, checkSize_of_le (hlength ▸ hsize)]
    exact .ok trivial
  · have hsize : maxProgramSize < lines.length := Nat.lt_of_not_le hsize
    have hsize' : maxProgramSize < lines'.length := hlength ▸ hsize
    rw [checkSize_of_getElem? (List.getElem?_eq_getElem hsize),
      checkSize_of_getElem? (List.getElem?_eq_getElem hsize'), hlength]
    exact .error (.reported rfl ((List.forall₂_iff_get.mp h).2 _ hsize hsize').2)

/-- Lines with the same tokens have the same word or fail for the same cause. -/
theorem encodeLine_alike {line line' : Line} (h : SameTokens first second line line')
    (labels : LabelTable) :
    Agree (Failure.Alike (SamePlace first second)) Eq (encodeLine labels line)
      (encodeLine labels line') := by
  obtain ⟨htokens, hplace⟩ := h
  unfold encodeLine
  rw [htokens]
  split
  next => exact .error (.broken _)
  next =>
    split
    next => exact .error (.reported rfl hplace)
    next =>
      split
      next => exact .error (.broken _)
      next => exact .error (.reported rfl hplace)
      next =>
        split
        next => exact .error (.broken _)
        next => exact .ok rfl

theorem listing_alike {lines lines' : List Line}
    (h : List.Forall₂ (SameTokens first second) lines lines') (labels : LabelTable) :
    Agree (Failure.Alike (SamePlace first second))
      (List.Forall₂ fun entry entry' => entry.word = entry'.word)
      (lines.zipIdx.mapM (encodeEntry labels)) (lines'.zipIdx.mapM (encodeEntry labels)) := by
  apply Agree.mapM (forall₂_zipIdx h 0)
  intro item item' hitem
  apply (encodeLine_alike hitem.1 labels).bind
  intro word word' hword
  exact .ok hword

theorem assembleAlike_of_sourceTokens (h : sourceTokens first = sourceTokens second) :
    AssembleAlike first second := by
  -- The phases in their order: definitions, size, instructions.
  have hresolve := resolve_of_corresponds (corresponds_of_sourceTokens h)
  unfold AssembleAlike assemble
  apply (hresolve.mapError fun d d' hd => .reported hd.1 hd.2).bind
  rintro ⟨labels, instructions⟩ ⟨labels', instructions'⟩ ⟨rfl, hinstructions⟩
  apply (checkSize_alike hinstructions).bind
  intro _ _ _
  apply (listing_alike hinstructions labels).bind
  intro listing listing' hwords
  rw [← List.forall₂_map_right_iff, ← List.forall₂_map_left_iff, List.forall₂_eq_eq_eq] at hwords
  exact .ok ⟨hwords, rfl⟩

end

/-! ## Layout -/

theorem sourceTokens_append (first second : List Text) :
    sourceTokens (first ++ second) = sourceTokens first ++ sourceTokens second := by
  simp [sourceTokens, cleanLines_append]

theorem sourceTokens_cons (line : Text) (rest : List Text) :
    sourceTokens (line :: rest) =
      (if Text.tokens (cleanText line) = [] then [] else [Text.tokens (cleanText line)])
        ++ sourceTokens rest := by
  have hempty : cleanText line = [] ↔ Text.tokens (cleanText line) = [] := by
    unfold cleanText
    rw [Text.tokens_trim, Text.trim_eq_nil_iff]
  have hline : sourceTokens [line] =
      if Text.tokens (cleanText line) = [] then [] else [Text.tokens (cleanText line)] := by
    by_cases h : Text.tokens (cleanText line) = []
    · simp [sourceTokens, cleanLines, hempty.mpr h]
    · simp [sourceTokens, cleanLines, h, mt hempty.mp h]
  rw [← hline]
  exact sourceTokens_append [line] rest

/-- Sources with the same tokens assemble alike. So a line that says nothing can be put in or left
out, and a line can be written in any way that keeps its tokens. -/
theorem assembleAlike_of_tokens (first second : List Text) :
    (sourceTokens first = sourceTokens second → AssembleAlike first second) ∧
      (∀ line, Text.tokens (cleanText line) = [] →
        AssembleAlike (first ++ line :: second) (first ++ second)) ∧
      ∀ line line', Text.tokens (cleanText line) = Text.tokens (cleanText line') →
        AssembleAlike (first ++ line :: second) (first ++ line' :: second) := by
  refine ⟨assembleAlike_of_sourceTokens, ?_, ?_⟩
  · intro line hline
    apply assembleAlike_of_sourceTokens
    rw [sourceTokens_append, sourceTokens_append, sourceTokens_cons, if_pos hline, List.nil_append]
  · intro line line' hlines
    apply assembleAlike_of_sourceTokens
    rw [sourceTokens_append, sourceTokens_append, sourceTokens_cons, sourceTokens_cons, hlines]

/-- A loop written out in another layout, and a fault that moves with its line. -/
theorem assembleAlike_of_tokens_loop :
    AssembleAlike [".loop INC r1".toList, "JMP .loop".toList]
        ["-- up".toList, "\t.loop\tINC  r1".toList, [], " JMP .loop# again".toList] ∧
      AssembleAlike ["NOP".toList, " // here".toList, "MOV r1".toList]
        ["NOP".toList, "MOV r1".toList] ∧
      AssembleAlike ["NOP".toList, "MOV r1".toList] ["NOP".toList, "  MOV\tr1 # to".toList] ∧
      assemble ["NOP".toList, " // here".toList, "MOV r1".toList] =
        .error (.reported ⟨.arity 2 1, 3, "MOV r1".toList⟩) ∧
      assemble ["NOP".toList, "MOV r1".toList] =
        .error (.reported ⟨.arity 2 1, 2, "MOV r1".toList⟩) := by
  refine ⟨?_, ?_, ?_, by decide, by decide⟩
  · exact (assembleAlike_of_tokens _ _).1 (by decide)
  · exact (assembleAlike_of_tokens ["NOP".toList] ["MOV r1".toList]).2.1 _ (by decide)
  · exact (assembleAlike_of_tokens ["NOP".toList] []).2.2 _ _ (by decide)

end Rsc
