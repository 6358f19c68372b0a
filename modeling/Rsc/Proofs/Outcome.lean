import Rsc.Proofs.Assembly

/-!
# The outcome of a run

Every run has exactly one outcome, and the source determines it without reference to the passes:
the first faulty definition, the first instruction without an address, the first instruction that
fails, or a word for each instruction. A run always ends in a program or in a diagnostic at a
source line, unless it meets a decimal literal that is too long to read.
-/

namespace Rsc

/-- The instruction on a line fails in no way. -/
def LinePasses (labels : LabelTable) (line : Line) : Prop :=
  ∀ failure, ¬ LineFails labels line failure

/-- What the source says about the outcome of its run. -/
inductive Outcome (raw : List Text) : Except Failure (List Int) → Prop where
  /-- A definition without a name, or of a name that is already defined, after sound ones. -/
  | label {before after : List Line} {line : Line} {cause : Cause}
      (hlines : cleanLines raw = before ++ line :: after) (hsound : LabelsSound before)
      (hfault : LabelFault (definedNames before) line cause) :
      Outcome raw (.error (.reported ⟨cause, line.number, line.text⟩))
  /-- Sound definitions, and an instruction after as many as there are addresses. -/
  | size {line : Line} (hsound : LabelsSound (cleanLines raw))
      (hline : (sourceInstructions raw)[1024]? = some line) :
      Outcome raw (.error (.reported
        ⟨.programTooLarge (sourceInstructions raw).length 1024, line.number, line.text⟩))
  /-- Sound definitions, an address for each instruction, and an instruction that fails after
  others that pass. -/
  | instruction {line : Line} {failure : Failure} (hsound : LabelsSound (cleanLines raw))
      (hsize : (sourceInstructions raw).length ≤ 1024)
      (hreached : Reaches (LinePasses (sourceLabels raw)) (sourceInstructions raw) line)
      (hfails : LineFails (sourceLabels raw) line failure) : Outcome raw (.error failure)
  /-- Nothing of the kind, and a word for each instruction. -/
  | words {words : List Int} (hsound : LabelsSound (cleanLines raw))
      (hsize : (sourceInstructions raw).length ≤ 1024)
      (hpass : ∀ line ∈ sourceInstructions raw, LinePasses (sourceLabels raw) line)
      (hwords : List.Forall₂ (LineEncodes (sourceLabels raw)) (sourceInstructions raw) words) :
      Outcome raw (.ok words)

/-! ## Instructions of a source -/

theorem encodeLine_source_eq_error_iff {raw : List Text} {line : Line}
    (hline : line ∈ sourceInstructions raw) {failure : Failure} :
    encodeLine (sourceLabels raw) line = .error failure ↔
      LineFails (sourceLabels raw) line failure :=
  encodeLine_eq_error_iff nonneg_of_mem_sourceLabels (mem_instructionLines_cleanLines hline).2

theorem linePasses_iff {raw : List Text} {line : Line} (hline : line ∈ sourceInstructions raw) :
    LinePasses (sourceLabels raw) line ↔
      ∃ word, encodeLine (sourceLabels raw) line = .ok word := by
  unfold LinePasses
  simp only [← encodeLine_source_eq_error_iff hline]
  cases encodeLine (sourceLabels raw) line <;> simp

/-- The first instruction that fails decides a run that gets to the instructions. -/
theorem assemble_of_fails {raw : List Text} {line : Line} {failure : Failure}
    (hsound : LabelsSound (cleanLines raw))
    (hsize : (sourceInstructions raw).length ≤ maxProgramSize)
    (hreached : Reaches (LinePasses (sourceLabels raw)) (sourceInstructions raw) line)
    (hfails : LineFails (sourceLabels raw) line failure) : assemble raw = .error failure := by
  have hmapM : (sourceInstructions raw).mapM (encodeLine (sourceLabels raw)) = .error failure := by
    rw [mapM_eq_error_iff]
    refine ⟨line, hreached.mono fun earlier hmem hpass => (linePasses_iff hmem).mp hpass, ?_⟩
    exact (encodeLine_source_eq_error_iff hreached.mem).mpr hfails
  rw [assemble_of_sound hsound hsize, hmapM]
  rfl

/-! ## Exactly one outcome -/

/-- The assembly of every source ends as the rules say. -/
theorem outcome_of_assemble (raw : List Text) :
    Outcome raw ((assemble raw).map Program.words) := by
  -- The phases in their order: definitions, size, instructions.
  rcases sound_or_fault (cleanLines raw) with
    hsound | ⟨before, line, after, cause, hlines, hsound, hfault⟩
  · by_cases hsize : (sourceInstructions raw).length ≤ 1024
    · rcases Reaches.all_or_stops (LinePasses (sourceLabels raw)) (sourceInstructions raw) with
        hpass | ⟨line, hreached, hstop⟩
      · have hwords : ∃ words,
            (sourceInstructions raw).mapM (encodeLine (sourceLabels raw)) = .ok words := by
          cases hmapM : (sourceInstructions raw).mapM (encodeLine (sourceLabels raw)) with
          | ok words => exact ⟨words, rfl⟩
          | error failure =>
              obtain ⟨line, hreached, hline⟩ := mapM_eq_error_iff.mp hmapM
              have hfails := (encodeLine_source_eq_error_iff hreached.mem).mp hline
              exact absurd hfails (hpass line hreached.mem failure)
        obtain ⟨words, hwords⟩ := hwords
        have hforall := mapM_encodeLine_eq_ok_iff.mp hwords
        rw [assemble_of_encodes hsound hsize hforall]
        change Outcome raw (.ok ((listingOf _ words).map Entry.word))
        rw [words_listingOf hforall.length_eq]
        exact .words hsound hsize hpass hforall
      · obtain ⟨failure, hfails⟩ := not_forall_not.mp hstop
        rw [assemble_of_fails hsound hsize hreached hfails]
        exact .instruction hsound hsize hreached hfails
    · have hline : (sourceInstructions raw)[1024]? = some _ :=
        List.getElem?_eq_getElem (Nat.lt_of_not_le hsize)
      rw [assemble_of_size hsound hline]
      exact .size hsound hline
  · rw [assemble_of_fault hlines hsound hfault]
    exact .label hlines hsound hfault

/-- The rules leave no choice, so an outcome by them is that of the assembly. -/
theorem assemble_of_outcome {raw : List Text} {outcome : Except Failure (List Int)}
    (h : Outcome raw outcome) : (assemble raw).map Program.words = outcome := by
  cases h with
  | label hlines hsound hfault =>
      rw [assemble_of_fault hlines hsound hfault]
      rfl
  | size hsound hline =>
      rw [assemble_of_size hsound hline]
      rfl
  | instruction hsound hsize hreached hfails =>
      rw [assemble_of_fails hsound hsize hreached hfails]
      rfl
  | words hsound hsize _ hwords =>
      rw [assemble_of_encodes hsound hsize hwords]
      change Except.ok ((listingOf _ _).map Entry.word) = _
      rw [words_listingOf hwords.length_eq]

/-! ## Where diagnostics point -/

theorem LineFails.line_eq {labels : LabelTable} {line : Line} {d : Diagnostic}
    (h : LineFails labels line (.reported d)) : d.line = line.number := by
  cases h <;> rfl

/-- A diagnostic points at a line of the source. -/
theorem line_of_assemble_reported {raw : List Text} {d : Diagnostic}
    (h : assemble raw = .error (.reported d)) : 1 ≤ d.line ∧ d.line ≤ raw.length := by
  have houtcome := outcome_of_assemble raw
  rw [h] at houtcome
  -- Only the outcomes that are failures remain, and each names the line it was found on.
  generalize hfailure : Failure.reported d = failure at houtcome
  cases houtcome with
  | label hlines =>
      obtain rfl := Failure.reported.inj hfailure
      exact number_of_mem_cleanLines (by rw [hlines]; simp)
  | size _ hline =>
      obtain rfl := Failure.reported.inj hfailure
      exact (mem_instructionLines_cleanLines (List.mem_of_getElem? hline)).1
  | instruction _ _ hreached hfails =>
      subst hfailure
      rw [hfails.line_eq]
      exact (mem_instructionLines_cleanLines hreached.mem).1

/-- A run has the outcome that its source determines, no other, and every diagnostic points at a
line of the source. -/
theorem assemble_outcome (raw : List Text) :
    (∀ outcome, (assemble raw).map Program.words = outcome ↔ Outcome raw outcome) ∧
      ∀ d, assemble raw = .error (.reported d) → 1 ≤ d.line ∧ d.line ≤ raw.length := by
  refine ⟨?_, fun d => line_of_assemble_reported⟩
  intro outcome
  constructor
  · rintro rfl
    exact outcome_of_assemble raw
  · exact assemble_of_outcome

/-! ## Runs that break down -/

/-- The operands of an instruction pass up to one that its field reads as a literal, and that is a
decimal literal of so many digits, more than can be read. -/
def LineOverlong (labels : LabelTable) (line : Line) (digits : Nat) : Prop :=
  ∃ mnemonic operands instruction field token literal,
    Text.tokens line.text = mnemonic :: operands ∧
    Catalog.lookup mnemonic = some instruction ∧
    OperandReached labels instruction.fields operands field token ∧
    field.readsLiteral token = true ∧ Literal.ofText? token = some literal ∧
    literal.base = 10 ∧ literal.digits.length = digits ∧ 4300 < digits

/-- The run of the source gets to an instruction with such an operand. -/
def MeetsOverlong (raw : List Text) (digits : Nat) : Prop :=
  LabelsSound (cleanLines raw) ∧ (sourceInstructions raw).length ≤ 1024 ∧
    ∃ line, Reaches (LinePasses (sourceLabels raw)) (sourceInstructions raw) line ∧
      LineOverlong (sourceLabels raw) line digits

theorem OperandReached.mem {labels : LabelTable} {fields : List Field} {operands : List Text}
    {field : Field} {token : Text} (h : OperandReached labels fields operands field token) :
    field ∈ fields ∧ token ∈ operands := by
  obtain ⟨hfield, htoken⟩ := List.of_mem_zip h.2.mem
  exact ⟨List.mem_of_mem_filter hfield, htoken⟩

/-- The check of an operand breaks down only where it is read as a literal and is overlong. Tokens
have no blanks to trim, so the operand itself is the literal. -/
theorem OperandReached.check_eq_error_iff {labels : LabelTable}
    (hlabels : ∀ entry ∈ labels, entry.2.natAbs ≤ 65536) {line : Line} {mnemonic token : Text}
    {operands : List Text} {instruction : Instruction} {field : Field} {fault : Fault}
    (htokens : Text.tokens line.text = mnemonic :: operands)
    (hlookup : Catalog.lookup mnemonic = some instruction)
    (hreached : OperandReached labels instruction.fields operands field token) :
    field.check labels token = .error fault ↔
      field.readsLiteral token = true ∧ ∃ l, Literal.ofText? token = some l ∧ l.base = 10 ∧
        Numeral.decimalLimit < l.digits.length ∧ fault = .literalTooLong l.digits.length := by
  obtain ⟨hfield, htoken⟩ := hreached.mem
  obtain ⟨hsize, hsmall⟩ :=
    Catalog.wellSized instruction (Catalog.lookup_eq_some_iff.mp hlookup).1 field hfield
  have hmem : token ∈ Text.tokens line.text := by
    rw [htokens]
    exact List.mem_cons_of_mem _ htoken
  rw [Field.check_eq_error_iff hsize hsmall hlabels, Literal.read_eq_error_iff,
    Text.trim_of_no_blank (Text.mem_tokens hmem).2]

/-- A line breaks the assembly only by a literal that is too long. -/
theorem lineFails_broken_iff {labels : LabelTable}
    (hlabels : ∀ entry ∈ labels, entry.2.natAbs ≤ 65536) {line : Line} {fault : Fault} :
    LineFails labels line (.broken fault) ↔
      ∃ digits, fault = .literalTooLong digits ∧ LineOverlong labels line digits := by
  constructor
  · intro h
    cases h with
    | broken htokens hlookup hreached hcheck =>
        obtain ⟨hreads, l, htext, hbase, hlong, rfl⟩ :=
          (hreached.check_eq_error_iff hlabels htokens hlookup).mp hcheck
        exact ⟨_, rfl, _, _, _, _, _, l, htokens, hlookup, hreached, hreads, htext, hbase, rfl,
          hlong⟩
  · rintro ⟨digits, rfl, mnemonic, operands, instruction, field, token, l, htokens, hlookup,
      hreached, hreads, htext, hbase, rfl, hlong⟩
    apply LineFails.broken htokens hlookup hreached
    exact (hreached.check_eq_error_iff hlabels htokens hlookup).mpr
      ⟨hreads, l, htext, hbase, hlong, rfl⟩

theorem natAbs_of_mem_sourceLabels {raw : List Text}
    (hsize : (sourceInstructions raw).length ≤ 1024) :
    ∀ entry ∈ sourceLabels raw, entry.2.natAbs ≤ 65536 := by
  intro entry hmem
  obtain ⟨hnonneg, hle⟩ := bounds_of_mem_sourceLabels hmem
  omega

/-- The assembly breaks only where it meets a literal that is too long. -/
theorem assemble_eq_broken_iff {raw : List Text} {fault : Fault} :
    assemble raw = .error (.broken fault) ↔
      ∃ digits, fault = .literalTooLong digits ∧ MeetsOverlong raw digits := by
  constructor
  · intro h
    have houtcome := outcome_of_assemble raw
    rw [h] at houtcome
    generalize hfailure : Failure.broken fault = failure at houtcome
    cases houtcome with
    | label => cases hfailure
    | size => cases hfailure
    | instruction hsound hsize hreached hfails =>
        subst hfailure
        obtain ⟨digits, rfl, hoverlong⟩ :=
          (lineFails_broken_iff (natAbs_of_mem_sourceLabels hsize)).mp hfails
        exact ⟨digits, rfl, hsound, hsize, _, hreached, hoverlong⟩
  · rintro ⟨digits, rfl, hsound, hsize, line, hreached, hoverlong⟩
    have hfails := (lineFails_broken_iff (natAbs_of_mem_sourceLabels hsize)).mpr
      ⟨digits, rfl, hoverlong⟩
    exact assemble_of_fails hsound hsize hreached hfails

/-- A run ends in a program or in a diagnostic at a line of the source exactly when it does not
meet an overlong literal, and it breaks down on the first one that it meets. -/
theorem assemble_ends_iff (raw : List Text) :
    (((∃ p, assemble raw = .ok p) ∨
        ∃ d, assemble raw = .error (.reported d) ∧ 1 ≤ d.line ∧ d.line ≤ raw.length) ↔
      ¬ ∃ digits, MeetsOverlong raw digits) ∧
    ∀ digits, MeetsOverlong raw digits →
      assemble raw = .error (.broken (.literalTooLong digits)) := by
  have hbreaks : ∀ digits, MeetsOverlong raw digits →
      assemble raw = .error (.broken (.literalTooLong digits)) :=
    fun digits hmeets => assemble_eq_broken_iff.mpr ⟨digits, rfl, hmeets⟩
  refine ⟨?_, hbreaks⟩
  cases h : assemble raw with
  | ok p =>
      refine iff_of_true (Or.inl ⟨p, rfl⟩) ?_
      rintro ⟨digits, hmeets⟩
      cases h.symm.trans (hbreaks digits hmeets)
  | error failure =>
      cases failure with
      | reported d =>
          refine iff_of_true (Or.inr ⟨d, rfl, line_of_assemble_reported h⟩) ?_
          rintro ⟨digits, hmeets⟩
          cases h.symm.trans (hbreaks digits hmeets)
      | broken fault =>
          obtain ⟨digits, _, hmeets⟩ := assemble_eq_broken_iff.mp h
          refine iff_of_false ?_ (not_not.mpr ⟨digits, hmeets⟩)
          rintro (⟨p, hp⟩ | ⟨d, hd, _⟩)
          · cases hp
          · cases hd

/-- One digit too many, and the run of a single line breaks down. -/
theorem assemble_overlong_literal :
    assemble ["LDI r1 ".toList ++ List.replicate 4301 '1'] =
      .error (.broken (.literalTooLong 4301)) := by
  decide +kernel

end Rsc
