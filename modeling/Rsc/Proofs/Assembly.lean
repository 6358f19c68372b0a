import Rsc.Program
import Rsc.Proofs.Instructions
import Rsc.Proofs.Resolution

/-!
# Runs, one phase at a time

A run is three phases in a row: the definitions are looked over, the instructions are counted,
and each instruction is encoded. This module says of each phase when it ends the run, and of a
run that gets through all three which program it gives.
-/

namespace Rsc

/-- The table that the definitions of a source give. -/
def sourceLabels (raw : List Text) : LabelTable := labelTable 0 (cleanLines raw)

/-- The instructions of a source, in order of address. -/
def sourceInstructions (raw : List Text) : List Line := instructionLines (cleanLines raw)

/-- The listing of instructions with their words. -/
def listingOf (lines : List Line) (words : List Int) : List Entry :=
  List.zipWith (fun item word => ⟨item.2, word, item.1⟩) lines.zipIdx words

/-! ## One instruction -/

/-- The instruction on a line passes its check and has the word. -/
def LineEncodes (labels : LabelTable) (line : Line) (word : Int) : Prop :=
  ∃ mnemonic operands instruction, Text.tokens line.text = mnemonic :: operands ∧
    Catalog.lookup mnemonic = some instruction ∧ instruction.check labels operands = .ok none ∧
    instruction.encode labels operands = .ok word

/-- How the instruction on a line fails. The number of operands is looked at before the operands,
and the operands from the left. -/
inductive LineFails (labels : LabelTable) (line : Line) : Failure → Prop where
  /-- No instruction has the mnemonic. -/
  | unknownMnemonic {mnemonic : Text} {operands : List Text}
      (htokens : Text.tokens line.text = mnemonic :: operands)
      (hlookup : Catalog.lookup mnemonic = none) :
      LineFails labels line (.reported ⟨.unknownMnemonic mnemonic, line.number, line.text⟩)
  /-- The number of operands is not that of the fields that take one. -/
  | arity {mnemonic : Text} {operands : List Text} {instruction : Instruction}
      (htokens : Text.tokens line.text = mnemonic :: operands)
      (hlookup : Catalog.lookup mnemonic = some instruction)
      (harity : operands.length ≠ (instruction.fields.filter Field.takesOperand).length) :
      LineFails labels line (.reported ⟨.arity
        (instruction.fields.filter Field.takesOperand).length operands.length,
        line.number, line.text⟩)
  /-- The leftmost operand that does not pass is refused. -/
  | operand {mnemonic token : Text} {operands : List Text} {instruction : Instruction}
      {field : Field} {rejection : Rejection}
      (htokens : Text.tokens line.text = mnemonic :: operands)
      (hlookup : Catalog.lookup mnemonic = some instruction)
      (hreached : OperandReached labels instruction.fields operands field token)
      (hcheck : field.check labels token = .ok (some rejection)) :
      LineFails labels line (.reported ⟨.operand token rejection, line.number, line.text⟩)
  /-- The check of the leftmost operand that does not pass breaks down. -/
  | broken {mnemonic token : Text} {operands : List Text} {instruction : Instruction}
      {field : Field} {fault : Fault}
      (htokens : Text.tokens line.text = mnemonic :: operands)
      (hlookup : Catalog.lookup mnemonic = some instruction)
      (hreached : OperandReached labels instruction.fields operands field token)
      (hcheck : field.check labels token = .error fault) :
      LineFails labels line (.broken fault)

theorem encodeLine_eq_ok_iff {labels : LabelTable} {line : Line} {word : Int} :
    encodeLine labels line = .ok word ↔ LineEncodes labels line word := by
  unfold encodeLine LineEncodes
  constructor
  · intro h
    split at h
    next => cases h
    next mnemonic operands htokens =>
      split at h
      next => cases h
      next instruction hlookup =>
        split at h
        next => cases h
        next => cases h
        next hcheck =>
          split at h
          next => cases h
          next word' hencode =>
            obtain rfl := Except.ok.inj h
            exact ⟨mnemonic, operands, instruction, htokens, hlookup, hcheck, hencode⟩
  · rintro ⟨mnemonic, operands, instruction, htokens, hlookup, hcheck, hencode⟩
    simp [htokens, hlookup, hcheck, hencode]

/-- An instruction fails in one of the four ways: encoding what passed its check does not. -/
theorem encodeLine_eq_error_iff {labels : LabelTable} (hlabels : ∀ entry ∈ labels, 0 ≤ entry.2)
    {line : Line} (htokens : Text.tokens line.text ≠ []) {failure : Failure} :
    encodeLine labels line = .error failure ↔ LineFails labels line failure := by
  unfold encodeLine
  constructor
  · intro h
    split at h
    next hnone => exact absurd hnone htokens
    next mnemonic operands htokens =>
      split at h
      next hlookup =>
        obtain rfl := Except.error.inj h
        exact .unknownMnemonic htokens hlookup
      next instruction hlookup =>
        split at h
        next fault hcheck =>
          obtain rfl := Except.error.inj h
          obtain ⟨field, token, hreached, hfault⟩ := checkOperands_eq_error_iff.mp hcheck
          exact .broken htokens hlookup hreached hfault
        next cause hcheck =>
          obtain rfl := Except.error.inj h
          rcases checkOperands_eq_some_iff.mp hcheck with
            ⟨harity, rfl⟩ | ⟨field, token, rejection, hreached, hreject, rfl⟩
          · exact .arity htokens hlookup harity
          · exact .operand htokens hlookup hreached hreject
        next hcheck =>
          obtain ⟨word, hencode⟩ :=
            Instruction.encode_of_check hlabels (Catalog.lookup_eq_some_iff.mp hlookup).1 hcheck
          rw [hencode] at h
          cases h
  · intro h
    cases h with
    | unknownMnemonic htokens hlookup => simp [htokens, hlookup]
    | @arity mnemonic operands instruction htokens hlookup harity =>
        have hcheck : instruction.check labels operands = .ok (some _) :=
          checkOperands_eq_some_iff.mpr (Or.inl ⟨harity, rfl⟩)
        simp [htokens, hlookup, hcheck]
    | @operand mnemonic token operands instruction field rejection htokens hlookup hreached
        hreject =>
        have hcheck : instruction.check labels operands = .ok (some (.operand token rejection)) :=
          checkOperands_eq_some_iff.mpr (Or.inr ⟨field, token, rejection, hreached, hreject, rfl⟩)
        simp [htokens, hlookup, hcheck]
    | @broken mnemonic token operands instruction field fault htokens hlookup hreached hfault =>
        have hcheck : instruction.check labels operands = .error fault :=
          checkOperands_eq_error_iff.mpr ⟨field, token, hreached, hfault⟩
        simp [htokens, hlookup, hcheck]

/-! ## All instructions -/

/-- Lines are encoded together exactly when each is encoded on its own. -/
theorem mapM_encodeLine_eq_ok_iff {labels : LabelTable} {lines : List Line} {words : List Int} :
    lines.mapM (encodeLine labels) = .ok words ↔ List.Forall₂ (LineEncodes labels) lines words := by
  simp only [mapM_eq_ok_iff, encodeLine_eq_ok_iff]

/-- Listing the instructions is encoding them: addresses and sources add nothing that can fail. -/
theorem mapM_encodeEntry (labels : LabelTable) (lines : List Line) (base : Nat) :
    (lines.zipIdx base).mapM (encodeEntry labels) =
      (lines.mapM (encodeLine labels)).map fun words =>
        List.zipWith (fun item word => ⟨item.2, word, item.1⟩) (lines.zipIdx base) words := by
  induction lines generalizing base with
  | nil => rfl
  | cons line lines ih =>
      rw [List.zipIdx_cons, List.mapM_cons, List.mapM_cons, ih, encodeEntry]
      cases encodeLine labels line with
      | error failure => rfl
      | ok word => cases lines.mapM (encodeLine labels) <;> rfl

theorem words_listingOf {lines : List Line} {words : List Int}
    (h : lines.length = words.length) : (listingOf lines words).map Entry.word = words := by
  have hlength : words.length ≤ lines.zipIdx.length := by simp [h]
  calc
    (listingOf lines words).map Entry.word = (lines.zipIdx.zip words).map Prod.snd := by
      rw [listingOf, List.zip, List.map_zipWith, List.map_zipWith]
    _ = words := List.map_snd_zip hlength

theorem sources_listingOf {lines : List Line} {words : List Int}
    (h : lines.length = words.length) : (listingOf lines words).map Entry.source = lines := by
  have hlength : lines.zipIdx.length ≤ words.length := by simp [h]
  calc
    (listingOf lines words).map Entry.source =
        ((lines.zipIdx.zip words).map Prod.fst).map Prod.fst := by
      rw [listingOf, List.zip, List.map_zipWith, List.map_zipWith, List.map_zipWith]
    _ = lines.zipIdx.map Prod.fst := by rw [List.map_fst_zip hlength]
    _ = lines := List.zipIdx_map_fst 0 lines

/-! ## Phases of a run -/

/-- A faulty definition ends the run before anything else is looked at. -/
theorem assemble_of_fault {raw : List Text} {before after : List Line} {line : Line} {cause : Cause}
    (hlines : cleanLines raw = before ++ line :: after) (hsound : LabelsSound before)
    (hfault : LabelFault (definedNames before) line cause) :
    assemble raw = .error (.reported ⟨cause, line.number, line.text⟩) := by
  unfold assemble
  rw [hlines, resolve_of_fault hsound hfault]
  rfl

theorem resolve_cleanLines {raw : List Text} (hsound : LabelsSound (cleanLines raw)) :
    resolve (cleanLines raw) = .ok ⟨sourceLabels raw, sourceInstructions raw⟩ :=
  resolve_of_sound hsound

/-- As many instructions as there are addresses pass. -/
theorem checkSize_of_le {lines : List Line} (h : lines.length ≤ maxProgramSize) :
    checkSize lines = .ok () := by
  unfold checkSize
  rw [List.getElem?_eq_none h]

/-- The first instruction without an address is the one that is reported. -/
theorem checkSize_of_getElem? {lines : List Line} {line : Line}
    (h : lines[maxProgramSize]? = some line) :
    checkSize lines = .error (.reported
      ⟨.programTooLarge lines.length maxProgramSize, line.number, line.text⟩) := by
  unfold checkSize
  rw [h]

/-- An instruction without an address ends a run whose definitions are sound. -/
theorem assemble_of_size {raw : List Text} {line : Line} (hsound : LabelsSound (cleanLines raw))
    (hline : (sourceInstructions raw)[maxProgramSize]? = some line) :
    assemble raw = .error (.reported
      ⟨.programTooLarge (sourceInstructions raw).length maxProgramSize, line.number,
        line.text⟩) := by
  unfold assemble
  rw [resolve_cleanLines hsound]
  change checkSize (sourceInstructions raw) >>= _ = _
  rw [checkSize_of_getElem? hline]
  rfl

/-- A run whose definitions are sound and whose instructions have addresses encodes each
instruction with the complete table. -/
theorem assemble_of_sound {raw : List Text} (hsound : LabelsSound (cleanLines raw))
    (hsize : (sourceInstructions raw).length ≤ maxProgramSize) :
    assemble raw =
      ((sourceInstructions raw).mapM (encodeLine (sourceLabels raw))).map fun words =>
        ⟨sourceLabels raw, listingOf (sourceInstructions raw) words⟩ := by
  unfold assemble
  rw [resolve_cleanLines hsound]
  change (checkSize (sourceInstructions raw) >>= fun _ =>
    (sourceInstructions raw).zipIdx.mapM (encodeEntry (sourceLabels raw)) >>= _) = _
  rw [checkSize_of_le hsize, mapM_encodeEntry]
  cases (sourceInstructions raw).mapM (encodeLine (sourceLabels raw)) <;> rfl

/-- Words for all instructions make a program. -/
theorem assemble_of_encodes {raw : List Text} (hsound : LabelsSound (cleanLines raw))
    (hsize : (sourceInstructions raw).length ≤ maxProgramSize) {words : List Int}
    (hforall : List.Forall₂ (LineEncodes (sourceLabels raw)) (sourceInstructions raw) words) :
    assemble raw = .ok ⟨sourceLabels raw, listingOf (sourceInstructions raw) words⟩ := by
  rw [assemble_of_sound hsound hsize, mapM_encodeLine_eq_ok_iff.mpr hforall]
  rfl

/-- The programs that runs give: the table of the definitions, and the listing of the
instructions with the words that they encode to. -/
theorem assemble_eq_ok_iff {raw : List Text} {p : Program} :
    assemble raw = .ok p ↔
      LabelsSound (cleanLines raw) ∧ (sourceInstructions raw).length ≤ maxProgramSize ∧
        List.Forall₂ (LineEncodes (sourceLabels raw)) (sourceInstructions raw) p.words ∧
        p.labels = sourceLabels raw ∧ p.listing = listingOf (sourceInstructions raw) p.words := by
  constructor
  · intro h
    rcases sound_or_fault (cleanLines raw) with
      hsound | ⟨before, line, after, cause, hlines, hsound, hfault⟩
    · by_cases hsize : (sourceInstructions raw).length ≤ maxProgramSize
      · rw [assemble_of_sound hsound hsize] at h
        cases hwords : (sourceInstructions raw).mapM (encodeLine (sourceLabels raw)) with
        | error failure =>
            rw [hwords] at h
            cases h
        | ok words =>
            rw [hwords] at h
            obtain rfl := Except.ok.inj h
            have hforall := mapM_encodeLine_eq_ok_iff.mp hwords
            have hsame := words_listingOf hforall.length_eq
            refine ⟨hsound, hsize, ?_, rfl, ?_⟩
            · rw [Program.words, hsame]
              exact hforall
            · rw [Program.words, hsame]
      · have hline : (sourceInstructions raw)[maxProgramSize]? = some _ :=
          List.getElem?_eq_getElem (Nat.lt_of_not_le hsize)
        rw [assemble_of_size hsound hline] at h
        cases h
    · rw [assemble_of_fault hlines hsound hfault] at h
      cases h
  · rintro ⟨hsound, hsize, hforall, hlabels, hlisting⟩
    rw [assemble_of_encodes hsound hsize hforall, ← hlabels, ← hlisting]

/-- The listing of a program has the instructions of its source. -/
theorem sources_listing {raw : List Text} {p : Program} (h : assemble raw = .ok p) :
    p.listing.map Entry.source = sourceInstructions raw := by
  obtain ⟨_, _, hforall, _, hlisting⟩ := assemble_eq_ok_iff.mp h
  rw [hlisting, sources_listingOf hforall.length_eq]

/-- The word at an address is that of the instruction with this address. -/
theorem lineEncodes_of_assemble {raw : List Text} {p : Program} (h : assemble raw = .ok p) {i : Nat}
    (hi : i < p.words.length) :
    ∃ line, (sourceInstructions raw)[i]? = some line ∧
      LineEncodes (sourceLabels raw) line p.words[i] := by
  obtain ⟨_, _, hforall, _, _⟩ := assemble_eq_ok_iff.mp h
  obtain ⟨hlength, hget⟩ := List.forall₂_iff_get.mp hforall
  have hi' : i < (sourceInstructions raw).length := hlength ▸ hi
  exact ⟨_, List.getElem?_eq_getElem hi', hget i hi' hi⟩

/-- A program has one word for each instruction of its source. -/
theorem length_words {raw : List Text} {p : Program} (h : assemble raw = .ok p) :
    p.words.length = (sourceInstructions raw).length := by
  obtain ⟨_, _, hforall, _, _⟩ := assemble_eq_ok_iff.mp h
  exact hforall.length_eq.symm

/-- Instructions keep the order of the lines that carry them. -/
theorem pairwise_sourceInstructions (raw : List Text) :
    (sourceInstructions raw).Pairwise fun first second => first.number < second.number := by
  refine List.pairwise_filterMap.mpr ((pairwise_cleanLines raw).imp_of_mem ?_)
  intro first second hfirst hsecond hlt instruction hinstruction instruction' hinstruction'
  have hnumber := Line.instruction?_eq_some hinstruction (tokens_of_mem_cleanLines hfirst)
  have hnumber' := Line.instruction?_eq_some hinstruction' (tokens_of_mem_cleanLines hsecond)
  rw [hnumber.1, hnumber'.1]
  exact hlt

/-- Label addresses of a source are counts of its instructions. -/
theorem bounds_of_mem_sourceLabels {raw : List Text} {entry : Text × Int}
    (hmem : entry ∈ sourceLabels raw) :
    0 ≤ entry.2 ∧ entry.2 ≤ (sourceInstructions raw).length := by
  have hbounds := bounds_of_mem_labelTable hmem
  rw [Nat.zero_add] at hbounds
  exact hbounds

/-- Labels stand for numbers of instructions, and these are not negative. -/
theorem nonneg_of_mem_sourceLabels {raw : List Text} :
    ∀ entry ∈ sourceLabels raw, 0 ≤ entry.2 :=
  fun _ hmem => (bounds_of_mem_sourceLabels hmem).1

end Rsc
