import Rsc.Proofs.Correspondence
import Rsc.Proofs.Rewriting

/-!
# Shorthands written out

A shorthand on a line can be replaced by the base instruction that it stands for. The operands of
the expansion pass the check of the base instruction, which never looked at them when the
shorthand was encoded, and they have the same word. Only the complement is written in another way
than it is encoded: its mask is a literal that no register field accepts in a source, and stands
for the register with the same low bits.
-/

namespace Rsc

/-- A slot as it is written in a source. -/
def Slot.written : Slot → Slot
  -- the mask of the complement is the one fixed token that its field does not accept
  | fixed token => if token = "0xFF".toList then fixed "r15".toList else fixed token
  | operand index => operand index

/-- A shorthand whose expansion can be written in a source. -/
def Shorthand.written (s : Shorthand) : Shorthand :=
  { s with expansion := s.expansion.map Slot.written }

/-- The shorthand on a line, with its operands. -/
def shorthand? (raw : Text) : Option (Shorthand × List Text) :=
  match Text.tokens (instructionText raw) with
  | [] => none
  | mnemonic :: operands =>
    match Catalog.lookup mnemonic with
    | some (.shorthand s) => some (s, operands)
    | _ => none

/-- A base instruction as it is written in a source, single blanks between its tokens. -/
def BaseInstruction.spell (b : BaseInstruction) (tokens : List Text) : Text :=
  Text.join [' '] (b.mnemonic :: tokens)

/-- The line with its shorthand written out as a base instruction. -/
def desugarLine? (raw : Text) : Option Text :=
  match shorthand? raw with
  | none => none
  | some (s, operands) =>
    match s.written.expand operands with
    | .error _ => none
    | .ok tokens => some (replaceInstruction raw (s.base.spell tokens))

/-! ## Expansions pass their check -/

/-- A slot passes the check of a field: it repeats an operand that was checked against the same
kind of field, or puts a fixed plain token there that passes. -/
def Slot.passes (fields : List Field) (target : Field) : Slot → Bool
  | operand index => fields[index]? == some target
  | fixed token => decide (PlainToken token) && target.check [] token == .ok none

theorem Slot.fill_of_passes {labels : LabelTable} {fields : List Field}
    (htakes : ∀ field ∈ fields, field.takesOperand = true) {operands : List Text}
    (hcheck : checkOperands labels fields operands = .ok none) {target : Field}
    (htarget : target ≠ .address) {slot : Slot} (hpasses : slot.passes fields target = true) :
    ∃ token, slot.fill operands = .ok token ∧ target.check labels token = .ok none ∧
      (token ∈ operands ∨ PlainToken token) := by
  cases slot with
  | operand index =>
      have hfield : fields[index]? = some target := by simpa [passes] using hpasses
      obtain ⟨token, hoperand, hcheck⟩ := exists_operand_of_check htakes hcheck hfield
      exact ⟨token, by simp [fill, hoperand], hcheck, Or.inl (List.mem_of_getElem? hoperand)⟩
  | fixed token =>
      obtain ⟨hplain, hcheck⟩ : PlainToken token ∧ target.check [] token = .ok none := by
        simpa [passes] using hpasses
      rw [Field.check_congr htarget [] labels] at hcheck
      exact ⟨token, rfl, hcheck, Or.inr hplain⟩

/-- What the catalog has to say about a shorthand for its expansion to be written in a source. -/
def Shorthand.Writable (s : Shorthand) : Prop :=
  (∀ field ∈ s.fields, field = .register) ∧
    (∀ field ∈ s.base.fields, field.takesOperand = true ∧ field ≠ .address) ∧
    s.base.fields.length = s.written.expansion.length ∧
    ∀ pair ∈ s.base.fields.zip s.written.expansion, pair.2.passes s.fields pair.1 = true

instance : DecidablePred Shorthand.Writable := fun _ =>
  inferInstanceAs (Decidable (_ ∧ _ ∧ _ ∧ _))

theorem Catalog.shorthand_writable : ∀ s ∈ shorthands, s.Writable := by
  decide

theorem Shorthand.Writable.takesOperand {s : Shorthand} (h : s.Writable) :
    ∀ field ∈ s.fields, field.takesOperand = true := by
  intro field hfield
  rw [h.1 field hfield]
  rfl

/-- The expansion of operands that pass, as it is written, passes the check of the base
instruction, and holds plain tokens besides the operands. -/
theorem Shorthand.check_written {s : Shorthand} (hwritable : s.Writable) {labels : LabelTable}
    {operands : List Text} (hcheck : checkOperands labels s.fields operands = .ok none) :
    ∃ tokens, s.written.expand operands = .ok tokens ∧
      checkOperands labels s.base.fields tokens = .ok none ∧
      ∀ token ∈ tokens, token ∈ operands ∨ PlainToken token := by
  have htakes := hwritable.takesOperand
  obtain ⟨_, hbase, hlength, hpasses⟩ := hwritable
  obtain ⟨tokens, hexpand, htokens⟩ : ∃ tokens, s.written.expand operands = .ok tokens ∧
      List.Forall₂ (fun field token => field.check labels token = .ok none ∧
        (token ∈ operands ∨ PlainToken token)) s.base.fields tokens := by
    apply exists_mapM_of_zip hlength
    intro pair hpair
    have htarget := (hbase _ (List.of_mem_zip hpair).1).2
    exact Slot.fill_of_passes htakes hcheck htarget (hpasses pair hpair)
  refine ⟨tokens, hexpand, ?_, forall_mem_right_of_forall₂ htokens fun _ _ htoken => htoken.2⟩
  rw [checkOperands_iff_forall₂ fun field hfield => (hbase field hfield).1]
  exact htokens.imp fun _ _ htoken => htoken.1

/-! ## Expansions have the same word -/

/-- Tokens that have the same values in the fields are packed alike. -/
theorem pack_of_same_values {labels : LabelTable} {fields : List Field}
    {operands operands' : List Text}
    (h : List.Forall₂ (fun token token' => ∀ field ∈ fields,
      field.value labels token = field.value labels token') operands operands')
    (code room : Int) :
    pack labels fields operands code room = pack labels fields operands' code room := by
  induction fields generalizing operands operands' code room with
  | nil => rfl
  | cons field fields ih =>
      have hrest : ∀ {operands operands' : List Text},
          List.Forall₂ (fun token token' => ∀ f ∈ field :: fields,
            f.value labels token = f.value labels token') operands operands' →
          List.Forall₂ (fun token token' => ∀ f ∈ fields,
            f.value labels token = f.value labels token') operands operands' :=
        fun h => h.imp fun _ _ hvalues f hf => hvalues f (List.mem_cons_of_mem _ hf)
      conv_lhs => unfold pack
      conv_rhs => unfold pack
      split
      next =>
        cases h with
        | nil => rfl
        | cons hhead htail =>
            dsimp only
            simp only [hhead field List.mem_cons_self, ih (hrest htail)]
      next => simp only [ih (hrest h)]

theorem Catalog.written_eq_self : ∀ s ∈ shorthands, s ≠ not → s.written = s := by
  decide

/-- The mask of the complement and the last register have the same number. -/
theorem value_mask (labels : LabelTable) :
    Field.value labels "0xFF".toList .register = Field.value labels "r15".toList .register :=
  rfl

theorem Shorthand.encode_written {s : Shorthand} (hmem : s ∈ Catalog.shorthands)
    {labels : LabelTable} {operands tokens : List Text}
    (hcheck : checkOperands labels s.fields operands = .ok none)
    (hexpand : s.written.expand operands = .ok tokens) :
    s.encode labels operands = s.base.encode labels tokens := by
  -- Only the complement is written in another way than it is encoded.
  by_cases hnot : s = Catalog.not
  · subst hnot
    obtain ⟨target, source, rfl⟩ :=
      List.length_eq_two.mp (checkOperands_eq_none_iff.mp hcheck).1
    obtain rfl := Except.ok.inj hexpand
    apply pack_of_same_values
    refine .cons (fun _ _ => rfl) (.cons (fun _ _ => rfl) (.cons ?_ .nil))
    intro field hfield
    have hregisters : ∀ field ∈ Catalog.not.base.fields, field = .register := by decide
    obtain rfl := hregisters field hfield
    exact value_mask labels
  · rw [Catalog.written_eq_self s hmem hnot] at hexpand
    unfold Shorthand.encode
    rw [hexpand]
    rfl

/-! ## Tokens of an expansion -/

theorem ne_marker_of_digit {c : Char} (h : '0' ≤ c) : c ≠ '#' ∧ c ≠ '/' ∧ c ≠ '-' := by
  refine ⟨?_, ?_, ?_⟩ <;> rintro rfl <;> exact absurd h (by decide)

theorem ne_marker_of_registerIndex? {t : Text} (h : (registerIndex? t).isSome = true) :
    ∀ c ∈ t, c ≠ '#' ∧ c ≠ '/' ∧ c ≠ '-' := by
  cases t with
  | nil => simp
  | cons r u =>
      simp only [registerIndex?] at h
      split at h
      next hr =>
        generalize hcut : (if u.getLast? = some '\n' then u.dropLast else u) = v at h
        have hu : ∀ c ∈ u, c = '\n' ∨ c ∈ v := by
          intro c hc
          split at hcut
          next hlast =>
            rw [← List.dropLast_append_getLast? _ hlast, hcut] at hc
            simpa [or_comm] using hc
          next => exact Or.inr (hcut ▸ hc)
        have hv : ∀ c ∈ v, c ≠ '#' ∧ c ≠ '/' ∧ c ≠ '-' := by
          split at h
          next d =>
            split at h
            next hdigit => simpa using ne_marker_of_digit hdigit.1
            next => cases h
          next d =>
            split at h
            next hdigit => simpa using ne_marker_of_digit hdigit.1
            next => cases h
          next => cases h
        rw [List.forall_mem_cons]
        constructor
        · rcases hr with rfl | rfl <;> decide
        · intro c hc
          rcases hu c hc with rfl | hc
          · decide
          · exact hv c hc
      next => cases h

theorem plainToken_of_registerIndex? {t : Text} (hblank : ∀ c ∈ t, Text.isBlank c = false)
    (h : (registerIndex? t).isSome = true) : PlainToken t := by
  have hchars := ne_marker_of_registerIndex? h
  refine ⟨?_, hblank, stripComment_of_ne hchars, ?_⟩
  · rintro rfl
    cases h
  · exact fun c hc => (hchars c (List.mem_of_mem_getLast? hc)).2

theorem Field.registerIndex?_of_check {labels : LabelTable} {token : Text}
    (h : Field.register.check labels token = .ok none) : (registerIndex? token).isSome = true := by
  unfold Field.check at h
  dsimp only at h
  split at h
  next hindex => exact hindex
  next => cases h

theorem Catalog.written_mnemonic : ∀ s ∈ shorthands,
    PlainToken s.base.mnemonic ∧ s.base.mnemonic.head? ≠ some '.' ∧
      lookup s.base.mnemonic = some (.base s.base) := by
  decide

/-- Operands that pass are names of registers, so that nothing in them looks like a comment. -/
theorem Shorthand.Writable.plain_operands {s : Shorthand} (h : s.Writable) {labels : LabelTable}
    {operands : List Text} (hcheck : checkOperands labels s.fields operands = .ok none)
    (hblank : ∀ token ∈ operands, ∀ c ∈ token, Text.isBlank c = false) :
    ∀ token ∈ operands, PlainToken token := by
  have hpairs := (checkOperands_iff_forall₂ h.takesOperand).mp hcheck
  intro token htoken
  obtain ⟨index, hindex, rfl⟩ := List.getElem_of_mem htoken
  obtain ⟨hlength, hget⟩ := List.forall₂_iff_get.mp hpairs
  have hfield := hget index (hlength ▸ hindex) hindex
  rw [h.1 _ (List.get_mem _ _)] at hfield
  exact plainToken_of_registerIndex? (hblank _ htoken) (Field.registerIndex?_of_check hfield)

/-! ## Lines -/

theorem shorthand?_eq_some_iff {raw : Text} {s : Shorthand} {operands : List Text} :
    shorthand? raw = some (s, operands) ↔
      ∃ mnemonic, Text.tokens (instructionText raw) = mnemonic :: operands ∧
        Catalog.lookup mnemonic = some (.shorthand s) := by
  unfold shorthand?
  constructor
  · intro h
    split at h
    next => cases h
    next mnemonic operands htokens =>
      split at h
      next s hlookup =>
        obtain ⟨rfl, rfl⟩ := Prod.mk.inj (Option.some.inj h)
        exact ⟨mnemonic, htokens, hlookup⟩
      next => cases h
  · rintro ⟨mnemonic, htokens, hlookup⟩
    simp only [htokens, hlookup]

theorem desugarLine?_eq_some_iff {raw raw' : Text} :
    desugarLine? raw = some raw' ↔
      ∃ s operands tokens, shorthand? raw = some (s, operands) ∧
        s.written.expand operands = .ok tokens ∧
        raw' = replaceInstruction raw (s.base.spell tokens) := by
  unfold desugarLine?
  constructor
  · intro h
    split at h
    next => cases h
    next s operands hshorthand =>
      split at h
      next => cases h
      next tokens hexpand =>
        exact ⟨s, operands, tokens, hshorthand, hexpand, (Option.some.inj h).symm⟩
  · rintro ⟨s, operands, tokens, hshorthand, hexpand, rfl⟩
    simp only [hshorthand, hexpand]

/-- Every word of the first instruction is one of the second. -/
def KeepsWord (labels : LabelTable) (line line' : Line) : Prop :=
  ∀ word, LineEncodes labels line word → LineEncodes labels line' word

theorem Catalog.mem_shorthands_of_lookup {mnemonic : Text} {s : Shorthand}
    (h : lookup mnemonic = some (.shorthand s)) : s ∈ shorthands := by
  have hmem := (lookup_eq_some_iff.mp h).1
  simpa [all] using hmem

/-- A shorthand with operands that pass can be written out, as a text that stands by itself and
has the same word. -/
theorem exists_spelling {labels : LabelTable} {raw : Text} {s : Shorthand} {operands : List Text}
    (hshorthand : shorthand? raw = some (s, operands))
    (hcheck : checkOperands labels s.fields operands = .ok none) :
    ∃ tokens, s.written.expand operands = .ok tokens ∧ Standalone (s.base.spell tokens) ∧
      ∀ number, KeepsWord labels ⟨number, instructionText raw⟩ ⟨number, s.base.spell tokens⟩ := by
  obtain ⟨mnemonic, htokens, hlookup⟩ := shorthand?_eq_some_iff.mp hshorthand
  have hmem := Catalog.mem_shorthands_of_lookup hlookup
  have hwritable := Catalog.shorthand_writable s hmem
  obtain ⟨hmnemonic, hmarker, hbase⟩ := Catalog.written_mnemonic s hmem
  obtain ⟨tokens, hexpand, hpasses, hown⟩ := s.check_written hwritable hcheck
  have hblank : ∀ token ∈ operands, ∀ c ∈ token, Text.isBlank c = false := by
    intro token htoken
    apply (Text.mem_tokens (t := instructionText raw) ?_).2
    rw [htokens]
    exact List.mem_cons_of_mem _ htoken
  have hplain : ∀ token ∈ s.base.mnemonic :: tokens, PlainToken token := by
    refine List.forall_mem_cons.mpr ⟨hmnemonic, fun token htoken => ?_⟩
    rcases hown token htoken with hoperand | hfixed
    · exact hwritable.plain_operands hcheck hblank token hoperand
    · exact hfixed
  refine ⟨tokens, hexpand, standalone_join hplain hmarker, ?_⟩
  rintro number word ⟨mnemonic', operands', i, htokens', hlookup', _, hencode⟩
  obtain ⟨rfl, rfl⟩ := List.cons.inj (htokens.symm.trans htokens')
  obtain rfl := Option.some.inj (hlookup.symm.trans hlookup')
  refine ⟨s.base.mnemonic, tokens, .base s.base, tokens_join hplain, hbase, hpasses, ?_⟩
  exact (Shorthand.encode_written hmem hcheck hexpand).symm.trans hencode

/-- Two texts that differ in their instructions make lines that correspond. -/
theorem Line.corresponds_of_withCarried {Related : Line → Line → Prop} {number : Int}
    {t t' new : Text} (hcarried : (Statement.ofText t).carried ≠ []) (hnew : new ≠ [])
    (h : Statement.ofText t' = (Statement.ofText t).withCarried new)
    (hrelated : Related ⟨number, (Statement.ofText t).carried⟩ ⟨number, new⟩) :
    Line.Corresponds Eq Related ⟨number, t⟩ ⟨number, t'⟩ := by
  have hcarried' : (Statement.ofText t').carried = new := by
    rw [h, Statement.carried_withCarried hcarried]
  refine ⟨rfl, ?_, ?_, ?_⟩
  · rw [Line.name?_eq_statement, Line.name?_eq_statement, h]
    cases Statement.ofText t <;> rfl
  · rw [Line.lacksName_eq_statement, Line.lacksName_eq_statement, h]
    cases Statement.ofText t <;> rfl
  · have hsecond : Line.instruction? ⟨number, t'⟩ = some ⟨number, new⟩ := by
      rw [← hcarried'] at hnew ⊢
      exact Line.instruction?_of_carried hnew
    rw [Line.instruction?_of_carried hcarried, hsecond]
    exact .some hrelated

/-! ## Whole programs -/

theorem cleanText_ne_nil {raw : Text} (h : instructionText raw ≠ []) : cleanText raw ≠ [] := by
  intro hnil
  simp [instructionText, hnil, Statement.ofText, Statement.carried] at h

theorem instructionText_ne_nil {raw : Text} {found : Shorthand × List Text}
    (h : shorthand? raw = some found) : instructionText raw ≠ [] := by
  intro hnil
  simp [shorthand?, hnil] at h

/-- The operands of a shorthand in a program pass their check. -/
theorem check_of_shorthand? {raw : List Text} {p : Program} (h : assemble raw = .ok p) {text : Text}
    (hmem : text ∈ raw) {s : Shorthand} {operands : List Text}
    (hshorthand : shorthand? text = some (s, operands)) :
    checkOperands (sourceLabels raw) s.fields operands = .ok none := by
  have hcarries := instructionText_ne_nil hshorthand
  obtain ⟨i, hget⟩ := List.getElem?_of_mem hmem
  have hline := mem_cleanLines_iff.mpr ⟨i, text, hget, rfl, cleanText_ne_nil hcarries⟩
  have hinstruction : ⟨(i + 1 : Nat), instructionText text⟩ ∈ sourceInstructions raw :=
    List.mem_filterMap.mpr ⟨_, hline, Line.instruction?_of_carried hcarries⟩
  -- The instruction has an address, and the word at that address was encoded from it.
  obtain ⟨address, haddress, hat⟩ := List.getElem_of_mem hinstruction
  obtain ⟨line, hline, _, _, instruction, htokens, hlookup, hcheck, _⟩ :=
    lineEncodes_of_assemble h ((length_words h).symm ▸ haddress)
  obtain rfl : _ = line := Option.some.inj ((List.getElem?_eq_getElem haddress).symm.trans hline)
  rw [hat] at htokens
  obtain ⟨mnemonic, htokens', hlookup'⟩ := shorthand?_eq_some_iff.mp hshorthand
  obtain ⟨rfl, rfl⟩ := List.cons.inj (htokens'.symm.trans htokens)
  obtain rfl := Option.some.inj (hlookup'.symm.trans hlookup)
  exact hcheck

theorem corresponds_of_desugarLine? {labels : LabelTable} {raw raw' : Text}
    (hcheck : ∀ s operands, shorthand? raw = some (s, operands) →
      checkOperands labels s.fields operands = .ok none)
    (h : desugarLine? raw = some raw') :
    (cleanText raw = [] ↔ cleanText raw' = []) ∧ ∀ number,
      Line.Corresponds Eq (KeepsWord labels) ⟨number, cleanText raw⟩ ⟨number, cleanText raw'⟩ := by
  obtain ⟨s, operands, tokens, hshorthand, hexpand, rfl⟩ := desugarLine?_eq_some_iff.mp h
  obtain ⟨tokens', hexpand', hnew, hkeeps⟩ :=
    exists_spelling hshorthand (hcheck s operands hshorthand)
  obtain rfl := Except.ok.inj (hexpand.symm.trans hexpand')
  have hcarries := instructionText_ne_nil hshorthand
  have hstatement := ofText_replaceInstruction hcarries hnew
  have hcarries' : instructionText (replaceInstruction raw (s.base.spell tokens)) =
      s.base.spell tokens := by
    rw [instructionText, hstatement, Statement.carried_withCarried hcarries]
  constructor
  · apply iff_of_false (cleanText_ne_nil hcarries)
    apply cleanText_ne_nil
    rw [hcarries']
    exact hnew.nonempty
  · exact fun number =>
      Line.corresponds_of_withCarried hcarries hnew.nonempty hstatement (hkeeps number)

/-- Writing out any of its shorthands leaves a program with its words and labels. -/
theorem assemble_of_desugared {raw raw' : List Text} {p : Program} (h : assemble raw = .ok p)
    (hlines : List.Forall₂ (fun line line' => line' = line ∨ desugarLine? line = some line')
      raw raw') :
    ∃ q, assemble raw' = .ok q ∧ q.words = p.words ∧ q.labels = p.labels := by
  have hcorresponds : List.Forall₂ (Line.Corresponds Eq (KeepsWord (sourceLabels raw)))
      (cleanLines raw) (cleanLines raw') := by
    apply cleanLines_corresponds
    apply ((List.forall₂_and_left raw raw').mpr ⟨fun line hline => hline, hlines⟩).imp
    rintro line line' ⟨hmem, rfl | hline⟩
    · exact ⟨Iff.rfl, fun number => .refl (fun _ _ hword => hword) _⟩
    · exact corresponds_of_desugarLine? (fun s operands => check_of_shorthand? h hmem) hline
  obtain ⟨hsound, hsize, hwords, hlabels, _⟩ := assemble_eq_ok_iff.mp h
  have hsame : sourceLabels raw = sourceLabels raw' := labelTable_of_corresponds hcorresponds 0
  have hkeeps : List.Forall₂ (KeepsWord (sourceLabels raw)) (sourceInstructions raw)
      (sourceInstructions raw') := instructionLines_of_corresponds hcorresponds
  have hwords' := forall₂_transfer hkeeps hwords fun _ _ word hline => hline word
  rw [hkeeps.length_eq] at hsize
  rw [hsame] at hwords' hlabels
  have hrun := assemble_of_encodes (labelsSound_of_corresponds hcorresponds hsound) hsize hwords'
  exact ⟨_, hrun, words_listingOf hwords'.length_eq, hlabels.symm⟩

/-- Any choice of the shorthands of a program can be written out as base instructions: each line
with a shorthand has such a form, and the program keeps its words and its labels. Apart from the
complement, the expansion itself passes the check of the base instruction. -/
theorem assemble_desugar {raw : List Text} {p : Program} (h : assemble raw = .ok p) :
    (∀ line ∈ raw, ∀ s operands, shorthand? line = some (s, operands) →
      ∃ front back tokens, s.written.expand operands = .ok tokens ∧
        line = front ++ instructionText line ++ back ∧
        desugarLine? line = some (front ++ s.base.spell tokens ++ back)) ∧
      (∀ raw', List.Forall₂ (fun line line' => line' = line ∨ desugarLine? line = some line')
          raw raw' →
        ∃ q, assemble raw' = .ok q ∧ q.words = p.words ∧ q.labels = p.labels) ∧
      ∀ s ∈ Catalog.shorthands, s ≠ Catalog.not → ∀ labels operands,
        (Instruction.shorthand s).check labels operands = .ok none →
          ∃ tokens, s.expand operands = .ok tokens ∧
            (Instruction.base s.base).check labels tokens = .ok none := by
  refine ⟨?_, fun raw' => assemble_of_desugared h, ?_⟩
  · intro line hmem s operands hshorthand
    obtain ⟨tokens, hexpand, _⟩ :=
      exists_spelling hshorthand (check_of_shorthand? h hmem hshorthand)
    obtain ⟨lead, front, gap, comment, hparts⟩ :=
      exists_lineParts (instructionText_ne_nil hshorthand)
    refine ⟨lead ++ front, gap ++ comment, tokens, hexpand, ?_, ?_⟩
    · simpa using hparts.whole
    · rw [desugarLine?_eq_some_iff.mpr ⟨s, operands, tokens, hshorthand, hexpand, rfl⟩,
        hparts.replaceInstruction_eq]
      simp
  · intro s hmem hnot labels operands hcheck
    obtain ⟨tokens, hexpand, hbase, _⟩ := s.check_written (Catalog.shorthand_writable s hmem) hcheck
    rw [Catalog.written_eq_self s hmem hnot] at hexpand
    exact ⟨tokens, hexpand, hbase⟩

/-- A complement behind a label, a decrement in front of a comment, and a jump that stays. -/
theorem assemble_desugar_complement :
    ∃ p q,
      assemble [".top NOT r1 r2# flip".toList, "\tdec R3  // down".toList, "JMP .top".toList] =
          .ok p ∧
        assemble [".top XOR r1 r2 r15# flip".toList, "\tADI R3 -1  // down".toList,
          "JMP .top".toList] = .ok q ∧
        q.words = p.words ∧ q.labels = p.labels ∧ p.words = [0x612F, 0x93FF, 0xA000] := by
  have hrun : assemble [".top NOT r1 r2# flip".toList, "\tdec R3  // down".toList,
      "JMP .top".toList] = .ok ⟨[("top".toList, 0)], [⟨0, 0x612F, ⟨1, "NOT r1 r2".toList⟩⟩,
        ⟨1, 0x93FF, ⟨2, "dec R3".toList⟩⟩, ⟨2, 0xA000, ⟨3, "JMP .top".toList⟩⟩]⟩ := by
    decide
  obtain ⟨q, hq, hwords, hlabels⟩ := (assemble_desugar hrun).2.1
    [".top XOR r1 r2 r15# flip".toList, "\tADI R3 -1  // down".toList, "JMP .top".toList]
    (.cons (Or.inr (by decide)) (.cons (Or.inr (by decide)) (.cons (Or.inl rfl) .nil)))
  exact ⟨_, q, hrun, hq, hwords, hlabels, rfl⟩

end Rsc
