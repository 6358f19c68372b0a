import Rsc.Proofs.Relocation
import Rsc.Proofs.TokenStructure

/-!
# Other names for labels

Label names matter only as far as they differ. When every name that a source defines is replaced
by another, in its definition and in the operands that refer to it, and different names stay
different, the words are the same and the table has the new names. A name may look like anything,
since no operand but an address is ever taken for a label, and an address only behind a marker.
-/

namespace Rsc

/-- The operand with the label that it refers to, if this is one of the names, renamed. -/
def renameOperand (names : List Text) (rename : Text → Text) : Text → Text
  | '.' :: name => '.' :: if name ∈ names then rename name else name
  | token => token

/-- The tokens of an instruction with the labels in its operands renamed. -/
def renameInstruction (names : List Text) (rename : Text → Text) : List Text → List Text
  | [] => []
  | mnemonic :: operands => mnemonic :: operands.map (renameOperand names rename)

/-- The tokens of a line with the name that it defines and the labels in its operands renamed. The
marker may stand alone before the name. -/
def renameTokens (names : List Text) (rename : Text → Text) : List Text → List Text
  | ['.'] :: name :: rest => ['.'] :: rename name :: renameInstruction names rename rest
  | ('.' :: name) :: rest => ('.' :: rename name) :: renameInstruction names rename rest
  | tokens => renameInstruction names rename tokens

/-! ## Lines with other names -/

section

variable {names : List Text} {rename : Text → Text}

theorem renameTokens_of_no_marker {tokens : List Text} (h : markerTokens? tokens = none) :
    renameTokens names rename tokens = renameInstruction names rename tokens ∧
      markerTokens? (renameTokens names rename tokens) = none := by
  unfold markerTokens? at h
  split at h
  next => cases h
  next hmarker =>
    have hplain : renameTokens names rename tokens = renameInstruction names rename tokens := by
      unfold renameTokens
      split
      next name rest => exact absurd rfl (hmarker [] (name :: rest))
      next name rest _ => exact absurd rfl (hmarker name rest)
      next => rfl
    refine ⟨hplain, ?_⟩
    rw [hplain]
    cases tokens with
    | nil => rfl
    | cons mnemonic operands =>
        unfold markerTokens? renameInstruction
        split
        next t rest htokens =>
          obtain ⟨rfl, _⟩ := List.cons.inj htokens
          exact absurd rfl (hmarker t operands)
        next => rfl

theorem markerTokens?_renameTokens {tokens rest : List Text} {name : Text}
    (h : markerTokens? tokens = some (name :: rest)) (hname : rename name ≠ []) :
    markerTokens? (renameTokens names rename tokens) =
      some (rename name :: renameInstruction names rename rest) := by
  unfold markerTokens? at h
  split at h
  next t after =>
    cases t with
    | nil =>
        obtain rfl : after = name :: rest := by simpa using h
        rfl
    | cons c t =>
        obtain ⟨rfl, rfl⟩ : c :: t = name ∧ after = rest := by simpa using h
        have hsome : (rename (c :: t)).isEmpty = false := by simpa using hname
        simp [renameTokens, markerTokens?, hsome]
  next => cases h

theorem instructionTokens?_renameTokens {tokens : List Text}
    (hlacks : markerTokens? tokens ≠ some [])
    (hname : ∀ name rest, markerTokens? tokens = some (name :: rest) → rename name ≠ []) :
    instructionTokens? (renameTokens names rename tokens) =
      (instructionTokens? tokens).map (renameInstruction names rename) := by
  unfold instructionTokens?
  cases hmarker : markerTokens? tokens with
  | none =>
      rw [(renameTokens_of_no_marker hmarker).2, (renameTokens_of_no_marker hmarker).1]
      rfl
  | some after =>
      cases after with
      | nil => exact absurd hmarker hlacks
      | cons name rest =>
          rw [markerTokens?_renameTokens hmarker (hname name rest hmarker)]
          cases rest <;> rfl

/-- Two instructions of which the second has the labels in its operands renamed. -/
def RenamedOperands (names : List Text) (rename : Text → Text) (line line' : Line) : Prop :=
  renameInstruction names rename (Text.tokens line.text) = Text.tokens line'.text

theorem Line.renames_of_tokens {line line' : Line}
    (hhead : ∀ c ∈ line.text.head?, Text.isBlank c = false)
    (hhead' : ∀ c ∈ line'.text.head?, Text.isBlank c = false)
    (htokens : Text.tokens line'.text = renameTokens names rename (Text.tokens line.text))
    (hlacks : line.lacksName = false) (hname : ∀ name ∈ line.name?, rename name ≠ []) :
    line.Renames rename (RenamedOperands names rename) line' := by
  have hafter := afterMarker?_eq_markerTokens? hhead
  have hafter' := afterMarker?_eq_markerTokens? hhead'
  have hmarked : markerTokens? (Text.tokens line.text) ≠ some [] := by
    simpa [lacksName, hafter] using hlacks
  have hsome : ∀ name rest, markerTokens? (Text.tokens line.text) = some (name :: rest) →
      rename name ≠ [] := by
    intro name rest hmarker
    exact hname name (by simp [name?, hafter, hmarker])
  have hinstruction : Option.Rel (RenamedOperands names rename) line.instruction?
      line'.instruction? := by
    apply rel_of_map_eq
    rw [map_tokens_instruction? hhead', htokens, instructionTokens?_renameTokens hmarked hsome,
      ← map_tokens_instruction? hhead, Option.map_map]
    rfl
  rw [htokens] at hafter'
  cases hmarker : markerTokens? (Text.tokens line.text) with
  | none =>
      rw [(renameTokens_of_no_marker hmarker).2] at hafter'
      rw [hmarker] at hafter
      exact ⟨by simp [name?, hafter, hafter'], by simp [lacksName, hafter, hafter'], hinstruction⟩
  | some after =>
      cases after with
      | nil => exact absurd hmarker hmarked
      | cons name rest =>
          rw [markerTokens?_renameTokens hmarker (hsome name rest hmarker)] at hafter'
          rw [hmarker] at hafter
          exact ⟨by simp [name?, hafter, hafter'], by simp [lacksName, hafter, hafter'],
            hinstruction⟩

end

/-! ## Operands with other names -/

/-- Only an address can begin with a marker. -/
theorem Field.head?_ne_marker_of_check {field : Field} {labels : LabelTable} {token : Text}
    (hsize : field.WellSized) (htakes : field.takesOperand = true) (hfield : field ≠ .address)
    (hcheck : field.check labels token = .ok none) : token.head? ≠ some '.' := by
  intro hmarker
  obtain ⟨t, rfl⟩ := List.head?_eq_some_iff.mp hmarker
  have hread := Literal.read_marker t
  cases field with
  | register => simp [check, registerIndex?] at hcheck
  | unsigned size =>
      obtain ⟨v, hvalue, _⟩ := (check_unsigned_iff hsize).mp hcheck
      simp [hread] at hvalue
  | signed size strict =>
      obtain ⟨v, hvalue, _⟩ := (check_signed_iff hsize).mp hcheck
      simp [hread] at hvalue
  | blank size => cases htakes
  | address => exact hfield rfl
  | flag =>
      obtain ⟨value, hvalue, hfits⟩ := check_flag_iff.mp hcheck
      obtain rfl := Except.ok.inj (hread.symm.trans hvalue)
      simp [within, flagIndex?_marker] at hfits

theorem renameOperand_of_no_marker {token : Text} (h : token.head? ≠ some '.')
    (names : List Text) (rename : Text → Text) : renameOperand names rename token = token := by
  unfold renameOperand
  split
  next name => exact absurd rfl h
  next => rfl

/-- Operands that pass as anything but addresses do not refer to labels. -/
theorem map_renameOperand_of_check {labels : LabelTable} {fields : List Field}
    (hfields : ∀ field ∈ fields, field.WellSized ∧ field ≠ .address) {operands : List Text}
    (hcheck : checkOperands labels fields operands = .ok none) (names : List Text)
    (rename : Text → Text) : operands.map (renameOperand names rename) = operands := by
  obtain ⟨hlength, hpairs⟩ := checkOperands_eq_none_iff.mp hcheck
  have hoperands : (operandPairs fields operands).map Prod.snd = operands :=
    List.map_snd_zip hlength.le
  have hkeeps : ∀ token ∈ operands, renameOperand names rename token = id token := by
    intro token htoken
    rw [← hoperands] at htoken
    obtain ⟨⟨field, token⟩, hpair, rfl⟩ := List.mem_map.mp htoken
    obtain ⟨hfield, htakes⟩ := List.mem_filter.mp (List.of_mem_zip hpair).1
    obtain ⟨hsize, haddress⟩ := hfields field hfield
    apply renameOperand_of_no_marker
    exact Field.head?_ne_marker_of_check hsize htakes haddress (hpairs _ hpair)
  rw [List.map_congr_left hkeeps, List.map_id]

section

variable {labels : LabelTable} {rename : Text → Text}
  (hapart : ∀ name ∈ labels.map Prod.fst, ∀ other ∈ labels.map Prod.fst,
    rename name = rename other → name = other)

include hapart

theorem LabelTable.find?_rename {name : Text} (hname : name ∈ labels.map Prod.fst) :
    (labels.rename rename).find? (rename name) = labels.find? name := by
  have hothers := hapart name hname
  clear hapart hname
  induction labels with
  | nil => rfl
  | cons entry labels ih =>
      rw [List.map_cons, List.forall_mem_cons] at hothers
      unfold LabelTable.find? LabelTable.rename at *
      rw [List.map_cons, List.lookup_cons, List.lookup_cons, ih hothers.2]
      by_cases hsame : name = entry.1
      · simp [hsame]
      · have hdiffer : (name == entry.1) = false := beq_eq_false_iff_ne.mpr hsame
        have hdiffer' : (rename name == rename entry.1) = false :=
          beq_eq_false_iff_ne.mpr (mt hothers.1 hsame)
        rw [hdiffer, hdiffer']

/-- A renamed operand passes where the operand passes, under the renamed table, and has the same
value. -/
theorem Field.check_renameOperand {field : Field} {token : Text} (hsize : field.WellSized)
    (htakes : field.takesOperand = true) (hcheck : field.check labels token = .ok none) :
    field.check (labels.rename rename) (renameOperand (labels.map Prod.fst) rename token) =
        .ok none ∧
      field.value (labels.rename rename) (renameOperand (labels.map Prod.fst) rename token) =
        field.value labels token := by
  by_cases hmarker : token.head? = some '.'
  · obtain ⟨name, rfl⟩ := List.head?_eq_some_iff.mp hmarker
    have hfield : field = .address := by
      by_contra hfield
      exact head?_ne_marker_of_check hsize htakes hfield hcheck hmarker
    subst hfield
    obtain ⟨target, hfind, hle⟩ := check_address_label_iff.mp hcheck
    have hname : name ∈ labels.map Prod.fst :=
      LabelTable.isSome_find?_iff.mp (by rw [hfind]; rfl)
    have hfind' := (LabelTable.find?_rename hapart hname).trans hfind
    have hrename : renameOperand (labels.map Prod.fst) rename ('.' :: name) = '.' :: rename name := by
      simp only [renameOperand, hname, if_true]
    rw [hrename, value_address_label hfind, value_address_label hfind']
    exact ⟨check_address_label_iff.mpr ⟨target, hfind', hle⟩, rfl⟩
  · rw [renameOperand_of_no_marker hmarker]
    obtain ⟨hsame, hsameValue⟩ := congr_of_no_marker hmarker field (labels.rename rename) labels
    exact ⟨hsame.trans hcheck, hsameValue⟩

/-- Renamed operands fill the fields with the same values. -/
theorem Fills.renameOperands {fields : List Field} {operands : List Text} {values : List Int}
    (hfills : Fills labels fields operands values)
    (hcheck : checkOperands labels fields operands = .ok none) :
    checkOperands (labels.rename rename) fields
        (operands.map (renameOperand (labels.map Prod.fst) rename)) = .ok none ∧
      Fills (labels.rename rename) fields
        (operands.map (renameOperand (labels.map Prod.fst) rename)) values := by
  induction hfills with
  | nil => exact ⟨rfl, .nil⟩
  | operand htakes hsize hvalue hnonneg hfits _ ih =>
      obtain ⟨htoken, hrest⟩ := (checkOperands_cons_operand htakes).mp hcheck
      obtain ⟨htoken', hsame⟩ := Field.check_renameOperand hapart hsize htakes htoken
      obtain ⟨hrest', hfills'⟩ := ih hrest
      rw [List.map_cons]
      exact ⟨(checkOperands_cons_operand htakes).mpr ⟨htoken', hrest'⟩,
        .operand htakes hsize (hsame.trans hvalue) hnonneg hfits hfills'⟩
  | reserved htakes hsize _ ih =>
      obtain ⟨hrest', hfills'⟩ := ih ((checkOperands_cons_reserved htakes).mp hcheck)
      exact ⟨(checkOperands_cons_reserved htakes).mpr hrest', .reserved htakes hsize hfills'⟩

/-- An instruction with renamed operands passes where the instruction passes, under the renamed
table, and has the same word. -/
theorem Instruction.encode_renameOperand (hlabels : ∀ entry ∈ labels, 0 ≤ entry.2)
    {i : Instruction} (hmem : i ∈ Catalog.all) {operands : List Text} {word : Int}
    (hcheck : i.check labels operands = .ok none) (hencode : i.encode labels operands = .ok word) :
    i.check (labels.rename rename)
        (operands.map (renameOperand (labels.map Prod.fst) rename)) = .ok none ∧
      i.encode (labels.rename rename)
        (operands.map (renameOperand (labels.map Prod.fst) rename)) = .ok word := by
  rcases List.mem_append.mp hmem with hbase | hshorthand
  · obtain ⟨b, hb, rfl⟩ := List.mem_map.mp hbase
    obtain ⟨hsizes, hwidth⟩ := Catalog.base_wellSized b hb
    obtain ⟨values, hfills⟩ := fills_of_check hlabels hsizes hcheck
    obtain ⟨hcheck', hfills'⟩ := hfills.renameOperands hapart hcheck
    refine ⟨hcheck', ?_⟩
    rw [← hencode]
    exact (b.encode_of_fills hwidth hfills').trans (b.encode_of_fills hwidth hfills).symm
  · -- The operands of a shorthand are no addresses: it keeps them, and looks at no table.
    obtain ⟨s, _, rfl⟩ := List.mem_map.mp hshorthand
    rcases Catalog.address_only_in_jumps _ hmem with hjump | hjump | ⟨hfields, hpacked⟩
    · cases hjump
    · cases hjump
    · have hsame := map_renameOperand_of_check (fun field hfield =>
        ⟨(Catalog.wellSized _ hmem field hfield).1, hfields field hfield⟩) hcheck
        (labels.map Prod.fst) rename
      rw [hsame, check_congr hfields _ labels, encode_congr hpacked _ labels]
      exact ⟨hcheck, hencode⟩

/-- A renamed line has the same word under the renamed table. -/
theorem LineEncodes.renameOperands (hlabels : ∀ entry ∈ labels, 0 ≤ entry.2) {line line' : Line}
    {word : Int} (h : LineEncodes labels line word)
    (hline : RenamedOperands (labels.map Prod.fst) rename line line') :
    LineEncodes (labels.rename rename) line' word := by
  obtain ⟨mnemonic, operands, i, htokens, hlookup, hcheck, hencode⟩ := h
  obtain ⟨hcheck', hencode'⟩ := Instruction.encode_renameOperand hapart hlabels
    (Catalog.lookup_eq_some_iff.mp hlookup).1 hcheck hencode
  unfold RenamedOperands at hline
  rw [htokens] at hline
  exact ⟨mnemonic, _, i, hline.symm, hlookup, hcheck', hencode'⟩

end

/-! ## Programs with other names -/

theorem renames_of_sourceTokens {raw raw' : List Text} {names : List Text} {rename : Text → Text}
    (htokens : sourceTokens raw' = (sourceTokens raw).map (renameTokens names rename))
    (hsound : LabelsSound (cleanLines raw))
    (hnames : ∀ name ∈ definedNames (cleanLines raw), rename name ≠ []) :
    List.Forall₂ (Line.Renames rename (RenamedOperands names rename)) (cleanLines raw)
      (cleanLines raw') := by
  have hlength : (cleanLines raw).length = (cleanLines raw').length := by
    simpa [sourceTokens] using congrArg List.length htokens.symm
  refine List.forall₂_iff_get.mpr ⟨hlength, ?_⟩
  intro k hk hk'
  have hline := List.getElem_mem hk
  apply Line.renames_of_tokens (head?_of_mem_cleanLines hline)
    (head?_of_mem_cleanLines (List.getElem_mem hk')) ?_ (hsound.named _ hline)
  · intro name hname
    exact hnames name (List.mem_filterMap.mpr ⟨_, hline, hname⟩)
  · simpa [sourceTokens, hk, hk'] using congrArg (·[k]?) htokens

/-- The names of labels matter only up to renaming. Let every name that a source defines be
replaced by one that is not empty, different names by different ones, both where it is defined and
where an operand refers to it. A source with these tokens, which cannot hold blanks or comments,
gives the same words, and the same table with the new names. -/
theorem assemble_rename {raw raw' : List Text} {p : Program} (h : assemble raw = .ok p)
    {rename : Text → Text} (hsome : ∀ name ∈ p.labels.map Prod.fst, rename name ≠ [])
    (hapart : ∀ name ∈ p.labels.map Prod.fst, ∀ other ∈ p.labels.map Prod.fst,
      rename name = rename other → name = other)
    (htokens : sourceTokens raw' =
      (sourceTokens raw).map (renameTokens (p.labels.map Prod.fst) rename)) :
    ∃ q, assemble raw' = .ok q ∧ q.words = p.words ∧ q.labels = p.labels.rename rename := by
  have hnames := map_fst_labels h
  obtain ⟨hsound, hsize, hwords, hlabels, _⟩ := assemble_eq_ok_iff.mp h
  have hlines := renames_of_sourceTokens htokens hsound (hnames ▸ hsome)
  have hsound' := labelsSound_of_renames hlines hsound (hnames ▸ hapart)
  have htable : sourceLabels raw' = p.labels.rename rename := by
    rw [hlabels]
    exact labelTable_of_renames hlines 0
  have hinstructions : List.Forall₂ (RenamedOperands (p.labels.map Prod.fst) rename)
      (sourceInstructions raw) (sourceInstructions raw') := instructionLines_of_renames hlines
  rw [← hlabels] at hwords
  have hnonneg : ∀ entry ∈ p.labels, 0 ≤ entry.2 := hlabels ▸ nonneg_of_mem_sourceLabels
  have hwords' : List.Forall₂ (LineEncodes (sourceLabels raw')) (sourceInstructions raw')
      p.words := by
    rw [htable]
    exact forall₂_transfer hinstructions hwords fun _ _ _ hline hword =>
      hword.renameOperands hapart hnonneg hline
  rw [hinstructions.length_eq] at hsize
  exact ⟨_, assemble_of_encodes hsound' hsize hwords', words_listingOf hwords'.length_eq, htable⟩

/-- A loop with a label in front of an instruction and one behind a marker that stands alone. -/
def countdown : List Text :=
  [".loop DEC r1".toList, "BRC eq .end".toList, "JMP .loop".toList, ". end".toList, "HLT".toList]

/-- Names that look like a condition and like a reference to a label. -/
def disguise (name : Text) : Text := if name = "loop".toList then "eq".toList else ".loop".toList

theorem assemble_rename_countdown :
    ∃ q, assemble ["\t.eq DEC r1 # again".toList, "BRC eq ..loop".toList, "JMP .eq".toList, [],
        ". .loop".toList, "HLT".toList] = .ok q ∧
      q.words = [37375, 45059, 40960, 4096] ∧
      q.labels = [("eq".toList, 0), (".loop".toList, 3)] := by
  have hrun : assemble countdown = .ok ⟨[("loop".toList, 0), ("end".toList, 3)],
      [⟨0, 37375, ⟨1, "DEC r1".toList⟩⟩, ⟨1, 45059, ⟨2, "BRC eq .end".toList⟩⟩,
        ⟨2, 40960, ⟨3, "JMP .loop".toList⟩⟩, ⟨3, 4096, ⟨5, "HLT".toList⟩⟩]⟩ := by decide
  have hsome : ∀ name ∈ ["loop".toList, "end".toList], disguise name ≠ [] := by decide
  exact assemble_rename hrun hsome (by decide) (by decide)

end Rsc
