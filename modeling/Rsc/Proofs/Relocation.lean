import Rsc.Proofs.Jumps

/-!
# Programs one after the other

Two sources that assemble alone are put one after the other. The instructions of the second move
up by as many addresses as the first has instructions, its labels with them, and a jump to one of
its labels follows in the target field alone. Only a name that both define, or a target that moves
out of reach, is in the way.
-/

namespace Rsc

/-- The label that the instruction on a line jumps to. -/
def Line.reference? (line : Line) : Option Text :=
  match jumpOperand? (Text.tokens line.text) with
  | some ('.' :: name) => some name
  | _ => none

/-- The table with every address moved up by `offset`. -/
def LabelTable.shift (offset : Int) (labels : LabelTable) : LabelTable :=
  labels.map fun entry => (entry.1, entry.2 + offset)

/-- The word of an instruction after its labels have moved up by `offset`. -/
def relocate (offset : Int) (line : Line) (word : Int) : Int :=
  if line.reference?.isSome then word + offset else word

/-! ## Lines that move -/

theorem Line.instruction?_shift (offset : Int) (line : Line) :
    (line.shift offset).instruction? = line.instruction?.map (Line.shift offset) := by
  unfold Line.instruction?
  rw [Line.shift_text]
  cases Statement.ofText line.text with
  | instruction t => rfl
  | unnamed => rfl
  | label name rest => cases rest <;> rfl

theorem definedNames_map_shift (offset : Int) (lines : List Line) :
    definedNames (lines.map (Line.shift offset)) = definedNames lines := by
  unfold definedNames
  rw [List.filterMap_map]
  rfl

theorem instructionLines_map_shift (offset : Int) (lines : List Line) :
    instructionLines (lines.map (Line.shift offset)) =
      (instructionLines lines).map (Line.shift offset) := by
  unfold instructionLines
  rw [List.filterMap_map, List.map_filterMap]
  congr 1
  funext line
  exact line.instruction?_shift offset

/-- Line numbers do not matter to the table, and a later start moves every address. -/
theorem labelTable_shift (offset : Int) (base start : Nat) (lines : List Line) :
    labelTable (base + start) (lines.map (Line.shift offset)) =
      (labelTable base lines).shift start := by
  induction lines generalizing base with
  | nil => rfl
  | cons line lines ih =>
      have hname : (line.shift offset).name? = line.name? := rfl
      have hcount : (line.shift offset).instruction?.toList.length =
          line.instruction?.toList.length := by
        rw [line.instruction?_shift]
        cases line.instruction? <;> rfl
      rw [List.map_cons, labelTable, labelTable, hname, hcount, Nat.add_right_comm, ih,
        LabelTable.shift, LabelTable.shift, List.map_append]
      congr 1
      cases line.name? with
      | none => rfl
      | some name => simp

/-- Sound definitions stay sound together if no name is defined on both sides. -/
theorem LabelsSound.append {first second : List Line} (hfirst : LabelsSound first)
    (hsecond : LabelsSound second)
    (hapart : ∀ name ∈ definedNames first, name ∉ definedNames second) :
    LabelsSound (first ++ second) := by
  refine ⟨?_, ?_⟩
  · intro line hline
    rcases List.mem_append.mp hline with hline | hline
    · exact hfirst.named line hline
    · exact hsecond.named line hline
  · rw [definedNames_append]
    exact List.nodup_append'.mpr ⟨hfirst.distinct, hsecond.distinct, hapart⟩

theorem LabelsSound.of_append {first second : List Line} (h : LabelsSound (first ++ second)) :
    LabelsSound first := by
  refine ⟨fun line hline => h.named line (List.mem_append_left _ hline), ?_⟩
  have hdistinct := h.distinct
  rw [definedNames_append] at hdistinct
  exact (List.nodup_append'.mp hdistinct).1

theorem LabelsSound.map_shift {lines : List Line} (h : LabelsSound lines) (offset : Int) :
    LabelsSound (lines.map (Line.shift offset)) := by
  refine ⟨?_, ?_⟩
  · intro line hline
    obtain ⟨original, horiginal, rfl⟩ := List.mem_map.mp hline
    exact h.named original horiginal
  · rw [definedNames_map_shift]
    exact h.distinct

/-- The instructions of the second source follow, with the lines of the first counted in. -/
theorem sourceInstructions_append (first second : List Text) :
    sourceInstructions (first ++ second) =
      sourceInstructions first ++ (sourceInstructions second).map (Line.shift first.length) := by
  unfold sourceInstructions
  rw [cleanLines_append, instructionLines_append, instructionLines_map_shift]

/-- The labels of the second source move up by the instructions of the first. -/
theorem sourceLabels_append (first second : List Text) :
    sourceLabels (first ++ second) =
      sourceLabels first ++ (sourceLabels second).shift (sourceInstructions first).length := by
  unfold sourceLabels sourceInstructions
  rw [cleanLines_append, labelTable_append, labelTable_shift]

theorem LabelTable.find?_shift (offset : Int) (labels : LabelTable) (name : Text) :
    (labels.shift offset).find? name = (labels.find? name).map fun target => target + offset := by
  induction labels with
  | nil => rfl
  | cons entry labels ih =>
      unfold LabelTable.find? LabelTable.shift at *
      rw [List.map_cons, List.lookup_cons, List.lookup_cons]
      cases hsame : name == entry.1 with
      | true => rfl
      | false => simpa [hsame] using ih

/-! ## Instructions under another table -/

/-- The fields that the operands of an instruction are packed into in the end. -/
def Instruction.packedFields : Instruction → List Field
  | base b => b.fields
  | shorthand s => s.base.fields

theorem checkOperands_congr {fields : List Field} (hfields : ∀ field ∈ fields, field ≠ .address)
    (labels labels' : LabelTable) (operands : List Text) :
    checkOperands labels fields operands = checkOperands labels' fields operands := by
  by_cases hlength : operands.length = (fields.filter Field.takesOperand).length
  · rw [checkOperands_of_length hlength, checkOperands_of_length hlength]
    apply findSomeM?_congr
    intro pair hpair
    have hfield := List.mem_of_mem_filter (List.of_mem_zip hpair).1
    rw [Field.check_congr (hfields _ hfield) labels labels']
  · rw [checkOperands_of_arity hlength, checkOperands_of_arity hlength]

theorem pack_congr {fields : List Field} (hfields : ∀ field ∈ fields, field ≠ .address)
    (labels labels' : LabelTable) (operands : List Text) (code room : Int) :
    pack labels fields operands code room = pack labels' fields operands code room := by
  induction fields generalizing operands code room with
  | nil => rfl
  | cons field fields ih =>
      obtain ⟨hfield, hfields⟩ := List.forall_mem_cons.mp hfields
      unfold pack
      simp only [ih hfields, Field.value_congr hfield labels labels']

/-- An instruction without an address is checked alike under all tables. -/
theorem Instruction.check_congr {i : Instruction} (hfields : ∀ field ∈ i.fields, field ≠ .address)
    (labels labels' : LabelTable) (operands : List Text) :
    i.check labels operands = i.check labels' operands :=
  checkOperands_congr hfields labels labels' operands

/-- An instruction without an address has the same word under all tables. -/
theorem Instruction.encode_congr {i : Instruction}
    (hfields : ∀ field ∈ i.packedFields, field ≠ .address) (labels labels' : LabelTable)
    (operands : List Text) : i.encode labels operands = i.encode labels' operands := by
  cases i with
  | base b => exact pack_congr hfields labels labels' operands b.opcode _
  | shorthand s =>
      unfold Instruction.encode Shorthand.encode
      dsimp only
      cases s.expand operands with
      | error fault => rfl
      | ok tokens => exact pack_congr hfields labels labels' tokens s.base.opcode _

/-- Only the two jumps look at the table. -/
theorem Catalog.address_only_in_jumps : ∀ i ∈ all,
    i = .base jmp ∨ i = .base brc ∨
      (∀ field ∈ i.fields, field ≠ .address) ∧ ∀ field ∈ i.packedFields, field ≠ .address := by
  decide

/-- The operands of a jump that pass its check include its target. -/
theorem jumpOperand?_of_check {labels : LabelTable} {mnemonic : Text} {operands : List Text}
    {i : Instruction} (hlookup : Catalog.lookup mnemonic = some i)
    (hi : i = .base Catalog.jmp ∨ i = .base Catalog.brc)
    (hcheck : i.check labels operands = .ok none) :
    ∃ target, jumpOperand? (mnemonic :: operands) = some target := by
  have hmnemonic := (Catalog.lookup_eq_some_iff.mp hlookup).2
  have hlength := (checkOperands_eq_none_iff.mp hcheck).1
  rcases hi with rfl | rfl
  · obtain ⟨target, rfl⟩ := List.length_eq_one_iff.mp hlength
    exact ⟨target, if_pos hmnemonic.symm⟩
  · obtain ⟨condition, target, rfl⟩ := List.length_eq_two.mp hlength
    exact ⟨target, if_pos hmnemonic.symm⟩

/-- A line that is no jump has the same word under all tables. -/
theorem LineEncodes.congr_of_no_jump {labels : LabelTable} {line : Line} {word : Int}
    (h : LineEncodes labels line word) (hjump : jumpOperand? (Text.tokens line.text) = none)
    (labels' : LabelTable) : LineEncodes labels' line word := by
  obtain ⟨mnemonic, operands, i, htokens, hlookup, hcheck, hencode⟩ := h
  rw [htokens] at hjump
  have hkind := Catalog.address_only_in_jumps i (Catalog.lookup_eq_some_iff.mp hlookup).1
  rw [← or_assoc] at hkind
  rcases hkind with hi | ⟨hfields, hpacked⟩
  · obtain ⟨target, htarget⟩ := jumpOperand?_of_check hlookup hi hcheck
    rw [hjump] at htarget
    cases htarget
  · refine ⟨mnemonic, operands, i, htokens, hlookup, ?_, ?_⟩
    · rw [Instruction.check_congr hfields labels' labels, hcheck]
    · rw [Instruction.encode_congr hpacked labels' labels, hencode]

theorem Line.reference?_of_no_jump {line : Line}
    (hjump : jumpOperand? (Text.tokens line.text) = none) : line.reference? = none := by
  unfold Line.reference?
  rw [hjump]

theorem Line.reference?_of_label {line : Line} {name : Text}
    (hjump : jumpOperand? (Text.tokens line.text) = some ('.' :: name)) :
    line.reference? = some name := by
  unfold Line.reference?
  rw [hjump]
  rfl

theorem Line.reference?_of_literal {line : Line} {target : Text}
    (hjump : jumpOperand? (Text.tokens line.text) = some target)
    (hmarker : target.head? ≠ some '.') : line.reference? = none := by
  unfold Line.reference?
  rw [hjump]
  split
  next name hname =>
    obtain rfl := Option.some.inj hname
    exact absurd rfl hmarker
  next => rfl

/-- An instruction under a table that moves the label it jumps to: the word moves along, as long
as the target stays within ten bits. -/
theorem LineEncodes.relocate {labels labels' : LabelTable}
    (hlabels : ∀ entry ∈ labels, 0 ≤ entry.2) (hlabels' : ∀ entry ∈ labels', 0 ≤ entry.2)
    {line : Line} {word : Int} (h : LineEncodes labels line word) {offset : Int}
    (hmoves : ∀ name target, line.reference? = some name → labels.find? name = some target →
      target ≤ 1023 → labels'.find? name = some (target + offset) ∧ target + offset ≤ 1023) :
    LineEncodes labels' line (Rsc.relocate offset line word) := by
  unfold Rsc.relocate
  cases hjump : jumpOperand? (Text.tokens line.text) with
  | none =>
      rw [Line.reference?_of_no_jump hjump]
      exact h.congr_of_no_jump hjump labels'
  | some target =>
      -- The part above the target is taken from the old word, and holds under the new table too.
      obtain ⟨high, hhigh⟩ := exists_high_of_jump hlabels h hjump
      obtain ⟨hcheck, v, hvalue, hnonneg, hfits, rfl⟩ := (hhigh labels hlabels word).mp h
      by_cases hmarker : target.head? = some '.'
      · obtain ⟨name, rfl⟩ := List.head?_eq_some_iff.mp hmarker
        have hreference := Line.reference?_of_label hjump
        obtain ⟨address, hfind, hle⟩ := Field.check_address_label_iff.mp hcheck
        obtain rfl := Except.ok.inj (hvalue.symm.trans (Field.value_address_label hfind))
        obtain ⟨hfind', hle'⟩ := hmoves name v hreference hfind hle
        have hcheck' := Field.check_address_label_iff.mpr ⟨_, hfind', hle'⟩
        have hnonneg' := hlabels' _ (LabelTable.mem_of_find? hfind')
        rw [hreference]
        refine (hhigh labels' hlabels' _).mpr
          ⟨hcheck', v + offset, Field.value_address_label hfind', hnonneg', by omega, ?_⟩
        exact Int.add_assoc _ _ _
      · rw [Line.reference?_of_literal hjump hmarker]
        obtain ⟨hsame, hsameValue⟩ := Field.congr_of_no_marker hmarker .address labels labels'
        rw [hsame] at hcheck
        rw [hsameValue] at hvalue
        exact (hhigh labels' hlabels' _).mpr ⟨hcheck, v, hvalue, hnonneg, hfits, rfl⟩

/-- An instruction keeps its word under a table that binds the same names to the same addresses:
its labels move by nothing. -/
theorem LineEncodes.of_find? {labels labels' : LabelTable}
    (hlabels : ∀ entry ∈ labels, 0 ≤ entry.2) (hlabels' : ∀ entry ∈ labels', 0 ≤ entry.2)
    {line : Line} {word : Int} (h : LineEncodes labels line word)
    (hfind : ∀ name target, labels.find? name = some target → labels'.find? name = some target) :
    LineEncodes labels' line word := by
  have hrelocated : LineEncodes labels' line (Rsc.relocate 0 line word) := by
    apply h.relocate hlabels hlabels'
    intro name target _ hname hle
    rw [Int.add_zero]
    exact ⟨hfind name target hname, hle⟩
  unfold Rsc.relocate at hrelocated
  rw [Int.add_zero, ite_self] at hrelocated
  exact hrelocated

/-! ## The two programs -/

/-- The first line of a list that defines one of the names, if some line does. -/
theorem exists_first_definition {lines : List Line} {names : List Text} {name : Text}
    (hdefined : name ∈ definedNames lines) (hname : name ∈ names) :
    ∃ before line after clash, lines = before ++ line :: after ∧ line.name? = some clash ∧
      clash ∈ names ∧ ∀ earlier ∈ before, ∀ other, earlier.name? = some other → other ∉ names := by
  rcases Reaches.all_or_stops (fun line : Line => ∀ other, line.name? = some other → other ∉ names)
    lines with hpass | ⟨line, ⟨before, after, hlines, hbefore⟩, hstop⟩
  · obtain ⟨line, hline, hdefines⟩ := List.mem_filterMap.mp hdefined
    exact absurd hname (hpass line hline name hdefines)
  · simp only [not_forall, not_not] at hstop
    obtain ⟨clash, hclash, hmem⟩ := hstop
    exact ⟨before, line, after, clash, hlines, hclash, hmem, hbefore⟩

/-- The labels of a program are the names that its source defines, in their order. -/
theorem map_fst_labels {raw : List Text} {p : Program} (h : assemble raw = .ok p) :
    p.labels.map Prod.fst = definedNames (cleanLines raw) := by
  obtain ⟨_, _, _, hlabels, _⟩ := assemble_eq_ok_iff.mp h
  rw [hlabels, sourceLabels, map_fst_labelTable]

/-- A name of the first source that the second defines again is reported where it is. -/
theorem assemble_append_of_clash {first second : List Text} {p q : Program}
    (hp : assemble first = .ok p) (hq : assemble second = .ok q) {before after : List Line}
    {line : Line} {name : Text} (hlines : cleanLines second = before ++ line :: after)
    (hline : line.name? = some name) (hname : name ∈ p.labels.map Prod.fst)
    (hbefore : ∀ earlier ∈ before, ∀ other, earlier.name? = some other →
      other ∉ p.labels.map Prod.fst) :
    assemble (first ++ second) = .error (.reported
      ⟨.duplicateLabel name, first.length + line.number, line.text⟩) := by
  obtain ⟨hfirst, _, _, _, _⟩ := assemble_eq_ok_iff.mp hp
  obtain ⟨hsecond, _, _, _, _⟩ := assemble_eq_ok_iff.mp hq
  rw [hlines] at hsecond
  rw [map_fst_labels hp] at hname hbefore
  have hclean : cleanLines (first ++ second) =
      (cleanLines first ++ before.map (Line.shift first.length)) ++
        line.shift first.length :: after.map (Line.shift first.length) := by
    rw [cleanLines_append, hlines, List.map_append, List.map_cons, List.append_assoc]
  -- Up to the clash the definitions are sound together, so nothing is reported earlier.
  have hsound : LabelsSound (cleanLines first ++ before.map (Line.shift first.length)) := by
    apply hfirst.append (hsecond.of_append.map_shift _)
    intro other hother hagain
    rw [definedNames_map_shift] at hagain
    obtain ⟨earlier, hearlier, hdefines⟩ := List.mem_filterMap.mp hagain
    exact hbefore earlier hearlier other hdefines hother
  have hfault : LabelFault
      (definedNames (cleanLines first ++ before.map (Line.shift first.length)))
      (line.shift first.length) (.duplicateLabel name) := by
    have hshifted : (line.shift first.length).name? = some name := hline
    apply LabelFault.duplicate hshifted
    rw [definedNames_append]
    exact List.mem_append_left _ hname
  exact assemble_of_fault hclean hsound hfault

/-- Instructions of the first source keep their words: the names they refer to are found first. -/
theorem lineEncodes_append_left {first second : List Text} {line : Line} {word : Int}
    (h : LineEncodes (sourceLabels first) line word) :
    LineEncodes (sourceLabels (first ++ second)) line word := by
  apply h.of_find? nonneg_of_mem_sourceLabels nonneg_of_mem_sourceLabels
  intro name target hfind
  rw [sourceLabels_append, LabelTable.find?, List.lookup_append]
  rw [LabelTable.find?] at hfind
  rw [hfind]
  rfl

/-- Instructions of the second source follow their labels. -/
theorem lineEncodes_append_right {first second : List Text} {line : Line} {word : Int}
    (h : LineEncodes (sourceLabels second) line word)
    (hapart : ∀ name ∈ definedNames (cleanLines first), name ∉ definedNames (cleanLines second))
    (hreach : ∀ name target, line.reference? = some name →
      (sourceLabels second).find? name = some target →
      target + (sourceInstructions first).length ≤ 1023) :
    LineEncodes (sourceLabels (first ++ second)) line
      (Rsc.relocate (sourceInstructions first).length line word) := by
  apply h.relocate nonneg_of_mem_sourceLabels nonneg_of_mem_sourceLabels
  intro name target hreference hfind _
  have hsecond : name ∈ definedNames (cleanLines second) := by
    rw [← map_fst_labelTable 0]
    exact List.mem_map_of_mem (LabelTable.mem_of_find? hfind)
  have hnone : (sourceLabels first).find? name = none := by
    cases hfirst : (sourceLabels first).find? name with
    | none => rfl
    | some other =>
        refine absurd hsecond (hapart name ?_)
        rw [← map_fst_labelTable 0]
        exact List.mem_map_of_mem (LabelTable.mem_of_find? hfirst)
  refine ⟨?_, hreach name target hreference hfind⟩
  have hshifted :=
    LabelTable.find?_shift (sourceInstructions first).length (sourceLabels second) name
  rw [hfind] at hshifted
  unfold LabelTable.find? at hnone hshifted ⊢
  rw [sourceLabels_append, List.lookup_append, hnone, hshifted]
  rfl

/-- Instructions of the second source, where they stand after the first, have their own words
relocated. -/
theorem forall₂_append_right {first second : List Text} {lines : List Line} {words : List Int}
    (h : List.Forall₂ (LineEncodes (sourceLabels second)) lines words)
    (hapart : ∀ name ∈ definedNames (cleanLines first), name ∉ definedNames (cleanLines second))
    (hreach : ∀ line ∈ lines, ∀ name target, line.reference? = some name →
      (sourceLabels second).find? name = some target →
      target + (sourceInstructions first).length ≤ 1023) (offset : Int) :
    List.Forall₂ (LineEncodes (sourceLabels (first ++ second))) (lines.map (Line.shift offset))
      (List.zipWith (relocate (sourceInstructions first).length) lines words) := by
  induction h with
  | nil => exact .nil
  | cons hencodes _ ih =>
      obtain ⟨hline, hreach⟩ := List.forall_mem_cons.mp hreach
      -- A line that moves keeps its text, so it encodes as it did where it was.
      exact .cons (lineEncodes_append_right hencodes hapart hline) (ih hreach)

/-- Sources without a common name, with few enough instructions and with every label in reach,
make one program. -/
theorem assemble_append_of_apart {first second : List Text} {p q : Program}
    (hp : assemble first = .ok p) (hq : assemble second = .ok q)
    (hapart : ∀ name ∈ p.labels.map Prod.fst, name ∉ q.labels.map Prod.fst)
    (hsize : p.words.length + q.words.length ≤ maxProgramSize)
    (hreach : ∀ line ∈ sourceInstructions second, ∀ name target, line.reference? = some name →
      q.labels.find? name = some target → target + p.words.length ≤ 1023) :
    ∃ r, assemble (first ++ second) = .ok r ∧
      r.labels = p.labels ++ q.labels.shift p.words.length ∧
      r.words = p.words ++
        List.zipWith (relocate p.words.length) (sourceInstructions second) q.words := by
  rw [map_fst_labels hp, map_fst_labels hq] at hapart
  rw [length_words hp, length_words hq] at hsize
  rw [length_words hp] at hreach ⊢
  obtain ⟨hfirst, _, hwords, hlabels, _⟩ := assemble_eq_ok_iff.mp hp
  obtain ⟨hsecond, _, hwords', hlabels', _⟩ := assemble_eq_ok_iff.mp hq
  rw [hlabels'] at hreach
  rw [hlabels, hlabels', ← sourceLabels_append]
  have hsound : LabelsSound (cleanLines (first ++ second)) := by
    rw [cleanLines_append]
    apply hfirst.append (hsecond.map_shift _)
    rw [definedNames_map_shift]
    exact hapart
  have hencodes : List.Forall₂ (LineEncodes (sourceLabels (first ++ second)))
      (sourceInstructions (first ++ second)) (p.words ++
        List.zipWith (relocate (sourceInstructions first).length) (sourceInstructions second)
          q.words) := by
    rw [sourceInstructions_append]
    apply List.rel_append
    · exact hwords.imp fun _ _ hencodes => lineEncodes_append_left hencodes
    · exact forall₂_append_right hwords' hapart hreach _
  have hlength : (sourceInstructions (first ++ second)).length ≤ maxProgramSize := by
    rw [sourceInstructions_append, List.length_append, List.length_map]
    exact hsize
  exact ⟨_, assemble_of_encodes hsound hlength hencodes, rfl, words_listingOf hencodes.length_eq⟩

/-- What becomes of two sources that assemble alone, put one after the other. If both define a
name, the first definition in the second source that the first source has as well is reported,
with its line in the whole. If they have no name in common, the instructions fit and the labels
that the second source jumps to stay in reach, they make one program: the table and the words of
the first, then those of the second, moved up by the number of instructions of the first. -/
theorem assemble_append {first second : List Text} {p q : Program}
    (hp : assemble first = .ok p) (hq : assemble second = .ok q) :
    ((∃ name ∈ p.labels.map Prod.fst, name ∈ q.labels.map Prod.fst) →
      ∃ before line after name, cleanLines second = before ++ line :: after ∧
        line.name? = some name ∧ name ∈ p.labels.map Prod.fst ∧
        (∀ earlier ∈ before, ∀ other, earlier.name? = some other →
          other ∉ p.labels.map Prod.fst) ∧
        assemble (first ++ second) = .error (.reported
          ⟨.duplicateLabel name, first.length + line.number, line.text⟩)) ∧
    ((∀ name ∈ p.labels.map Prod.fst, name ∉ q.labels.map Prod.fst) →
      p.words.length + q.words.length ≤ 1024 →
      (∀ line ∈ sourceInstructions second, ∀ name target, line.reference? = some name →
        q.labels.find? name = some target → target + p.words.length ≤ 1023) →
      ∃ r, assemble (first ++ second) = .ok r ∧
        r.labels = p.labels ++ q.labels.shift p.words.length ∧
        r.words = p.words ++
          List.zipWith (relocate p.words.length) (sourceInstructions second) q.words) := by
  constructor
  · rintro ⟨name, hfirst, hsecond⟩
    rw [map_fst_labels hq] at hsecond
    obtain ⟨before, line, after, clash, hlines, hline, hclash, hbefore⟩ :=
      exists_first_definition hsecond hfirst
    exact ⟨before, line, after, clash, hlines, hline, hclash, hbefore,
      assemble_append_of_clash hp hq hlines hline hclash hbefore⟩
  · intro hapart hsize hreach
    exact assemble_append_of_apart hp hq hapart hsize hreach

/-- A source that jumps to a label of its own. -/
def selfJump : List Text := ["NOP".toList, ".a JMP .a".toList]

/-- A source that jumps to a label of its own and to an address. -/
def backJump : List Text := [".b HLT".toList, "JMP .b # again".toList, "JMP 1".toList]

theorem assemble_append_jumps :
    (∃ r, assemble (selfJump ++ backJump) = .ok r ∧
      r.labels = [("a".toList, 1), ("b".toList, 2)] ∧
      r.words = [0, 40961, 4096, 40962, 40961]) ∧
    ∃ line, line ∈ cleanLines selfJump ∧ assemble (selfJump ++ selfJump) =
      .error (.reported ⟨.duplicateLabel "a".toList, 2 + line.number, line.text⟩) := by
  have hself : assemble selfJump = .ok ⟨[("a".toList, 1)],
      [⟨0, 0, ⟨1, "NOP".toList⟩⟩, ⟨1, 40961, ⟨2, "JMP .a".toList⟩⟩]⟩ := by decide
  have hback : assemble backJump = .ok ⟨[("b".toList, 0)],
      [⟨0, 4096, ⟨1, "HLT".toList⟩⟩, ⟨1, 40960, ⟨2, "JMP .b".toList⟩⟩,
        ⟨2, 40961, ⟨3, "JMP 1".toList⟩⟩]⟩ := by decide
  have hreach : ∀ line ∈ sourceInstructions backJump, ∀ name target,
      line.reference? = some name → LabelTable.find? [("b".toList, 0)] name = some target →
      target + 2 ≤ 1023 := by
    intro line _ name target _ hfind
    obtain ⟨_, rfl⟩ := Prod.mk.inj (List.mem_singleton.mp (LabelTable.mem_of_find? hfind))
    decide
  constructor
  · obtain ⟨r, hr, hlabels, hwords⟩ :=
      (assemble_append hself hback).2 (by decide) (by decide) hreach
    exact ⟨r, hr, hlabels.trans (by decide), hwords.trans (by decide)⟩
  · obtain ⟨before, line, after, name, hlines, hline, hname, _, herror⟩ :=
      (assemble_append hself hself).1 ⟨"a".toList, by decide, by decide⟩
    obtain rfl : name = "a".toList := List.mem_singleton.mp hname
    have hmem : line ∈ cleanLines selfJump := by
      rw [hlines]
      exact List.mem_append_right _ List.mem_cons_self
    exact ⟨line, hmem, herror⟩

end Rsc
