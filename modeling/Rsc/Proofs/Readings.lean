import Rsc.Proofs.Rewriting

/-!
# What source lines say

Each source line is read off its text, cleaned or not: it may define a name, and it may carry an
instruction. A marker with only blanks after it cannot be read. The first pass fails exactly on
lines that cannot be read or that define a name once more, and reports the first of them; the
readings of all other programs say what its table and its instructions are.
-/

namespace Rsc

/-- One character or more, and no blank. -/
structure Text.Word (t : Text) : Prop where
  nonempty : t ≠ []
  solid : ∀ c ∈ t, isBlank c = false

/-- One character or more, and no blank at either end. -/
structure Text.Trimmed (t : Text) : Prop where
  nonempty : t ≠ []
  head : ∀ c ∈ t.head?, isBlank c = false
  last : ∀ c ∈ t.getLast?, isBlank c = false

/-- What a line says: the name that it defines, and the instruction that it gives. -/
structure Reading where
  name? : Option Text
  instruction? : Option Line

namespace Line

/-- How the text of a line is read. -/
inductive Reads (line : Line) : Reading → Prop where
  /-- Without a marker in front the line is an instruction as it stands. -/
  | plain (hplain : line.text.head? ≠ some '.') : Reads line ⟨none, some line⟩
  /-- A marker and a name, and otherwise blanks. -/
  | bare {lead name trail : Text} (htext : line.text = '.' :: (lead ++ (name ++ trail)))
      (hlead : ∀ c ∈ lead, Text.isBlank c = true) (hname : name.Word)
      (htrail : ∀ c ∈ trail, Text.isBlank c = true) : Reads line ⟨some name, none⟩
  /-- A marker, a name and, after blanks, an instruction, which keeps the number of the line. -/
  | labelled {lead name gap rest trail : Text}
      (htext : line.text = '.' :: (lead ++ (name ++ (gap ++ rest ++ trail))))
      (hlead : ∀ c ∈ lead, Text.isBlank c = true) (hname : name.Word) (hsome : gap ≠ [])
      (hgap : ∀ c ∈ gap, Text.isBlank c = true) (hrest : rest.Trimmed)
      (htrail : ∀ c ∈ trail, Text.isBlank c = true) :
      Reads line ⟨some name, some ⟨line.number, rest⟩⟩

/-- The line defines the name. -/
def Defines (line : Line) (name : Text) : Prop :=
  ∃ instruction?, line.Reads ⟨some name, instruction?⟩

/-- The line is a marker with only blanks after it. -/
def Unnamed (line : Line) : Prop :=
  ∃ blanks, line.text = '.' :: blanks ∧ ∀ c ∈ blanks, Text.isBlank c = true

end Line

/-- The line at an index is a marker without a name, or defines a name that an earlier line
defines. -/
inductive FaultAt (lines : List Line) (i : Nat) (line : Line) : Cause → Prop where
  | unnamed (hline : lines[i]? = some line) (hunnamed : line.Unnamed) :
      FaultAt lines i line .unnamedLabel
  | duplicate {name : Text} {j : Nat} {earlier : Line} (hline : lines[i]? = some line)
      (hname : line.Defines name) (hj : j < i) (hearlier : lines[j]? = some earlier)
      (hdefines : earlier.Defines name) : FaultAt lines i line (.duplicateLabel name)

/-- No line before the one at an index is faulty. -/
def NoFaultBefore (lines : List Line) (i : Nat) : Prop :=
  ∀ j line cause, j < i → ¬ FaultAt lines j line cause

/-- Instructions and label table of a program whose lines have the given readings. -/
structure Resolution.Tabulates (r : Resolution) (readings : List Reading) : Prop where
  /-- The instructions of the readings, in order. -/
  instructions : r.instructions = readings.filterMap Reading.instruction?
  /-- The names of the readings, in order, and none twice. -/
  names : r.labels.map Prod.fst = readings.filterMap Reading.name?
  distinct : (r.labels.map Prod.fst).Nodup
  /-- A name is bound to the number of instructions that come before its definition. -/
  bound : ∀ (i : Nat) (reading : Reading) (name : Text), readings[i]? = some reading →
    reading.name? = some name →
    r.labels.find? name = some (((readings.take i).filterMap Reading.instruction?).length : Int)
  /-- In order of definition, addresses never decrease. -/
  ordered : (r.labels.map Prod.snd).Pairwise (· ≤ ·)
  /-- No address is beyond the one after the last instruction. -/
  bounded : ∀ entry ∈ r.labels, 0 ≤ entry.2 ∧ entry.2 ≤ r.instructions.length

/-! ## Readings and statements -/

namespace Line

theorem unnamed_iff {line : Line} : line.Unnamed ↔ line.lacksName = true := by
  unfold Unnamed lacksName
  constructor
  · intro ⟨blanks, htext, hblanks⟩
    simp [afterMarker?, htext, Text.tokens_eq_nil_iff.mpr hblanks]
  · intro h
    by_cases hmarker : ∃ t, line.text = '.' :: t
    · obtain ⟨t, ht⟩ := hmarker
      refine ⟨t, ht, Text.tokens_eq_nil_iff.mp ?_⟩
      simpa [afterMarker?, ht] using h
    · rw [afterMarker?_of_no_marker fun t ht => hmarker ⟨t, ht⟩] at h
      cases h

theorem reads_of_instruction {line : Line} {t : Text}
    (h : Statement.ofText line.text = .instruction t) : line.Reads ⟨none, some line⟩ := by
  apply Reads.plain
  intro hmarker
  obtain ⟨u, hu⟩ := List.head?_eq_some_iff.mp hmarker
  rw [hu] at h
  rcases Statement.ofText_marker u with ⟨_, hstatement⟩ | ⟨name, rest, _, _, hstatement⟩
  · rw [hstatement] at h
    cases h
  · rw [hstatement] at h
    cases h

theorem reads_of_bare {line : Line} {name : Text}
    (h : Statement.ofText line.text = .label name []) : line.Reads ⟨some name, none⟩ := by
  obtain ⟨lead, trail, htext, hlead, hne, hname, _, htrim⟩ := Statement.ofText_eq_label_iff.mp h
  refine .bare htext hlead ⟨hne, hname⟩ ?_
  exact Text.tokens_eq_nil_iff.mp (Text.trim_eq_nil_iff.mp htrim.symm)

theorem reads_of_labelled {line : Line} {name rest : Text}
    (h : Statement.ofText line.text = .label name rest) (hrest : rest ≠ []) :
    line.Reads ⟨some name, some ⟨line.number, rest⟩⟩ := by
  obtain ⟨lead, after, htext, hlead, hne, hname, hstop, rfl⟩ :=
    Statement.ofText_eq_label_iff.mp h
  obtain ⟨gap, trail, hafter, hgap, htrail⟩ := Text.exists_trim after
  have htrimmed : (Text.trim after).Trimmed :=
    ⟨hrest, Text.head?_trim_not_blank after, Text.getLast?_trim_not_blank after⟩
  rw [hafter] at htext
  refine .labelled htext hlead ⟨hne, hname⟩ ?_ hgap htrimmed htrail
  -- what follows the name begins with a blank, and the instruction does not
  intro hnil
  obtain ⟨c, hc⟩ : ∃ c, (Text.trim after).head? = some c :=
    Option.ne_none_iff_exists'.mp (by simpa using hrest)
  have hhead : after.head? = some c := by
    rw [hafter, hnil, List.nil_append, List.head?_append_of_ne_nil _ hrest, hc]
  have hsolid := htrimmed.head c hc
  rw [hstop c hhead] at hsolid
  cases hsolid

/-- A line that is not a marker without a name has a reading. -/
theorem reads_of_named {line : Line} (h : line.lacksName = false) :
    line.Reads ⟨line.name?, line.instruction?⟩ := by
  cases line.kind with
  | plain hstatement hname _ _ hinstruction =>
      rw [hname, hinstruction]
      exact reads_of_instruction hstatement
  | unnamed _ _ hlacks =>
      rw [h] at hlacks
      cases hlacks
  | bare hstatement hname _ _ hinstruction =>
      rw [hname, hinstruction]
      exact reads_of_bare hstatement
  | labelled hstatement hname _ _ hinstruction hrest =>
      rw [hname, hinstruction]
      exact reads_of_labelled hstatement hrest

/-- A line has one reading, and none if it lacks a name. -/
theorem Reads.eq {line : Line} {reading : Reading} (h : line.Reads reading) :
    reading = ⟨line.name?, line.instruction?⟩ ∧ line.lacksName = false := by
  rw [name?_eq_statement, lacksName_eq_statement, instruction?]
  cases h with
  | plain hplain =>
      have hmarker : ∀ t, line.text ≠ '.' :: t := fun t ht => hplain (by rw [ht]; rfl)
      rw [Statement.ofText_of_no_marker hmarker]
      exact ⟨rfl, rfl⟩
  | @bare lead name trail htext hlead hname htrail =>
      have hstatement : Statement.ofText line.text = .label name [] := by
        refine Statement.ofText_eq_label_iff.mpr
          ⟨lead, trail, htext, hlead, hname.nonempty, hname.solid, ?_, ?_⟩
        · exact fun c hc => htrail c (List.mem_of_mem_head? hc)
        · exact (Text.trim_eq_nil_iff.mpr (Text.tokens_eq_nil_iff.mpr htrail)).symm
      rw [hstatement]
      exact ⟨rfl, rfl⟩
  | @labelled lead name gap rest trail htext hlead hname hsome hgap hrest htrail =>
      have hstatement : Statement.ofText line.text = .label name rest := by
        refine Statement.ofText_eq_label_iff.mpr
          ⟨lead, _, htext, hlead, hname.nonempty, hname.solid, ?_, ?_⟩
        · intro c hc
          rw [List.append_assoc, List.head?_append_of_ne_nil _ hsome] at hc
          exact hgap c (List.mem_of_mem_head? hc)
        · rw [Text.trim_append_blank htrail, Text.trim_blank_append hgap,
            Text.trim_eq_self hrest.head hrest.last]
      simp [hstatement, Statement.name?, hrest.nonempty]

theorem defines_iff {line : Line} {name : Text} : line.Defines name ↔ line.name? = some name := by
  constructor
  · intro ⟨instruction?, hreads⟩
    exact (congrArg Reading.name? hreads.eq.1).symm
  · intro hname
    have hlacks : line.lacksName = false := by
      rw [name?_eq_statement] at hname
      rw [lacksName_eq_statement, decide_eq_false_iff_not]
      intro hstatement
      rw [hstatement] at hname
      cases hname
    exact ⟨line.instruction?, hname ▸ reads_of_named hlacks⟩

end Line

/-- Lines that all have names where they need one are read one by one. -/
theorem forall₂_reads {lines : List Line} (h : ∀ line ∈ lines, line.lacksName = false) :
    List.Forall₂ Line.Reads lines (lines.map fun line => ⟨line.name?, line.instruction?⟩) := by
  rw [List.forall₂_map_right_iff, List.forall₂_same]
  exact fun line hline => Line.reads_of_named (h line hline)

/-! ## Faulty lines -/

theorem eq_take_append_cons_drop {lines : List Line} {i : Nat} {line : Line}
    (h : lines[i]? = some line) : lines = lines.take i ++ line :: lines.drop (i + 1) := by
  obtain ⟨hlt, rfl⟩ := List.getElem?_eq_some_iff.mp h
  rw [List.getElem_cons_drop, List.take_append_drop]

theorem mem_definedNames_take_iff {lines : List Line} {i : Nat} {name : Text} :
    name ∈ definedNames (lines.take i) ↔
      ∃ j earlier, j < i ∧ lines[j]? = some earlier ∧ earlier.Defines name := by
  simp only [definedNames, List.mem_filterMap, Line.defines_iff]
  constructor
  · rintro ⟨earlier, hmem, hname⟩
    obtain ⟨j, hj⟩ := List.mem_iff_getElem?.mp hmem
    rw [List.getElem?_take] at hj
    split at hj
    next hlt => exact ⟨j, earlier, hlt, hj, hname⟩
    next => cases hj
  · rintro ⟨j, earlier, hlt, hj, hname⟩
    refine ⟨earlier, List.mem_iff_getElem?.mpr ⟨j, ?_⟩, hname⟩
    rw [List.getElem?_take_of_lt hlt, hj]

/-- A fault of the source is one that the first pass meets, with the names before it. -/
theorem faultAt_iff {lines : List Line} {i : Nat} {line : Line} {cause : Cause} :
    FaultAt lines i line cause ↔
      lines[i]? = some line ∧ LabelFault (definedNames (lines.take i)) line cause := by
  constructor
  · intro h
    cases h with
    | unnamed hline hunnamed => exact ⟨hline, .unnamed (Line.unnamed_iff.mp hunnamed)⟩
    | duplicate hline hname hj hearlier hdefines =>
        refine ⟨hline, .duplicate (Line.defines_iff.mp hname) ?_⟩
        exact mem_definedNames_take_iff.mpr ⟨_, _, hj, hearlier, hdefines⟩
  · intro ⟨hline, hfault⟩
    cases hfault with
    | unnamed hlacks => exact .unnamed hline (Line.unnamed_iff.mpr hlacks)
    | duplicate hname hmem =>
        obtain ⟨j, earlier, hj, hearlier, hdefines⟩ := mem_definedNames_take_iff.mp hmem
        exact .duplicate hline (Line.defines_iff.mpr hname) hj hearlier hdefines

/-- The first faulty definition of a program stands at an index. -/
theorem faultAt_of_split {before after : List Line} {line : Line} {cause : Cause}
    (hfault : LabelFault (definedNames before) line cause) :
    FaultAt (before ++ line :: after) before.length line cause := by
  rw [faultAt_iff, List.take_left]
  exact ⟨by simp, hfault⟩

theorem FaultAt.of_take {lines : List Line} {i j : Nat} {line : Line} {cause : Cause}
    (h : FaultAt (lines.take i) j line cause) : j < i ∧ FaultAt lines j line cause := by
  rw [faultAt_iff] at h ⊢
  obtain ⟨hline, hfault⟩ := h
  rw [List.getElem?_take] at hline
  split at hline
  next hlt =>
    rw [List.take_take, Nat.min_eq_left (Nat.le_of_lt hlt)] at hfault
    exact ⟨hlt, hline, hfault⟩
  next => cases hline

theorem labelsSound_take {lines : List Line} {i : Nat} (h : NoFaultBefore lines i) :
    LabelsSound (lines.take i) := by
  rcases sound_or_fault (lines.take i) with
    hsound | ⟨before, line, after, cause, htake, _, hfault⟩
  · exact hsound
  · have hat : FaultAt (before ++ line :: after) before.length line cause :=
      faultAt_of_split hfault
    rw [← htake] at hat
    obtain ⟨hlt, hat⟩ := hat.of_take
    exact absurd hat (h _ line cause hlt)

/-- The first fault is the one that is reported. -/
theorem resolve_of_faultAt {lines : List Line} {i : Nat} {line : Line} {cause : Cause}
    (hfirst : NoFaultBefore lines i) (hat : FaultAt lines i line cause) :
    resolve lines = .error ⟨cause, line.number, line.text⟩ := by
  obtain ⟨hline, hfault⟩ := faultAt_iff.mp hat
  rw [eq_take_append_cons_drop hline]
  exact resolve_of_fault (labelsSound_take hfirst) hfault

/-- A program with a faulty line has a first one. -/
theorem exists_first_faultAt {lines : List Line} {i : Nat} {line : Line} {cause : Cause}
    (h : FaultAt lines i line cause) :
    ∃ j first reason, NoFaultBefore lines j ∧ FaultAt lines j first reason := by
  induction i using Nat.strong_induction_on generalizing line cause with
  | _ i ih =>
      by_cases hfirst : NoFaultBefore lines i
      · exact ⟨i, line, cause, hfirst, h⟩
      · unfold NoFaultBefore at hfirst
        push Not at hfirst
        obtain ⟨j, other, reason, hlt, hat⟩ := hfirst
        exact ih j hlt hat

/-! ## The table -/

theorem ordered_labelTable (base : Nat) (lines : List Line) :
    ((labelTable base lines).map Prod.snd).Pairwise (· ≤ ·) := by
  induction lines generalizing base with
  | nil => exact List.Pairwise.nil
  | cons line lines ih =>
      rw [labelTable, List.map_append, List.pairwise_append]
      refine ⟨?_, ih _, ?_⟩
      · cases line.name? <;> simp
      · -- the name of the first line is bound to the base, and all others come after it
        intro first hfirst later hlater
        have hbase : first = base := by
          cases hname : line.name? with
          | none => simp [hname] at hfirst
          | some name => simpa [hname] using hfirst
        obtain ⟨entry, hentry, rfl⟩ := List.mem_map.mp hlater
        have hbounds := (bounds_of_mem_labelTable hentry).1
        omega

theorem tabulates_of_sound {lines : List Line} (h : LabelsSound lines) :
    Resolution.Tabulates ⟨labelTable 0 lines, instructionLines lines⟩
      (lines.map fun line => ⟨line.name?, line.instruction?⟩) where
  instructions := by
    rw [List.filterMap_map]
    rfl
  names := by
    rw [map_fst_labelTable, List.filterMap_map]
    rfl
  distinct := by
    rw [map_fst_labelTable]
    exact h.distinct
  bound := by
    intro i reading name hreading hname
    rw [List.getElem?_map, Option.map_eq_some_iff] at hreading
    obtain ⟨line, hline, rfl⟩ := hreading
    refine find?_labelTable_iff.mpr
      ⟨_, line, _, eq_take_append_cons_drop hline, hname, ?_, ?_⟩
    · intro hmem
      obtain ⟨j, earlier, hj, hearlier, hdefines⟩ := mem_definedNames_take_iff.mp hmem
      have hsame := h.index_unique hearlier hline (Line.defines_iff.mp hdefines) hname
      omega
    · rw [← List.map_take, List.filterMap_map, Nat.zero_add]
      rfl
  ordered := ordered_labelTable 0 lines
  bounded := by
    intro entry hentry
    have hbounds := bounds_of_mem_labelTable hentry
    rw [Nat.zero_add] at hbounds
    exact hbounds

/-! ## The first pass -/

/-- The first pass fails exactly when some line is faulty, and reports the first such line with
its number and its text. Otherwise every line has a reading, and the readings tell the names and
their addresses and the instructions. -/
theorem resolve_readings (lines : List Line) :
    ((∃ d, resolve lines = .error d) ↔ ∃ i line cause, FaultAt lines i line cause) ∧
    (∀ i line cause, NoFaultBefore lines i → FaultAt lines i line cause →
      resolve lines = .error ⟨cause, line.number, line.text⟩) ∧
    ((∀ i line cause, ¬ FaultAt lines i line cause) →
      ∃ readings r, List.Forall₂ Line.Reads lines readings ∧ resolve lines = .ok r ∧
        r.Tabulates readings) := by
  refine ⟨⟨?_, ?_⟩, ?_, ?_⟩
  · intro ⟨d, hresolve⟩
    rcases sound_or_fault lines with hsound | ⟨before, line, after, cause, rfl, _, hfault⟩
    · rw [resolve_of_sound hsound] at hresolve
      cases hresolve
    · exact ⟨before.length, line, cause, faultAt_of_split hfault⟩
  · intro ⟨i, line, cause, hat⟩
    obtain ⟨j, first, reason, hfirst, hat⟩ := exists_first_faultAt hat
    exact ⟨_, resolve_of_faultAt hfirst hat⟩
  · intro i line cause hfirst hat
    exact resolve_of_faultAt hfirst hat
  · intro hnone
    have hsound : LabelsSound (lines.take lines.length) :=
      labelsSound_take fun j line cause _ => hnone j line cause
    rw [List.take_length] at hsound
    exact ⟨_, _, forall₂_reads hsound.named, resolve_of_sound hsound, tabulates_of_sound hsound⟩

-- Lines that are not cleaned: blanks around a name, and in front of a marker that is then none.
example :
    resolve [⟨7, ". loop \t NOP ".toList⟩, ⟨8, " .loop".toList⟩, ⟨9, ".end ".toList⟩] =
      .ok ⟨[("loop".toList, 0), ("end".toList, 2)],
        [⟨7, "NOP".toList⟩, ⟨8, " .loop".toList⟩]⟩ := by
  decide

end Rsc
