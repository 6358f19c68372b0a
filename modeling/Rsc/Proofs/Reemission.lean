import Mathlib.Data.List.Perm.Basic
import Rsc.Proofs.Relocation
import Rsc.Proofs.Rewriting

/-!
# Programs written out by address

The table and the listing of a program hold all that its source said. Written out address by
address, each with the definitions of the names bound to it and then its instruction, they make a
source that gives the same program: instructions and names are kept without blanks and comments
around them, no instruction begins like a label, and a name that stands before the instruction at
its address is bound to that address again.
-/

namespace Rsc

/-- The names that are bound to an address, in order of definition. -/
def LabelTable.namesAt (labels : LabelTable) (address : Int) : List Text :=
  (labels.filter fun entry => entry.2 == address).map Prod.fst

/-- The source with the instructions `texts` in which the names of each address stand on lines of
their own before its instruction, and those of the address behind the last one at the end. -/
def reemit (names : Nat → List Text) (texts : List Text) : List Text :=
  (List.range (texts.length + 1)).flatMap fun address =>
    (names address).map ('.' :: ·) ++ texts[address]?.toList

/-- A name whose definition can stand alone on a line. -/
structure BareDefinition (name : Text) : Prop where
  clean : cleanText ('.' :: name) = '.' :: name
  reads : Statement.ofText ('.' :: name) = .label name []

/-- An instruction that can stand alone on a line. -/
structure BareInstruction (text : Text) : Prop where
  clean : cleanText text = text
  nonempty : text ≠ []
  reads : Statement.ofText text = .instruction text

/-! ## What a run keeps is clean -/

/-- The parts of a line with a label: its name is a token, and the rest is trimmed. -/
theorem Statement.parts_of_label {t name rest : Text}
    (h : Statement.ofText t = .label name rest) :
    name <:+: t ∧ name ≠ [] ∧ (∀ c ∈ name, Text.isBlank c = false) ∧
      rest <:+: t ∧ Text.trim rest = rest := by
  obtain ⟨u, rfl, hbody, rfl, rfl⟩ := Statement.eq_of_ofText_label h
  obtain ⟨hne, hname, _⟩ := Text.word_of_head hbody (Text.head?_trimLeft u)
  have hpart : Text.trimLeft u <:+ '.' :: u :=
    (List.dropWhile_suffix _).trans (List.suffix_cons '.' u)
  refine ⟨?_, hne, hname, ?_, Text.trim_trim _⟩
  · exact (List.takeWhile_prefix _).isInfix.trans hpart.isInfix
  · exact (Text.trim_isInfix _).trans ((List.dropWhile_suffix _).trans hpart).isInfix

theorem cleanText_of_mem_sourceInstructions {raw : List Text} {line : Line}
    (h : line ∈ sourceInstructions raw) : cleanText line.text = line.text := by
  obtain ⟨i, text, _, rfl⟩ := exists_raw_of_mem_instructionLines h
  rw [cleanText_eq]
  dsimp only
  unfold instructionText
  cases hstatement : Statement.ofText (cleanText text) with
  | instruction t =>
      obtain rfl := Statement.eq_of_ofText_instruction hstatement
      rw [Statement.carried, stripComment_cleanText, cleanText_eq, Text.trim_trim]
  | label name rest =>
      obtain ⟨_, _, _, hpart, htrim⟩ := Statement.parts_of_label hstatement
      rw [Statement.carried, stripComment_of_part hpart (stripComment_cleanText text), htrim]
  | unnamed => rfl

theorem Statement.ofText_name {name : Text} (hne : name ≠ [])
    (hblank : ∀ c ∈ name, Text.isBlank c = false) :
    Statement.ofText ('.' :: name) = .label name [] := by
  have htrim : Text.trimLeft name = name :=
    Text.trimLeft_eq_self fun c hc => hblank c (List.mem_of_mem_head? hc)
  have hword : name.takeWhile (fun c => !Text.isBlank c) = name := by
    simpa [List.takeWhile_eq_self_iff] using hblank
  have hrest : name.dropWhile (fun c => !Text.isBlank c) = [] := by
    simpa [List.dropWhile_eq_nil_iff] using hblank
  rw [Statement.ofText_of_trimLeft htrim hne, hword, hrest]
  rfl

theorem bareDefinition_of_mem {raw : List Text} {name : Text}
    (h : name ∈ definedNames (cleanLines raw)) : BareDefinition name := by
  obtain ⟨line, hline, hname⟩ := List.mem_filterMap.mp h
  obtain ⟨i, text, _, rfl, _⟩ := mem_cleanLines_iff.mp hline
  rw [Line.name?_eq_statement] at hname
  cases hstatement : Statement.ofText (cleanText text) with
  | instruction t => simp [hstatement, Statement.name?] at hname
  | unnamed => simp [hstatement, Statement.name?] at hname
  | label own rest =>
      obtain rfl : own = name := by simpa [hstatement, Statement.name?] using hname
      obtain ⟨hpart, hne, hblank, _, _⟩ := Statement.parts_of_label hstatement
      have hstrip := stripComment_of_part hpart (stripComment_cleanText text)
      constructor
      · rw [cleanText_eq, stripComment_cons_of_not (startsComment_of_ne (by decide) own), hstrip]
        apply Text.trim_of_no_blank
        exact List.forall_mem_cons.mpr ⟨by decide, hblank⟩
      · exact Statement.ofText_name hne hblank

theorem Catalog.mnemonic_head? : ∀ i ∈ all, i.mnemonic.head? ≠ some '.' := by
  decide

/-- An instruction that has a word does not begin like a label. -/
theorem LineEncodes.no_marker {labels : LabelTable} {line : Line} {word : Int}
    (h : LineEncodes labels line word) : ∀ t, line.text ≠ '.' :: t := by
  intro t htext
  obtain ⟨mnemonic, operands, i, htokens, hlookup, _, _⟩ := h
  have hdot : Text.isBlank '.' = false := by decide
  have hcapital : Text.capital '.' = '.' := by decide
  rw [htext, Text.tokens_cons_of_not_blank hdot] at htokens
  obtain ⟨rfl, _⟩ := List.cons.inj htokens
  obtain ⟨hmem, hmnemonic⟩ := Catalog.lookup_eq_some_iff.mp hlookup
  apply Catalog.mnemonic_head? i hmem
  rw [hmnemonic]
  simp [Text.upper, hdot, hcapital]

theorem bareInstruction_of_encodes {raw : List Text} {line : Line}
    (hline : line ∈ sourceInstructions raw) {labels : LabelTable} {word : Int}
    (h : LineEncodes labels line word) : BareInstruction line.text := by
  refine ⟨cleanText_of_mem_sourceInstructions hline, ?_, ?_⟩
  · intro hnil
    apply (mem_instructionLines_cleanLines hline).2
    rw [hnil, Text.tokens_nil]
  · exact Statement.ofText_of_no_marker h.no_marker

/-! ## The source of a program -/

theorem cleanLines_singleton {t : Text} (hclean : cleanText t = t) (hne : t ≠ []) :
    cleanLines [t] = [⟨1, t⟩] := by
  simp [cleanLines, hclean, hne]

theorem sourceLabels_bareDefinition {name : Text} (h : BareDefinition name) :
    sourceLabels ['.' :: name] = [(name, 0)] ∧ sourceInstructions ['.' :: name] = [] := by
  have hname : Line.name? ⟨1, '.' :: name⟩ = some name := by
    rw [Line.name?_eq_statement, h.reads]
    rfl
  have hinstruction : Line.instruction? ⟨1, '.' :: name⟩ = none := by
    simp [Line.instruction?, h.reads]
  unfold sourceLabels sourceInstructions
  rw [cleanLines_singleton h.clean (List.cons_ne_nil _ _)]
  simp [labelTable, instructionLines, hname, hinstruction]

theorem sourceLabels_bareInstruction {text : Text} (h : BareInstruction text) :
    sourceLabels [text] = [] ∧ sourceInstructions [text] = [⟨1, text⟩] := by
  have hname : Line.name? ⟨1, text⟩ = none := by
    rw [Line.name?_eq_statement, h.reads]
    rfl
  have hinstruction : Line.instruction? ⟨1, text⟩ = some ⟨1, text⟩ := by
    simp [Line.instruction?, h.reads]
  unfold sourceLabels sourceInstructions
  rw [cleanLines_singleton h.clean h.nonempty]
  simp [labelTable, instructionLines, hname, hinstruction]

theorem sourceLabels_definitions {names : List Text} (h : ∀ name ∈ names, BareDefinition name) :
    sourceLabels (names.map ('.' :: ·)) = names.map (fun name => (name, 0)) ∧
      sourceInstructions (names.map ('.' :: ·)) = [] := by
  induction names with
  | nil => exact ⟨rfl, rfl⟩
  | cons name names ih =>
      obtain ⟨hname, hnames⟩ := List.forall_mem_cons.mp h
      obtain ⟨hlabels, hinstructions⟩ := ih hnames
      obtain ⟨hlabel, hinstruction⟩ := sourceLabels_bareDefinition hname
      rw [List.map_cons, ← List.singleton_append, sourceLabels_append, sourceInstructions_append,
        hlabel, hinstruction, hlabels, hinstructions]
      simp [LabelTable.shift]

theorem reemit_nil (names : Nat → List Text) : reemit names [] = (names 0).map ('.' :: ·) := by
  simp [reemit]

theorem reemit_cons (names : Nat → List Text) (text : Text) (texts : List Text) :
    reemit names (text :: texts) =
      (names 0).map ('.' :: ·) ++ ([text] ++ reemit (fun address => names (address + 1)) texts) := by
  unfold reemit
  rw [List.length_cons, List.range_succ_eq_map, List.flatMap_cons, List.flatMap_map]
  simp

/-- Each name is bound to the address whose instruction it stands before, and the instructions are
those that were written out. -/
theorem resolution_reemit {names : Nat → List Text} {texts : List Text}
    (hnames : ∀ address ≤ texts.length, ∀ name ∈ names address, BareDefinition name)
    (htexts : ∀ text ∈ texts, BareInstruction text) :
    sourceLabels (reemit names texts) =
        ((List.range (texts.length + 1)).flatMap fun address =>
          (names address).map fun name => (name, (address : Int))) ∧
      (sourceInstructions (reemit names texts)).map Line.text = texts := by
  induction texts generalizing names with
  | nil =>
      obtain ⟨hlabels, hinstructions⟩ := sourceLabels_definitions (hnames 0 (Nat.le_refl 0))
      rw [reemit_nil, hlabels, hinstructions]
      simp
  | cons text texts ih =>
      obtain ⟨htext, htexts⟩ := List.forall_mem_cons.mp htexts
      obtain ⟨hlabels, hinstructions⟩ := sourceLabels_definitions (hnames 0 (Nat.zero_le _))
      obtain ⟨hlabel, hinstruction⟩ := sourceLabels_bareInstruction htext
      obtain ⟨hrest, hrestTexts⟩ := @ih (fun address => names (address + 1))
        (fun address haddress => hnames (address + 1) (Nat.succ_le_succ haddress)) htexts
      rw [reemit_cons, sourceLabels_append, sourceLabels_append, sourceInstructions_append,
        sourceInstructions_append, hlabels, hinstructions, hlabel, hinstruction, hrest]
      constructor
      · rw [List.range_succ_eq_map (n := (text :: texts).length), List.flatMap_cons,
          List.flatMap_map]
        simp [LabelTable.shift, List.map_flatMap, Function.comp_def]
      · simpa [Function.comp_def] using hrestTexts

theorem mem_reemit {names : Nat → List Text} {texts : List Text} {t : Text}
    (h : t ∈ reemit names texts) :
    (∃ address ≤ texts.length, ∃ name ∈ names address, t = '.' :: name) ∨ t ∈ texts := by
  obtain ⟨address, haddress, ht⟩ := List.mem_flatMap.mp h
  rcases List.mem_append.mp ht with ht | ht
  · obtain ⟨name, hname, rfl⟩ := List.mem_map.mp ht
    exact Or.inl ⟨address, Nat.le_of_lt_succ (List.mem_range.mp haddress), name, hname, rfl⟩
  · exact Or.inr (List.mem_of_getElem? (Option.mem_toList.mp ht))

theorem lacksName_reemit {names : Nat → List Text} {texts : List Text}
    (hnames : ∀ address ≤ texts.length, ∀ name ∈ names address, BareDefinition name)
    (htexts : ∀ text ∈ texts, BareInstruction text) :
    ∀ line ∈ cleanLines (reemit names texts), line.lacksName = false := by
  intro line hline
  obtain ⟨i, text, hget, rfl, _⟩ := mem_cleanLines_iff.mp hline
  rw [Line.lacksName_eq_statement]
  rcases mem_reemit (List.mem_of_getElem? hget) with ⟨address, haddress, name, hname, rfl⟩ | htext
  · have hbare := hnames address haddress name hname
    simp [hbare.clean, hbare.reads]
  · have hbare := htexts text htext
    simp [hbare.clean, hbare.reads]

/-! ## The table of a program -/

/-- With no name bound twice, to be found is to be in the table. -/
theorem LabelTable.find?_eq_some_iff {labels : LabelTable} (h : (labels.map Prod.fst).Nodup)
    {name : Text} {target : Int} :
    labels.find? name = some target ↔ (name, target) ∈ labels := by
  refine ⟨LabelTable.mem_of_find?, ?_⟩
  intro hmem
  obtain ⟨before, after, rfl⟩ := List.append_of_mem hmem
  refine List.lookup_eq_some_iff.mpr ⟨before, after, rfl, ?_⟩
  intro entry hentry
  rw [List.map_append, List.map_cons] at h
  have hapart := (List.nodup_append'.mp h).2.2 (List.mem_map_of_mem hentry)
  rw [bne_iff_ne]
  intro hsame
  exact hapart (List.mem_cons.mpr (Or.inl hsame.symm))

theorem LabelTable.find?_of_perm {labels labels' : LabelTable} (hperm : labels'.Perm labels)
    (h : (labels.map Prod.fst).Nodup) (name : Text) : labels'.find? name = labels.find? name := by
  have h' : (labels'.map Prod.fst).Nodup := (hperm.map Prod.fst).nodup_iff.mpr h
  ext target
  rw [find?_eq_some_iff h, find?_eq_some_iff h', hperm.mem_iff]

/-- The entries of a table, address by address. -/
theorem LabelTable.perm_byAddress {labels : LabelTable} {n : Nat}
    (h : ∀ entry ∈ labels, 0 ≤ entry.2 ∧ entry.2 < n) :
    ((List.range n).flatMap fun address : Nat =>
      labels.filter fun entry => entry.2 == (address : Int)).Perm labels := by
  -- The last address first: below it the other entries are in order by induction.
  induction n generalizing labels with
  | zero =>
      cases labels with
      | nil => rfl
      | cons entry labels =>
          have hentry := h entry List.mem_cons_self
          omega
  | succ n ih =>
      have hbelow : ((List.range n).flatMap fun address : Nat =>
          labels.filter fun entry => entry.2 == (address : Int)) =
            (List.range n).flatMap fun address : Nat =>
              (labels.filter fun entry => !(entry.2 == (n : Int))).filter fun entry =>
                entry.2 == (address : Int) := by
        apply List.flatMap_congr
        intro address haddress
        rw [List.filter_filter]
        apply List.filter_congr
        intro entry _
        have hlt := List.mem_range.mp haddress
        by_cases hsame : entry.2 = (address : Int)
        · have hdiffer : address ≠ n := Nat.ne_of_lt hlt
          simp [hsame, hdiffer]
        · simp [hsame]
      have hrest : ∀ entry ∈ labels.filter fun entry => !(entry.2 == (n : Int)),
          0 ≤ entry.2 ∧ entry.2 < n := by
        intro entry hentry
        obtain ⟨hmem, hdiffer⟩ := List.mem_filter.mp hentry
        have hbounds := h entry hmem
        have hdiffer : entry.2 ≠ (n : Int) := by simpa using hdiffer
        omega
      rw [List.range_succ, List.flatMap_append, List.flatMap_singleton, hbelow]
      exact ((ih hrest).append_right _).trans
        (List.perm_append_comm.trans (List.filter_append_perm _ labels))

theorem LabelTable.perm_namesAt {labels : LabelTable} {n : Nat}
    (hlabels : ∀ entry ∈ labels, 0 ≤ entry.2 ∧ entry.2 ≤ n) {names : Nat → List Text}
    (hnames : ∀ address ≤ n, (names address).Perm (labels.namesAt address)) :
    ((List.range (n + 1)).flatMap fun address =>
      (names address).map fun name => (name, (address : Int))).Perm labels := by
  have hentries : ∀ address ∈ List.range (n + 1),
      ((names address).map fun name => (name, (address : Int))).Perm
        (labels.filter fun entry => entry.2 == (address : Int)) := by
    intro address haddress
    have hperm := (hnames address (Nat.le_of_lt_succ (List.mem_range.mp haddress))).map
      fun name => (name, (address : Int))
    have hsame : (labels.namesAt address).map (fun name => (name, (address : Int))) =
        labels.filter fun entry => entry.2 == (address : Int) := by
      rw [namesAt, List.map_map]
      refine (List.map_congr_left ?_).trans (List.map_id _)
      intro entry hentry
      have haddress : entry.2 = (address : Int) := by simpa using (List.mem_filter.mp hentry).2
      simp [← haddress]
    rw [hsame] at hperm
    exact hperm
  refine (List.Perm.flatMap_left _ hentries).trans (LabelTable.perm_byAddress ?_)
  intro entry hentry
  have hbounds := hlabels entry hentry
  omega

/-! ## The program again -/

/-- The names and instructions that a program keeps can stand on lines of their own. -/
theorem bare_of_assemble {raw : List Text} {p : Program} (h : assemble raw = .ok p) :
    (∀ name ∈ p.labels.map Prod.fst, BareDefinition name) ∧
      ∀ text ∈ p.listing.map fun entry => entry.source.text, BareInstruction text := by
  obtain ⟨_, _, hwords, _, _⟩ := assemble_eq_ok_iff.mp h
  constructor
  · intro name hname
    rw [map_fst_labels h] at hname
    exact bareDefinition_of_mem hname
  · have hpasses : ∀ line ∈ sourceInstructions raw, ∃ word,
        LineEncodes (sourceLabels raw) line word :=
      forall_mem_right_of_forall₂ hwords.flip fun word line hword => ⟨word, hword⟩
    rw [← sources_listing h] at hpasses
    intro text htext
    obtain ⟨entry, hentry, rfl⟩ := List.mem_map.mp htext
    have hsource := List.mem_map_of_mem (f := Entry.source) hentry
    obtain ⟨word, hword⟩ := hpasses entry.source hsource
    rw [sources_listing h] at hsource
    exact bareInstruction_of_encodes hsource hword

/-- A source with the instructions of a program, and with its table in any order, gives the same
words. -/
theorem assemble_of_perm {raw raw' : List Text} {p : Program} (h : assemble raw = .ok p)
    (hnamed : ∀ line ∈ cleanLines raw', line.lacksName = false)
    (htable : (sourceLabels raw').Perm p.labels)
    (htexts : (sourceInstructions raw').map Line.text =
      p.listing.map fun entry => entry.source.text) :
    ∃ q, assemble raw' = .ok q ∧ q.words = p.words ∧ q.labels = sourceLabels raw' ∧
      q.listing.map Entry.source = sourceInstructions raw' := by
  obtain ⟨hsound, hsize, hwords, hlabels, _⟩ := assemble_eq_ok_iff.mp h
  have hsources : List.Forall₂ (fun line line' => line.text = line'.text)
      (sourceInstructions raw) (sourceInstructions raw') := by
    have hsame : List.Forall₂ Eq ((sourceInstructions raw).map Line.text)
        ((sourceInstructions raw').map Line.text) := by
      rw [List.forall₂_eq_eq_eq, htexts, ← sources_listing h, List.map_map]
      rfl
    exact List.forall₂_map_right_iff.mp (List.forall₂_map_left_iff.mp hsame)
  have hdistinct : (p.labels.map Prod.fst).Nodup := map_fst_labels h ▸ hsound.distinct
  have hsound' : LabelsSound (cleanLines raw') := by
    refine ⟨hnamed, ?_⟩
    rw [← map_fst_labelTable 0]
    exact (htable.map Prod.fst).nodup_iff.mpr hdistinct
  have hwords' : List.Forall₂ (LineEncodes (sourceLabels raw')) (sourceInstructions raw')
      p.words := by
    apply forall₂_transfer hsources hwords
    intro line line' word htext hword
    have hsame : LineEncodes (sourceLabels raw) line' word := by
      unfold LineEncodes at hword ⊢
      rw [← htext]
      exact hword
    apply hsame.of_find? nonneg_of_mem_sourceLabels nonneg_of_mem_sourceLabels
    intro name target hfind
    rw [LabelTable.find?_of_perm htable hdistinct, hlabels, hfind]
  rw [hsources.length_eq] at hsize
  have hlength := hwords'.length_eq
  exact ⟨_, assemble_of_encodes hsound' hsize hwords', words_listingOf hlength, rfl,
    sources_listingOf hlength⟩

/-- A program written out by address assembles to itself. Let the names bound to each address, in
any order, stand on lines of their own before the instruction at the address, and the names bound
to the end behind the last instruction. This source gives the same words and the same table, and a
listing with the same instructions. -/
theorem assemble_reemit {raw : List Text} {p : Program} (h : assemble raw = .ok p)
    {names : Nat → List Text}
    (hnames : ∀ address ≤ p.listing.length,
      (names address).Perm (p.labels.namesAt address)) :
    ∃ q, assemble (reemit names (p.listing.map fun entry => entry.source.text)) = .ok q ∧
      q.words = p.words ∧ q.labels.Perm p.labels ∧
      (∀ name, q.labels.find? name = p.labels.find? name) ∧
      (q.listing.map fun entry => entry.source.text) =
        p.listing.map fun entry => entry.source.text := by
  obtain ⟨hsound, _, _, hlabels, _⟩ := assemble_eq_ok_iff.mp h
  obtain ⟨hdefinitions, hinstructions⟩ := bare_of_assemble h
  have hlength : p.listing.length = (p.listing.map fun entry => entry.source.text).length := by
    rw [List.length_map]
  have hbounds : ∀ entry ∈ p.labels, 0 ≤ entry.2 ∧ entry.2 ≤ p.listing.length := by
    intro entry hentry
    rw [hlabels] at hentry
    have hbounds := bounds_of_mem_sourceLabels hentry
    rwa [← sources_listing h, List.length_map] at hbounds
  have hbare : ∀ address ≤ p.listing.length, ∀ name ∈ names address, BareDefinition name := by
    intro address haddress name hname
    obtain ⟨entry, hentry, rfl⟩ := List.mem_map.mp ((hnames address haddress).mem_iff.mp hname)
    exact hdefinitions _ (List.mem_map_of_mem (List.mem_of_mem_filter hentry))
  have hperm := LabelTable.perm_namesAt hbounds hnames
  rw [hlength] at hbare hperm
  obtain ⟨htable, htexts⟩ := resolution_reemit hbare hinstructions
  rw [← htable] at hperm
  obtain ⟨q, hq, hwords, htable', hsources⟩ :=
    assemble_of_perm h (lacksName_reemit hbare hinstructions) hperm htexts
  have hdistinct : (p.labels.map Prod.fst).Nodup := map_fst_labels h ▸ hsound.distinct
  rw [← htable'] at hperm
  refine ⟨q, hq, hwords, hperm, LabelTable.find?_of_perm hperm hdistinct, ?_⟩
  rw [← htexts, ← hsources, List.map_map]
  rfl

/-- Two labels at one instruction, one of them on a line of its own, and two at the end. -/
def stackedLabels : List Text :=
  [" .a".toList, ".b  NOP # first".toList, "JMP .end".toList, ".end // out".toList, ". z".toList]

/-- The labels of each address, latest first. -/
def latestFirst : Nat → List Text
  | 0 => ["b".toList, "a".toList]
  | 2 => ["z".toList, "end".toList]
  | _ => []

theorem assemble_reemit_stackedLabels :
    ∃ q, assemble [".b".toList, ".a".toList, "NOP".toList, "JMP .end".toList, ".z".toList,
        ".end".toList] = .ok q ∧
      q.words = [0, 40962] ∧
      q.labels.Perm [("a".toList, 0), ("b".toList, 0), ("end".toList, 2), ("z".toList, 2)] ∧
      (q.listing.map fun entry => entry.source.text) = ["NOP".toList, "JMP .end".toList] := by
  have hrun : assemble stackedLabels = .ok
      ⟨[("a".toList, 0), ("b".toList, 0), ("end".toList, 2), ("z".toList, 2)],
        [⟨0, 0, ⟨2, "NOP".toList⟩⟩, ⟨1, 40962, ⟨3, "JMP .end".toList⟩⟩]⟩ := by decide
  have hnames : ∀ address ≤ 2, (latestFirst address).Perm (LabelTable.namesAt
      [("a".toList, 0), ("b".toList, 0), ("end".toList, 2), ("z".toList, 2)] address) := by decide
  obtain ⟨q, hq, hwords, htable, _, htexts⟩ := assemble_reemit hrun hnames
  exact ⟨q, hq, hwords, htable, htexts⟩

end Rsc
