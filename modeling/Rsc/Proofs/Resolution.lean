import Mathlib.Data.List.Nodup
import Rsc.Label
import Rsc.Proofs.Cleaning
import Rsc.Proofs.Traversal

/-!
# What the first pass finds

A line may define a name, may carry an instruction, and may do both. Both are said here through
the tokens of the line, without the pass that looks for them. The pass succeeds exactly when every
marker has a name and no name is defined twice; it then binds each name to the number of
instructions before it, and otherwise it reports the first faulty definition.
-/

namespace Rsc

namespace Line

/-- The tokens after the label marker, `none` on a line without one. -/
def afterMarker? (line : Line) : Option (List Text) :=
  match line.text with
  | '.' :: t => some (Text.tokens t)
  | _ => none

/-- The name that the line defines: the first token after the marker. -/
def name? (line : Line) : Option Text := line.afterMarker?.bind List.head?

/-- Whether the line is a marker without a name. -/
def lacksName (line : Line) : Bool := line.afterMarker? == some []

/-- Whether the line carries an instruction: a line without a marker does, and a line that defines
a name does when something follows the name. -/
def carries (line : Line) : Bool :=
  match line.afterMarker? with
  | none => true
  | some tokens => 1 < tokens.length

/-- The instruction that the line carries: the line itself, or what follows its name. -/
def instruction? (line : Line) : Option Line :=
  match Statement.ofText line.text with
  | .instruction _ => some line
  | .label _ rest => if rest.isEmpty then none else some ⟨line.number, rest⟩
  | .unnamed => none

end Line

/-- The names that lines define, in order. -/
def definedNames (lines : List Line) : List Text := lines.filterMap Line.name?

/-- The instructions that lines carry, in order of address. -/
def instructionLines (lines : List Line) : List Line := lines.filterMap Line.instruction?

/-- The names that lines define, each with its address when the first instruction has the address
`base`: the number of instructions before it, counted from `base`. -/
def labelTable (base : Nat) : List Line → LabelTable
  | [] => []
  | line :: lines =>
    (line.name?.map fun name => (name, (base : Int))).toList
      ++ labelTable (base + line.instruction?.toList.length) lines

/-- Every marker has a name, and no name is defined twice. -/
structure LabelsSound (lines : List Line) : Prop where
  named : ∀ line ∈ lines, line.lacksName = false
  distinct : (definedNames lines).Nodup

/-- What is wrong with a definition that comes after those of `names`. -/
inductive LabelFault (names : List Text) (line : Line) : Cause → Prop where
  | unnamed (hline : line.lacksName = true) : LabelFault names line .unnamedLabel
  | duplicate {name : Text} (hline : line.name? = some name) (hname : name ∈ names) :
      LabelFault names line (.duplicateLabel name)

/-! ## Reading a line -/

/-- A text that does not begin with the marker is an instruction as it stands. -/
theorem Statement.ofText_of_no_marker {t : Text} (hmarker : ∀ u, t ≠ '.' :: u) :
    Statement.ofText t = .instruction t := by
  unfold Statement.ofText
  split
  next u => exact absurd rfl (hmarker u)
  next => rfl

theorem Line.afterMarker?_of_no_marker {line : Line} (hmarker : ∀ t, line.text ≠ '.' :: t) :
    line.afterMarker? = none := by
  unfold Line.afterMarker?
  split
  next t ht => exact absurd ht (hmarker t)
  next => rfl

/-- A line with a marker is read as its tokens say: the first is the name, and the others are the
tokens of what follows. -/
theorem Statement.ofText_marker (t : Text) :
    (Text.tokens t = [] ∧ Statement.ofText ('.' :: t) = .unnamed) ∨
      ∃ name rest, Text.tokens t = name :: Text.tokens rest ∧ (rest = [] ↔ Text.tokens rest = []) ∧
        Statement.ofText ('.' :: t) = .label name rest := by
  cases hbody : Text.trimLeft t with
  | nil =>
      refine Or.inl ⟨Text.trimLeft_eq_nil_iff.mp hbody, ?_⟩
      simp [Statement.ofText, hbody]
  | cons c body =>
      have hc : Text.isBlank c = false := by
        have hhead := List.head?_dropWhile_not Text.isBlank t
        rw [show t.dropWhile Text.isBlank = c :: body from hbody] at hhead
        simpa using hhead
      refine Or.inr ⟨(c :: body).takeWhile fun d => !Text.isBlank d,
        Text.trim ((c :: body).dropWhile fun d => !Text.isBlank d), ?_, ?_, ?_⟩
      · rw [Text.tokens_trim, ← Text.tokens_trimLeft t, hbody]
        exact Text.tokens_cons_of_not_blank hc body
      · rw [Text.tokens_trim]
        exact Text.trim_eq_nil_iff
      · simp [Statement.ofText, hbody]

/-- The four kinds of line, each with what it defines and what it carries. -/
inductive Line.Kind (line : Line) : Prop where
  /-- No marker: the line is an instruction. -/
  | plain {t : Text} (hstatement : Statement.ofText line.text = .instruction t)
      (hname : line.name? = none) (hlacks : line.lacksName = false)
      (hcarries : line.carries = true) (hinstruction : line.instruction? = some line)
  /-- A marker without a name. -/
  | unnamed (hstatement : Statement.ofText line.text = .unnamed)
      (hname : line.name? = none) (hlacks : line.lacksName = true)
      (hcarries : line.carries = false) (hinstruction : line.instruction? = none)
  /-- A name with nothing after it. -/
  | bare {name : Text} (hstatement : Statement.ofText line.text = .label name [])
      (hname : line.name? = some name) (hlacks : line.lacksName = false)
      (hcarries : line.carries = false) (hinstruction : line.instruction? = none)
  /-- A name and an instruction after it. -/
  | labelled {name rest : Text} (hstatement : Statement.ofText line.text = .label name rest)
      (hname : line.name? = some name) (hlacks : line.lacksName = false)
      (hcarries : line.carries = true) (hinstruction : line.instruction? = some ⟨line.number, rest⟩)
      (hrest : rest ≠ []) (htokens : Text.tokens rest ≠ [])

theorem Line.kind_of_no_marker {line : Line} (hmarker : ∀ t, line.text ≠ '.' :: t) :
    line.Kind := by
  have hafter := Line.afterMarker?_of_no_marker hmarker
  have hstatement := Statement.ofText_of_no_marker hmarker
  apply Line.Kind.plain hstatement
  · simp [Line.name?, hafter]
  · simp [Line.lacksName, hafter]
  · simp [Line.carries, hafter]
  · simp [Line.instruction?, hstatement]

theorem Line.kind_of_marker {line : Line} {t : Text} (hmarker : line.text = '.' :: t) :
    line.Kind := by
  have hafter : line.afterMarker? = some (Text.tokens t) := by
    simp [Line.afterMarker?, hmarker]
  rcases Statement.ofText_marker t with
    ⟨htokens, hstatement⟩ | ⟨name, rest, htokens, hrest, hstatement⟩
  · rw [← hmarker] at hstatement
    rw [htokens] at hafter
    apply Line.Kind.unnamed hstatement
    · simp [Line.name?, hafter]
    · simp [Line.lacksName, hafter]
    · simp [Line.carries, hafter]
    · simp [Line.instruction?, hstatement]
  · rw [← hmarker] at hstatement
    rw [htokens] at hafter
    have hname : line.name? = some name := by simp [Line.name?, hafter]
    have hlacks : line.lacksName = false := by simp [Line.lacksName, hafter]
    cases rest with
    | nil =>
        apply Line.Kind.bare hstatement hname hlacks
        · simp [Line.carries, hafter]
        · simp [Line.instruction?, hstatement]
    | cons c rest =>
        have hfollows : Text.tokens (c :: rest) ≠ [] := fun h => by simpa using hrest.mpr h
        apply Line.Kind.labelled hstatement hname hlacks ?_ ?_ (by simp) hfollows
        · simpa [Line.carries, hafter, List.length_pos_iff] using hfollows
        · simp [Line.instruction?, hstatement]

/-- Every line is of one of the kinds. -/
theorem Line.kind (line : Line) : line.Kind := by
  by_cases hmarker : ∃ t, line.text = '.' :: t
  · obtain ⟨t, ht⟩ := hmarker
    exact Line.kind_of_marker ht
  · exact Line.kind_of_no_marker fun t ht => hmarker ⟨t, ht⟩

/-- The name that a statement defines. -/
def Statement.name? : Statement → Option Text
  | label name _ => some name
  | _ => none

/-- The name that a line defines is that of its statement. -/
theorem Line.name?_eq_statement (line : Line) :
    line.name? = (Statement.ofText line.text).name? := by
  cases line.kind with
  | plain hstatement hname => rw [hname, hstatement]; rfl
  | unnamed hstatement hname => rw [hname, hstatement]; rfl
  | bare hstatement hname => rw [hname, hstatement]; rfl
  | labelled hstatement hname => rw [hname, hstatement]; rfl

/-- A line lacks a name if its statement is a marker without one. -/
theorem Line.lacksName_eq_statement (line : Line) :
    line.lacksName = decide (Statement.ofText line.text = .unnamed) := by
  cases line.kind with
  | plain hstatement _ hlacks => rw [hlacks, hstatement]; rfl
  | unnamed hstatement _ hlacks => rw [hlacks, hstatement]; rfl
  | bare hstatement _ hlacks => rw [hlacks, hstatement]; rfl
  | labelled hstatement _ hlacks => rw [hlacks, hstatement]; rfl

theorem Line.isSome_instruction? (line : Line) : line.instruction?.isSome = line.carries := by
  cases line.kind with
  | plain _ _ _ hcarries hinstruction => rw [hinstruction, hcarries]; rfl
  | unnamed _ _ _ hcarries hinstruction => rw [hinstruction, hcarries]; rfl
  | bare _ _ _ hcarries hinstruction => rw [hinstruction, hcarries]; rfl
  | labelled _ _ _ hcarries hinstruction => rw [hinstruction, hcarries]; rfl

/-- There is an instruction for every line that carries one. -/
theorem length_instructionLines (lines : List Line) :
    (instructionLines lines).length = lines.countP Line.carries := by
  rw [instructionLines, List.length_filterMap_eq_countP]
  exact List.countP_congr fun line _ => by rw [line.isSome_instruction?]

/-! ## One line, then all lines -/

theorem LabelTable.isSome_find?_iff {labels : LabelTable} {name : Text} :
    (labels.find? name).isSome = true ↔ name ∈ labels.map Prod.fst := by
  simp [LabelTable.find?]

theorem definedNames_cons (line : Line) (lines : List Line) :
    definedNames (line :: lines) = line.name?.toList ++ definedNames lines := by
  cases hname : line.name? <;> simp [definedNames, hname]

theorem instructionLines_cons (line : Line) (lines : List Line) :
    instructionLines (line :: lines) = line.instruction?.toList ++ instructionLines lines := by
  cases hline : line.instruction? <;> simp [instructionLines, hline]

/-- The table has the defined names in their order. -/
theorem map_fst_labelTable (base : Nat) (lines : List Line) :
    (labelTable base lines).map Prod.fst = definedNames lines := by
  induction lines generalizing base with
  | nil => rfl
  | cons line lines ih =>
      rw [labelTable, List.map_append, ih, definedNames_cons]
      cases line.name? <;> rfl

namespace Resolver

/-- The state after a line without a faulty definition. -/
def absorb (r : Resolver) (line : Line) : Resolver where
  labels := (line.name?.map fun name => (name, (r.count : Int))).toList ++ r.labels
  instructions := line.instruction?.toList ++ r.instructions
  count := r.count + line.instruction?.toList.length

/-- A line without a fault is taken in. -/
theorem step_of_sound {r : Resolver} {line : Line} (hlacks : line.lacksName = false)
    (hnew : ∀ name ∈ line.name?, name ∉ r.labels.map Prod.fst) :
    r.step line = .ok (r.absorb line) := by
  cases line.kind with
  | plain hstatement hname _ _ hinstruction =>
      simp [step, absorb, emit, hstatement, hname, hinstruction]
  | unnamed _ _ hlacks' => exact absurd (hlacks.symm.trans hlacks') (by decide)
  | bare hstatement hname _ _ hinstruction =>
      have hfree : ¬ (r.labels.find? _).isSome = true :=
        mt LabelTable.isSome_find?_iff.mp (hnew _ hname)
      simp [step, absorb, bind, hstatement, hfree, hname, hinstruction]
  | labelled hstatement hname _ _ hinstruction hrest =>
      have hfree : ¬ (r.labels.find? _).isSome = true :=
        mt LabelTable.isSome_find?_iff.mp (hnew _ hname)
      simp [step, absorb, bind, emit, hstatement, hfree, hname, hinstruction, hrest]

/-- A line with a fault ends the pass. -/
theorem step_of_fault {r : Resolver} {line : Line} {cause : Cause}
    (hfault : LabelFault (r.labels.map Prod.fst) line cause) :
    r.step line = .error ⟨cause, line.number, line.text⟩ := by
  cases hfault with
  | unnamed hlacks =>
      cases line.kind with
      | plain _ _ hlacks' => exact absurd (hlacks.symm.trans hlacks') (by decide)
      | unnamed hstatement => simp [step, hstatement]
      | bare _ _ hlacks' => exact absurd (hlacks.symm.trans hlacks') (by decide)
      | labelled _ _ hlacks' => exact absurd (hlacks.symm.trans hlacks') (by decide)
  | duplicate hname hbound =>
      have hbound := LabelTable.isSome_find?_iff.mpr hbound
      cases line.kind with
      | plain _ hname' => rw [hname] at hname'; cases hname'
      | unnamed _ hname' => rw [hname] at hname'; cases hname'
      | bare hstatement hname' =>
          obtain rfl := Option.some.inj (hname.symm.trans hname')
          simp [step, hstatement, hbound]
      | labelled hstatement hname' =>
          obtain rfl := Option.some.inj (hname.symm.trans hname')
          simp [step, hstatement, hbound]

/-- The pass over lines without a faulty definition, from any state: it adds what the lines define
and carry, and counts on. -/
theorem foldlM_step_of_sound {lines : List Line} {r : Resolver} (hsound : LabelsSound lines)
    (hnew : ∀ name ∈ definedNames lines, name ∉ r.labels.map Prod.fst) :
    lines.foldlM step r = .ok
      { labels := (labelTable r.count lines).reverse ++ r.labels
        instructions := (instructionLines lines).reverse ++ r.instructions
        count := r.count + (instructionLines lines).length } := by
  -- The state keeps its lists with the newest entry first.
  induction lines generalizing r with
  | nil => simp [labelTable, instructionLines, pure, Except.pure]
  | cons line lines ih =>
      obtain ⟨hnamed, hdistinct⟩ := hsound
      rw [definedNames_cons] at hdistinct hnew
      obtain ⟨_, hrest, hapart⟩ := List.nodup_append'.mp hdistinct
      have hstep : r.step line = .ok (r.absorb line) := by
        apply step_of_sound (hnamed line List.mem_cons_self)
        intro name hname
        exact hnew name (List.mem_append_left _ (Option.mem_toList.mpr hname))
      have hnext : ∀ name ∈ definedNames lines, name ∉ (r.absorb line).labels.map Prod.fst := by
        intro name hmem
        have hold := hnew name (List.mem_append_right _ hmem)
        simp only [absorb, List.map_append, List.mem_append, not_or]
        refine ⟨?_, hold⟩
        intro hline
        apply hapart (a := name) ?_ hmem
        cases hname : line.name? with
        | none => simp [hname] at hline
        | some own => simpa [hname] using hline
      rw [List.foldlM_cons, hstep]
      refine (ih ⟨fun l hl => hnamed l (List.mem_cons_of_mem _ hl), hrest⟩ hnext).trans ?_
      simp only [absorb, labelTable, instructionLines_cons, List.reverse_append, List.append_assoc,
        List.length_append, Nat.add_assoc]
      cases line.name? <;> cases line.instruction? <;> rfl

end Resolver

/-! ## The whole pass -/

/-- Sound definitions resolve to the table and the instructions. -/
theorem resolve_of_sound {lines : List Line} (hsound : LabelsSound lines) :
    resolve lines = .ok ⟨labelTable 0 lines, instructionLines lines⟩ := by
  rw [resolve, Resolver.foldlM_step_of_sound hsound (by simp)]
  simp [bind, Except.bind, pure, Except.pure, Resolver.finish]

/-- The first fault ends the pass, whatever follows it. -/
theorem resolve_of_fault {before after : List Line} {line : Line} {cause : Cause}
    (hsound : LabelsSound before) (hfault : LabelFault (definedNames before) line cause) :
    resolve (before ++ line :: after) = .error ⟨cause, line.number, line.text⟩ := by
  rw [resolve, List.foldlM_append, Resolver.foldlM_step_of_sound hsound (by simp)]
  have hstep : Resolver.step
      { labels := (labelTable 0 before).reverse ++ []
        instructions := (instructionLines before).reverse ++ []
        count := 0 + (instructionLines before).length } line =
      .error ⟨cause, line.number, line.text⟩ := by
    apply Resolver.step_of_fault
    rw [List.append_nil, List.map_reverse, map_fst_labelTable]
    cases hfault with
    | unnamed hlacks => exact .unnamed hlacks
    | duplicate hname hbound => exact .duplicate hname (List.mem_reverse.mpr hbound)
  simp only [bind, Except.bind, List.foldlM_cons, hstep]

/-- Either all definitions are sound, or there is a first one that is not. -/
theorem sound_or_fault (lines : List Line) :
    LabelsSound lines ∨ ∃ before line after cause, lines = before ++ line :: after ∧
      LabelsSound before ∧ LabelFault (definedNames before) line cause := by
  -- From the end: the last line matters only when everything before it is sound.
  induction lines using List.reverseRecOn with
  | nil => exact Or.inl ⟨by simp, by simp [definedNames]⟩
  | append_singleton lines line ih =>
      rcases ih with hsound | ⟨before, faulty, after, cause, rfl, hsound, hfault⟩
      · by_cases hlacks : line.lacksName = true
        · exact Or.inr ⟨lines, line, [], _, rfl, hsound, .unnamed hlacks⟩
        · by_cases hdup : ∃ name, line.name? = some name ∧ name ∈ definedNames lines
          · obtain ⟨name, hname, hmem⟩ := hdup
            exact Or.inr ⟨lines, line, [], _, rfl, hsound, .duplicate hname hmem⟩
          · refine Or.inl ⟨?_, ?_⟩
            · intro l hl
              rcases List.mem_append.mp hl with hl | hl
              · exact hsound.named l hl
              · rw [List.mem_singleton.mp hl]
                simpa using hlacks
            · rw [definedNames, List.filterMap_append]
              refine List.nodup_append'.mpr ⟨hsound.distinct, ?_, ?_⟩
              · cases hname : line.name? <;> simp [hname]
              · intro name hmem hline
                refine hdup ⟨name, ?_, hmem⟩
                simpa using hline
      · exact Or.inr ⟨before, faulty, after ++ [line], cause, by simp, hsound, hfault⟩

/-! ## The label table -/

theorem definedNames_append (first second : List Line) :
    definedNames (first ++ second) = definedNames first ++ definedNames second :=
  List.filterMap_append

theorem instructionLines_append (first second : List Line) :
    instructionLines (first ++ second) = instructionLines first ++ instructionLines second :=
  List.filterMap_append

/-- Later labels count on from the instructions before them. -/
theorem labelTable_append (base : Nat) (first second : List Line) :
    labelTable base (first ++ second) =
      labelTable base first ++ labelTable (base + (instructionLines first).length) second := by
  induction first generalizing base with
  | nil => rfl
  | cons line first ih =>
      rw [List.cons_append, labelTable, labelTable, ih, instructionLines_cons, List.append_assoc,
        List.length_append, Nat.add_assoc]

/-- A name is bound to the number of instructions before the line that defines it first. -/
theorem find?_labelTable_iff {base : Nat} {lines : List Line} {name : Text} {target : Int} :
    (labelTable base lines).find? name = some target ↔
      ∃ before line after, lines = before ++ line :: after ∧ line.name? = some name ∧
        name ∉ definedNames before ∧
        target = ((base + (instructionLines before).length : Nat) : Int) := by
  constructor
  · intro hfind
    induction lines generalizing base with
    | nil => cases hfind
    | cons line lines ih =>
        rw [labelTable, LabelTable.find?, List.lookup_append, Option.or_eq_some_iff] at hfind
        rcases hfind with hown | ⟨hnotOwn, hlater⟩
        · cases hname : line.name? with
          | none => simp [hname] at hown
          | some own =>
              rw [hname] at hown
              by_cases hsame : name = own
              · subst own
                have htarget : (base : Int) = target := by simpa using hown
                exact ⟨[], line, lines, rfl, hname, by simp [definedNames], htarget.symm⟩
              · have hdiffer : (name == own) = false := by simpa using hsame
                simp [List.lookup_cons, hdiffer] at hown
        · obtain ⟨before, definer, after, rfl, hname, hfirst, rfl⟩ := ih hlater
          refine ⟨line :: before, definer, after, rfl, hname, ?_, ?_⟩
          · rw [definedNames_cons, List.mem_append, not_or]
            refine ⟨?_, hfirst⟩
            intro hmem
            rw [Option.mem_toList.mp hmem] at hnotOwn
            simp at hnotOwn
          · rw [instructionLines_cons, List.length_append, Nat.add_assoc]
  · rintro ⟨before, line, after, rfl, hname, hfirst, rfl⟩
    have hnone : (labelTable base before).lookup name = none := by
      rw [← map_fst_labelTable base] at hfirst
      rw [List.lookup_eq_none_iff]
      intro entry hmem
      simp only [bne_iff_ne, ne_eq]
      rintro rfl
      exact hfirst (List.mem_map_of_mem hmem)
    rw [labelTable_append, LabelTable.find?, List.lookup_append, hnone, Option.none_or, labelTable,
      hname]
    simp

/-- Addresses lie between the first address and the one after the last instruction. -/
theorem bounds_of_mem_labelTable {base : Nat} {lines : List Line} {entry : Text × Int}
    (hmem : entry ∈ labelTable base lines) :
    (base : Int) ≤ entry.2 ∧ entry.2 ≤ ((base + (instructionLines lines).length : Nat) : Int) := by
  induction lines generalizing base with
  | nil => cases hmem
  | cons line lines ih =>
      rw [labelTable, List.mem_append] at hmem
      rw [instructionLines_cons, List.length_append]
      rcases hmem with hown | hlater
      · cases hname : line.name? with
        | none => simp [hname] at hown
        | some own =>
            simp only [hname, Option.map_some, Option.toList_some, List.mem_singleton] at hown
            subst entry
            dsimp only
            omega
      · have hbounds := ih hlater
        omega

/-- Among sound definitions, a name is defined on one line only. -/
theorem LabelsSound.index_unique {lines : List Line} (hsound : LabelsSound lines) {i j : Nat}
    {first second : Line} {name : Text} (hi : lines[i]? = some first)
    (hj : lines[j]? = some second) (hfirst : first.name? = some name)
    (hsecond : second.name? = some name) : i = j := by
  have hdistinct := hsound.distinct
  clear hsound
  induction lines generalizing i j with
  | nil => simp at hi
  | cons line lines ih =>
      rw [definedNames_cons] at hdistinct
      obtain ⟨_, hrest, hapart⟩ := List.nodup_append'.mp hdistinct
      have hlater : ∀ k (other : Line), lines[k]? = some other → other.name? = some name →
          name ∈ definedNames lines := fun k other hk hother =>
        List.mem_filterMap.mpr ⟨other, List.mem_of_getElem? hk, hother⟩
      cases i with
      | zero =>
          cases j with
          | zero => rfl
          | succ j =>
              obtain rfl : line = first := by simpa using hi
              exact absurd (hlater j second (by simpa using hj) hsecond)
                (hapart (Option.mem_toList.mpr hfirst))
      | succ i =>
          cases j with
          | zero =>
              obtain rfl : line = second := by simpa using hj
              exact absurd (hlater i first (by simpa using hi) hfirst)
                (hapart (Option.mem_toList.mpr hsecond))
          | succ j =>
              exact congrArg Nat.succ (ih (by simpa using hi) (by simpa using hj) hrest)

/-- Among sound definitions, a bound name has one line that defines it, and its address is the
number of instructions that the lines before that one carry. -/
theorem LabelsSound.exists_definer {lines : List Line} (hsound : LabelsSound lines) {name : Text}
    {target : Int} (hfind : (labelTable 0 lines).find? name = some target) :
    ∃ k definer, lines[k]? = some definer ∧ definer.name? = some name ∧
      (∀ j other, lines[j]? = some other → other.name? = some name → j = k) ∧
      target = ((lines.take k).countP Line.carries : Nat) := by
  obtain ⟨before, definer, after, rfl, hname, _, rfl⟩ := find?_labelTable_iff.mp hfind
  have hget : (before ++ definer :: after)[before.length]? = some definer := by simp
  refine ⟨before.length, definer, hget, hname, ?_, ?_⟩
  · intro j other hother hsame
    exact hsound.index_unique hother hget hsame hname
  · rw [List.take_left, Nat.zero_add, length_instructionLines]

/-! ## Instructions of cleaned lines -/

/-- An instruction keeps the number of its line, and has tokens if its line has. -/
theorem Line.instruction?_eq_some {line instruction : Line}
    (h : line.instruction? = some instruction) (htokens : Text.tokens line.text ≠ []) :
    instruction.number = line.number ∧ Text.tokens instruction.text ≠ [] := by
  cases line.kind with
  | plain _ _ _ _ hinstruction =>
      obtain rfl := Option.some.inj (h.symm.trans hinstruction)
      exact ⟨rfl, htokens⟩
  | unnamed _ _ _ _ hinstruction => rw [h] at hinstruction; cases hinstruction
  | bare _ _ _ _ hinstruction => rw [h] at hinstruction; cases hinstruction
  | labelled _ _ _ _ hinstruction _ hfollows =>
      obtain rfl := Option.some.inj (h.symm.trans hinstruction)
      exact ⟨rfl, hfollows⟩

/-- An instruction has a place in the source and at least one token. -/
theorem mem_instructionLines_cleanLines {raw : List Text} {instruction : Line}
    (h : instruction ∈ instructionLines (cleanLines raw)) :
    (1 ≤ instruction.number ∧ instruction.number ≤ raw.length) ∧
      Text.tokens instruction.text ≠ [] := by
  obtain ⟨line, hline, hinstruction⟩ := List.mem_filterMap.mp h
  obtain ⟨hnumber, htokens⟩ :=
    Line.instruction?_eq_some hinstruction (tokens_of_mem_cleanLines hline)
  rw [hnumber]
  exact ⟨number_of_mem_cleanLines hline, htokens⟩

/-- The instruction of a statement, empty if it has none. -/
def Statement.carried : Statement → Text
  | instruction text => text
  | label _ rest => rest
  | unnamed => []

/-- The instruction that a raw line carries, empty if it carries none. -/
def instructionText (raw : Text) : Text := (Statement.ofText (cleanText raw)).carried

/-- A statement that is an instruction is the whole text. -/
theorem Statement.eq_of_ofText_instruction {t u : Text} (h : Statement.ofText t = .instruction u) :
    t = u := by
  unfold Statement.ofText at h
  split at h
  next t => split at h <;> cases h
  next => exact Statement.instruction.inj h

theorem Line.eq_of_instruction? {line instruction : Line}
    (h : line.instruction? = some instruction) :
    instruction = ⟨line.number, (Statement.ofText line.text).carried⟩ := by
  unfold Line.instruction? at h
  split at h
  next text hstatement =>
    obtain rfl := Option.some.inj h
    rw [hstatement, Statement.carried, ← Statement.eq_of_ofText_instruction hstatement]
  next name rest hstatement =>
    split at h
    next => cases h
    next =>
      obtain rfl := Option.some.inj h
      rw [hstatement, Statement.carried]
  next => cases h

/-- What a statement carries is the instruction of its line. -/
theorem Line.instruction?_of_carried {line : Line}
    (h : (Statement.ofText line.text).carried ≠ []) :
    line.instruction? = some ⟨line.number, (Statement.ofText line.text).carried⟩ := by
  have hsome : line.instruction?.isSome = true := by
    unfold Line.instruction?
    cases hstatement : Statement.ofText line.text with
    | instruction text => rfl
    | label name rest =>
        have hrest : rest ≠ [] := by simpa [hstatement, Statement.carried] using h
        simp [hrest]
    | unnamed => simp [hstatement, Statement.carried] at h
  obtain ⟨instruction, hinstruction⟩ := Option.isSome_iff_exists.mp hsome
  rw [hinstruction, Line.eq_of_instruction? hinstruction]

/-- An instruction of a source stands on a line of it, and has the number of that line. -/
theorem exists_raw_of_mem_instructionLines {raw : List Text} {instruction : Line}
    (h : instruction ∈ instructionLines (cleanLines raw)) :
    ∃ (i : Nat) (text : Text), raw[i]? = some text ∧
      instruction = ⟨(i + 1 : Nat), instructionText text⟩ := by
  obtain ⟨line, hline, hinstruction⟩ := List.mem_filterMap.mp h
  obtain ⟨i, text, hget, rfl, _⟩ := mem_cleanLines_iff.mp hline
  exact ⟨i, text, hget, Line.eq_of_instruction? hinstruction⟩

end Rsc
