import Rsc.Proofs.Assembly

/-!
# Sources that correspond line by line

Two lines correspond when they define the same name, or none, and carry instructions that are
related, or none. The first pass cannot tell sources apart whose lines correspond: it finds the
same faults, binds the same names to the same addresses, and collects instructions that are
related one by one. Lines may also define names that differ by a renaming; the table then differs
by the same renaming.
-/

namespace Rsc

/-- Two lines that are the same to the first pass, up to their places and their instructions. -/
structure Line.Corresponds (Placed : Int → Int → Prop) (Related : Line → Line → Prop)
    (line line' : Line) : Prop where
  number : Placed line.number line'.number
  name? : line.name? = line'.name?
  lacksName : line.lacksName = line'.lacksName
  instruction? : Option.Rel Related line.instruction? line'.instruction?

/-- Two lines that are the same to the first pass, up to the name that they define and their
instructions. -/
structure Line.Renames (rename : Text → Text) (Related : Line → Line → Prop)
    (line line' : Line) : Prop where
  name? : line'.name? = line.name?.map rename
  lacksName : line'.lacksName = line.lacksName
  instruction? : Option.Rel Related line.instruction? line'.instruction?

theorem Line.Corresponds.renames {Placed : Int → Int → Prop} {Related : Line → Line → Prop}
    {line line' : Line} (h : line.Corresponds Placed Related line') :
    line.Renames id Related line' :=
  ⟨by rw [Option.map_id, h.name?, id], h.lacksName.symm, h.instruction?⟩

/-- The table with other names. -/
def LabelTable.rename (rename : Text → Text) (labels : LabelTable) : LabelTable :=
  labels.map fun entry => (rename entry.1, entry.2)

theorem length_toList_of_rel {α β : Type} {R : α → β → Prop} {first : Option α}
    {second : Option β} (h : Option.Rel R first second) :
    first.toList.length = second.toList.length := by
  cases h <;> rfl

theorem rel_of_map_eq {α β γ : Type} {f : α → γ} {g : β → γ} {first : Option α}
    {second : Option β} (h : first.map f = second.map g) :
    Option.Rel (fun a b => f a = g b) first second := by
  cases first with
  | none =>
      obtain rfl : second = none := by simpa using h.symm
      exact .none
  | some a =>
      obtain ⟨b, rfl, hsame⟩ := Option.map_eq_some_iff.mp h.symm
      exact .some hsame.symm

section

variable {rename : Text → Text} {Related : Line → Line → Prop} {lines lines' : List Line}
  (h : List.Forall₂ (Line.Renames rename Related) lines lines')

include h

theorem definedNames_of_renames : definedNames lines' = (definedNames lines).map rename := by
  induction h with
  | nil => rfl
  | @cons line _ _ _ hline _ ih =>
      rw [definedNames_cons, definedNames_cons, List.map_append, hline.name?, ih]
      cases line.name? <;> rfl

/-- Renamed lines have the renamed table. -/
theorem labelTable_of_renames (base : Nat) :
    labelTable base lines' = (labelTable base lines).rename rename := by
  induction h generalizing base with
  | nil => rfl
  | @cons line _ _ _ hline _ ih =>
      rw [labelTable, labelTable, LabelTable.rename, List.map_append, hline.name?,
        ← length_toList_of_rel hline.instruction?, ih, LabelTable.rename]
      cases line.name? <;> rfl

/-- The instructions of renamed lines are related one by one. -/
theorem instructionLines_of_renames :
    List.Forall₂ Related (instructionLines lines) (instructionLines lines') :=
  List.rel_filterMap (fun _ _ hline => hline.instruction?) h

/-- Renaming keeps definitions sound if it keeps the defined names apart. -/
theorem labelsSound_of_renames (hsound : LabelsSound lines)
    (hapart : ∀ name ∈ definedNames lines, ∀ other ∈ definedNames lines,
      rename name = rename other → name = other) : LabelsSound lines' := by
  refine ⟨?_, ?_⟩
  · have hnamed := hsound.named
    clear hsound hapart
    induction h with
    | nil => simp
    | cons hline _ ih =>
        rw [List.forall_mem_cons] at hnamed ⊢
        exact ⟨hline.lacksName ▸ hnamed.1, ih hnamed.2⟩
  · rw [definedNames_of_renames h]
    exact hsound.distinct.map_on hapart

end

section

variable {Placed : Int → Int → Prop} {Related : Line → Line → Prop} {lines lines' : List Line}
  (h : List.Forall₂ (Line.Corresponds Placed Related) lines lines')

include h

theorem definedNames_of_corresponds : definedNames lines = definedNames lines' := by
  rw [definedNames_of_renames (h.imp fun _ _ hline => hline.renames), List.map_id]

/-- Lines that correspond have the same table. -/
theorem labelTable_of_corresponds (base : Nat) :
    labelTable base lines = labelTable base lines' := by
  rw [labelTable_of_renames (h.imp fun _ _ hline => hline.renames)]
  exact (List.map_id _).symm

theorem instructionLines_of_corresponds :
    List.Forall₂ Related (instructionLines lines) (instructionLines lines') :=
  instructionLines_of_renames (h.imp fun _ _ hline => hline.renames)

/-- Lines that correspond are sound together. -/
theorem labelsSound_of_corresponds (hsound : LabelsSound lines) : LabelsSound lines' :=
  labelsSound_of_renames (h.imp fun _ _ hline => hline.renames) hsound fun _ _ _ _ hsame => hsame

end

theorem LabelFault.of_corresponds {Placed : Int → Int → Prop} {Related : Line → Line → Prop}
    {names : List Text} {line line' : Line} {cause : Cause}
    (h : line.Corresponds Placed Related line') (hfault : LabelFault names line cause) :
    LabelFault names line' cause := by
  cases hfault with
  | unnamed hline => exact .unnamed (h.lacksName ▸ hline)
  | duplicate hline hname => exact .duplicate (h.name? ▸ hline) hname

/-- The first pass over lines that correspond finds the same fault at corresponding lines, or the
same labels and related instructions. -/
theorem resolve_of_corresponds {Placed : Int → Int → Prop} {Related : Line → Line → Prop}
    {lines lines' : List Line}
    (h : List.Forall₂ (Line.Corresponds Placed Related) lines lines') :
    Agree (fun d d' => d.cause = d'.cause ∧ Placed d.line d'.line)
      (fun r r' => r.labels = r'.labels ∧ List.Forall₂ Related r.instructions r'.instructions)
      (resolve lines) (resolve lines') := by
  rcases sound_or_fault lines with hsound | ⟨before, line, after, cause, rfl, hsound, hfault⟩
  · rw [resolve_of_sound hsound, resolve_of_sound (labelsSound_of_corresponds h hsound)]
    exact .ok ⟨labelTable_of_corresponds h 0, instructionLines_of_corresponds h⟩
  · obtain ⟨before', line', after', rfl, hbefore, hline⟩ := forall₂_append_cons_left h
    have hsound' := labelsSound_of_corresponds hbefore hsound
    have hfault' := hfault.of_corresponds hline
    rw [definedNames_of_corresponds hbefore] at hfault'
    rw [resolve_of_fault hsound hfault, resolve_of_fault hsound' hfault']
    exact .error ⟨rfl, hline.number⟩

/-! ## Lines in step -/

theorem Line.Corresponds.refl {Related : Line → Line → Prop} (hrefl : ∀ line, Related line line)
    (line : Line) : line.Corresponds Eq Related line := by
  refine ⟨rfl, rfl, rfl, ?_⟩
  cases line.instruction? with
  | none => exact .none
  | some instruction => exact .some (hrefl instruction)

/-- Raw lines that correspond after cleaning, at every place, make sources that correspond. -/
theorem cleanLines_corresponds {Related : Line → Line → Prop} {raw raw' : List Text}
    (h : List.Forall₂ (fun text text' => (cleanText text = [] ↔ cleanText text' = []) ∧
      ∀ number, Line.Corresponds Eq Related ⟨number, cleanText text⟩ ⟨number, cleanText text'⟩)
      raw raw') :
    List.Forall₂ (Line.Corresponds Eq Related) (cleanLines raw) (cleanLines raw') := by
  apply List.rel_filterMap ?_ (forall₂_zipIdx h 1)
  rintro ⟨text, number⟩ ⟨text', number'⟩ ⟨⟨hempty, hlines⟩, rfl⟩
  by_cases hnil : cleanText text = []
  · have hnil' := hempty.mp hnil
    simp only [hnil, hnil', List.isEmpty_nil, if_true]
    exact .none
  · have hnil' := mt hempty.mpr hnil
    simp only [List.isEmpty_iff, hnil, hnil', if_false]
    exact .some (hlines number)

end Rsc
