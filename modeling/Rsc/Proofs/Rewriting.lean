import Rsc.Proofs.Comments
import Rsc.Proofs.Resolution

/-!
# Replacing the instruction of a line

A line that carries an instruction is made of blanks, a label with the blanks behind it, the
instruction, blanks again and a comment. Another text in place of the instruction leaves the other
parts alone, provided that it stands by itself: it does not begin like a label, holds no comment,
and does not end in half a marker. The line then reads as before, with the new instruction.
-/

namespace Rsc

/-- A text that reads the same wherever it is put behind a blank. -/
structure Standalone (t : Text) : Prop where
  nonempty : t ≠ []
  head : ∀ c ∈ t.head?, Text.isBlank c = false ∧ c ≠ '.'
  last : ∀ c ∈ t.getLast?, Text.isBlank c = false ∧ c ≠ '/' ∧ c ≠ '-'
  clean : stripComment t = t

theorem Standalone.trim {t : Text} (h : Standalone t) : Text.trim t = t := by
  apply Text.trim_eq_self
  · exact fun c hc => (h.head c hc).1
  · exact fun c hc => (h.last c hc).1

/-- The same statement with another instruction, if it has one. -/
def Statement.withCarried (new : Text) : Statement → Statement
  | instruction _ => instruction new
  | label name _ => label name new
  | unnamed => unnamed

theorem Statement.carried_withCarried {statement : Statement} (h : statement.carried ≠ [])
    (new : Text) : (statement.withCarried new).carried = new := by
  cases statement with
  | instruction text => rfl
  | label name rest => rfl
  | unnamed => exact absurd rfl h

/-- Blanks in front are all that is trimmed off a text that ends in no blank. -/
theorem Text.exists_gap {t : Text} (hne : t ≠ []) (hhead : ∀ c ∈ t.head?, isBlank c = true)
    (hlast : ∀ c ∈ t.getLast?, isBlank c = false) :
    ∃ gap, t = gap ++ trim t ∧ gap ≠ [] ∧ ∀ c ∈ gap, isBlank c = true := by
  have ht : t.takeWhile isBlank ++ trimLeft t = t := List.takeWhile_append_dropWhile
  have htrim : trim t = trimLeft t := by
    apply trimRight_eq_self
    intro c hc
    have hsome : trimLeft t ≠ [] := by
      intro hnil
      simp [hnil] at hc
    apply hlast
    rw [← ht, List.getLast?_append_of_ne_nil _ hsome]
    exact hc
  refine ⟨t.takeWhile isBlank, ?_, ?_, fun c hc => List.mem_takeWhile_imp hc⟩
  · rw [htrim, ht]
  · obtain ⟨c, t, rfl⟩ := List.exists_cons_of_ne_nil hne
    simp [hhead c rfl]

/-! ## A label and what follows it -/

/-- Blanks between the marker and the name do not count. -/
theorem Statement.ofText_of_trimLeft {t body : Text} (h : Text.trimLeft t = body)
    (hne : body ≠ []) :
    Statement.ofText ('.' :: t) =
      .label (body.takeWhile fun c => !Text.isBlank c)
        (Text.trim (body.dropWhile fun c => !Text.isBlank c)) := by
  obtain ⟨c, body, rfl⟩ := List.exists_cons_of_ne_nil hne
  simp only [Statement.ofText, h]

/-- A label is cut out of what follows the marker and the blanks behind it. -/
theorem Statement.eq_of_ofText_label {t name rest : Text}
    (h : Statement.ofText t = .label name rest) :
    ∃ u, t = '.' :: u ∧ Text.trimLeft u ≠ [] ∧
      name = (Text.trimLeft u).takeWhile (fun c => !Text.isBlank c) ∧
      rest = Text.trim ((Text.trimLeft u).dropWhile fun c => !Text.isBlank c) := by
  by_cases hmarker : ∃ u, t = '.' :: u
  · obtain ⟨u, rfl⟩ := hmarker
    have hbody : Text.trimLeft u ≠ [] := by
      intro hnil
      simp [Statement.ofText, hnil] at h
    rw [Statement.ofText_of_trimLeft rfl hbody] at h
    obtain ⟨hname, hrest⟩ := Statement.label.inj h
    exact ⟨u, rfl, hbody, hname.symm, hrest.symm⟩
  · rw [Statement.ofText_of_no_marker fun u hu => hmarker ⟨u, hu⟩] at h
    cases h

/-- A definition is a marker, blanks, a word that ends at a blank, and what follows it. -/
theorem Statement.ofText_eq_label_iff {t name rest : Text} :
    Statement.ofText t = .label name rest ↔
      ∃ lead after, t = '.' :: (lead ++ (name ++ after)) ∧
        (∀ c ∈ lead, Text.isBlank c = true) ∧ name ≠ [] ∧
        (∀ c ∈ name, Text.isBlank c = false) ∧
        (∀ c ∈ after.head?, Text.isBlank c = true) ∧ rest = Text.trim after := by
  constructor
  · intro h
    obtain ⟨u, rfl, hbody, rfl, rfl⟩ := Statement.eq_of_ofText_label h
    obtain ⟨hne, hname, hstop⟩ := Text.word_of_head hbody (Text.head?_trimLeft u)
    refine ⟨u.takeWhile Text.isBlank, _, ?_, ?_, hne, hname, hstop, rfl⟩
    · rw [List.takeWhile_append_dropWhile, Text.trimLeft, List.takeWhile_append_dropWhile]
    · exact fun c hc => List.mem_takeWhile_imp hc
  · rintro ⟨lead, after, ht, hlead, hne, hname, hafter, hrest⟩
    have hbody : Text.trimLeft (lead ++ (name ++ after)) = name ++ after := by
      rw [Text.trimLeft_blank_append hlead, Text.trimLeft_eq_self]
      intro c hc
      rw [List.head?_append_of_ne_nil _ hne] at hc
      exact hname c (List.mem_of_mem_head? hc)
    have hword : ∀ c ∈ name, (!Text.isBlank c) = true := by simpa using hname
    rw [ht, Statement.ofText_of_trimLeft hbody (by simp [hne]), hrest,
      List.takeWhile_append_of_pos hword, List.dropWhile_append_of_pos hword]
    cases after with
    | nil => simp
    | cons c after =>
        have hc : Text.isBlank c = true := hafter c rfl
        rw [List.takeWhile_cons_of_neg (by simp [hc]), List.dropWhile_cons_of_neg (by simp [hc]),
          List.append_nil]

theorem Statement.ofText_label {blanks name gap rest : Text}
    (hblanks : ∀ c ∈ blanks, Text.isBlank c = true) (hne : name ≠ [])
    (hname : ∀ c ∈ name, Text.isBlank c = false) (hsome : gap ≠ [])
    (hgap : ∀ c ∈ gap, Text.isBlank c = true) (hrest : Text.trim rest = rest) :
    Statement.ofText ('.' :: (blanks ++ (name ++ (gap ++ rest)))) = .label name rest := by
  refine ofText_eq_label_iff.mpr ⟨blanks, gap ++ rest, rfl, hblanks, hne, hname, ?_, ?_⟩
  · intro c hc
    rw [List.head?_append_of_ne_nil _ hsome] at hc
    exact hgap c (List.mem_of_mem_head? hc)
  · rw [Text.trim_blank_append hgap, hrest]

/-- A name is cut off at blanks on both sides, and the text ends with what follows it. -/
theorem Statement.exists_label {t name rest : Text}
    (h : Statement.ofText t = .label name rest) (hrest : rest ≠ [])
    (hlast : ∀ c ∈ t.getLast?, Text.isBlank c = false) :
    ∃ blanks gap, t = '.' :: (blanks ++ (name ++ (gap ++ rest))) ∧
      (∀ c ∈ blanks, Text.isBlank c = true) ∧ name ≠ [] ∧
      (∀ c ∈ name, Text.isBlank c = false) ∧ gap ≠ [] ∧ ∀ c ∈ gap, Text.isBlank c = true := by
  obtain ⟨blanks, after, rfl, hblanks, hne, hname, hstop, rfl⟩ := ofText_eq_label_iff.mp h
  have hsome : after ≠ [] := by
    intro hnil
    exact hrest (by rw [hnil]; rfl)
  -- what follows the name begins with a blank, and ends where the text ends
  obtain ⟨gap, hgap, hne', hblank⟩ := Text.exists_gap hsome hstop (by
    intro c hc
    apply hlast
    rw [← List.append_assoc, ← List.cons_append, List.getLast?_append_of_ne_nil _ hsome]
    exact hc)
  refine ⟨blanks, gap, ?_, hblanks, hne, hname, hne', hblank⟩
  rw [← hgap]

/-- What stands before the instruction reads the same before another one. -/
theorem Statement.exists_front {t : Text} (hcarried : (Statement.ofText t).carried ≠ [])
    (hlast : ∀ c ∈ t.getLast?, Text.isBlank c = false) :
    ∃ front, t = front ++ (Statement.ofText t).carried ∧
      (∀ c ∈ front.getLast?, Text.isBlank c = true) ∧
      ∀ new, Standalone new →
        Statement.ofText (front ++ new) = (Statement.ofText t).withCarried new := by
  cases h : Statement.ofText t with
  | instruction text =>
      refine ⟨[], Statement.eq_of_ofText_instruction h, by simp, ?_⟩
      intro new hnew
      apply Statement.ofText_of_no_marker
      rintro u rfl
      exact (hnew.head '.' rfl).2 rfl
  | label name rest =>
      have hrest : rest ≠ [] := by simpa [h, carried] using hcarried
      obtain ⟨blanks, gap, ht, hblanks, hne, hname, hsome, hgap⟩ :=
        Statement.exists_label h hrest hlast
      refine ⟨'.' :: (blanks ++ (name ++ gap)), by simp [carried, ht], ?_, ?_⟩
      · intro c hc
        rw [← List.append_assoc, ← List.cons_append, List.getLast?_append_of_ne_nil _ hsome] at hc
        exact hgap c (List.mem_of_mem_getLast? hc)
      · intro new hnew
        simpa [withCarried] using
          Statement.ofText_label hblanks hne hname hsome hgap hnew.trim
  | unnamed => simp [h, carried] at hcarried

/-! ## The parts of a line -/

/-- The parts of a line around its instruction. -/
structure LineParts (raw lead front gap comment : Text) : Prop where
  carries : instructionText raw ≠ []
  whole : raw = lead ++ (front ++ (instructionText raw ++ (gap ++ comment)))
  strip : stripComment raw = lead ++ (front ++ (instructionText raw ++ gap))
  clean : cleanText raw = front ++ instructionText raw
  lead_blank : ∀ c ∈ lead, Text.isBlank c = true
  front_blank : ∀ c ∈ front.getLast?, Text.isBlank c = true
  gap_blank : ∀ c ∈ gap, Text.isBlank c = true
  comment_silent : stripComment comment = []
  reads : ∀ new, Standalone new →
    Statement.ofText (front ++ new) = (Statement.ofText (cleanText raw)).withCarried new

/-- Every line with an instruction has these parts. -/
theorem exists_lineParts {raw : Text} (h : instructionText raw ≠ []) :
    ∃ lead front gap comment, LineParts raw lead front gap comment := by
  obtain ⟨comment, hcomment, hnone⟩ := exists_comment raw
  obtain ⟨lead, gap, hstrip, hlead, hgap⟩ := Text.exists_trim (stripComment raw)
  obtain ⟨front, hclean, hfront, hreads⟩ := Statement.exists_front h (getLast?_cleanText raw)
  have hstrip : stripComment raw = lead ++ (front ++ (instructionText raw ++ gap)) := by
    rw [hstrip, ← cleanText_eq, hclean]
    simp [instructionText]
  refine ⟨lead, front, gap, comment, h, ?_, hstrip, hclean, hlead, hfront, hgap, hnone, hreads⟩
  conv_lhs => rw [hcomment, hstrip]
  simp

/-- The line with another text in place of its instruction. -/
def replaceInstruction (raw new : Text) : Text :=
  let said := (Text.trimRight (stripComment raw)).length
  raw.take (said - (instructionText raw).length) ++ new ++ raw.drop said

namespace LineParts

variable {raw lead front gap comment : Text} (h : LineParts raw lead front gap comment)

include h

theorem getLast?_instructionText :
    ∀ c ∈ (instructionText raw).getLast?, Text.isBlank c = false := by
  intro c hc
  apply getLast?_cleanText raw
  rw [h.clean, List.getLast?_append_of_ne_nil _ h.carries]
  exact hc

/-- The new instruction takes the place of the old one, and the other parts stay. -/
theorem replaceInstruction_eq (new : Text) :
    replaceInstruction raw new = lead ++ (front ++ (new ++ (gap ++ comment))) := by
  have hsaid : Text.trimRight (stripComment raw) = lead ++ front ++ instructionText raw := by
    rw [h.strip, ← List.append_assoc front, ← List.append_assoc lead, ← List.append_assoc lead,
      Text.trimRight_append_blank h.gap_blank, Text.trimRight_eq_self]
    intro c hc
    rw [List.getLast?_append_of_ne_nil _ h.carries] at hc
    exact h.getLast?_instructionText c hc
  have hwhole := h.whole
  unfold replaceInstruction
  dsimp only
  rw [hsaid]
  generalize instructionText raw = part at *
  have hfront : raw.take ((lead ++ front ++ part).length - part.length) = lead ++ front := by
    rw [List.length_append, Nat.add_sub_cancel, hwhole, ← List.append_assoc, List.take_left]
  have hback : raw.drop (lead ++ front ++ part).length = gap ++ comment := by
    rw [hwhole, ← List.append_assoc, ← List.append_assoc, List.drop_left]
  rw [hfront, hback]
  simp only [List.append_assoc]

theorem stripComment_replaceInstruction {new : Text} (hnew : Standalone new) :
    stripComment (replaceInstruction raw new) = lead ++ (front ++ (new ++ gap)) := by
  have hfront : stripComment front = front := by
    apply stripComment_of_part _ (stripComment_stripComment raw)
    exact ⟨lead, instructionText raw ++ gap, by rw [h.strip, List.append_assoc]⟩
  rw [h.replaceInstruction_eq, stripComment_blank_append h.lead_blank, stripComment_append hfront,
    stripComment_append hnew.clean, stripComment_blank_append h.gap_blank, h.comment_silent,
    List.append_nil]
  -- no marker forms at either seam
  · intro c hc
    obtain ⟨_, hslash, hdash⟩ := hnew.last c hc
    exact startsComment_cons_of_ne hslash hdash _
  · intro c hc
    obtain ⟨_, hslash, hdash⟩ := ne_of_isBlank (h.front_blank c hc)
    exact startsComment_cons_of_ne hslash hdash _

/-- The new instruction survives cleaning, together with what stands before it. -/
theorem cleanText_replaceInstruction {new : Text} (hnew : Standalone new) :
    cleanText (replaceInstruction raw new) = front ++ new := by
  rw [cleanText_eq, h.stripComment_replaceInstruction hnew, Text.trim_blank_append h.lead_blank,
    ← List.append_assoc, Text.trim_append_blank h.gap_blank, Text.trim_eq_self]
  · intro c hc
    cases hcons : front with
    | nil =>
        rw [hcons, List.nil_append] at hc
        exact (hnew.head c hc).1
    | cons d rest =>
        obtain rfl : d = c := by simpa [hcons] using hc
        apply head?_cleanText raw
        rw [h.clean, hcons]
        rfl
  · intro c hc
    rw [List.getLast?_append_of_ne_nil _ hnew.nonempty] at hc
    exact (hnew.last c hc).1

end LineParts

/-- The line reads as before, with the new instruction. -/
theorem ofText_replaceInstruction {raw new : Text} (h : instructionText raw ≠ [])
    (hnew : Standalone new) :
    Statement.ofText (cleanText (replaceInstruction raw new)) =
      (Statement.ofText (cleanText raw)).withCarried new := by
  obtain ⟨lead, front, gap, comment, hparts⟩ := exists_lineParts h
  rw [hparts.cleanText_replaceInstruction hnew, hparts.reads new hnew]

example : replaceInstruction " .top  MOV r1 r2 // MOV".toList "ADD r1 r2 r0".toList =
    " .top  ADD r1 r2 r0 // MOV".toList := by
  decide

/-! ## Instructions put together from tokens -/

/-- A token that can stand anywhere in an instruction. -/
def PlainToken (t : Text) : Prop :=
  t ≠ [] ∧ (∀ c ∈ t, Text.isBlank c = false) ∧ stripComment t = t ∧
    ∀ c ∈ t.getLast?, c ≠ '/' ∧ c ≠ '-'

instance : DecidablePred PlainToken := fun _ => inferInstanceAs (Decidable (_ ∧ _ ∧ _ ∧ _))

theorem Text.join_blank_cons (first second : Text) (rest : List Text) :
    join [' '] (first :: second :: rest) = first ++ ' ' :: join [' '] (second :: rest) := by
  rw [join_cons_cons, List.append_assoc, List.singleton_append]

theorem Text.head?_join (separator : Text) {first : Text} (hne : first ≠ []) (rest : List Text) :
    (join separator (first :: rest)).head? = first.head? := by
  cases rest with
  | nil => rw [join_singleton]
  | cons second rest =>
      rw [join_cons_cons, List.append_assoc, List.head?_append_of_ne_nil _ hne]

theorem Text.join_ne_nil (separator : Text) {first : Text} (hne : first ≠ []) (rest : List Text) :
    join separator (first :: rest) ≠ [] := by
  intro hnil
  have hhead := head?_join separator hne rest
  rw [hnil, eq_comm, List.head?_nil, List.head?_eq_none_iff] at hhead
  exact hne hhead

/-- Joined texts end as one of them does. -/
theorem Text.getLast?_join {separator : Text} {parts : List Text} (h : ∀ t ∈ parts, t ≠ []) :
    ∀ c ∈ (join separator parts).getLast?, ∃ t ∈ parts, c ∈ t.getLast? := by
  induction parts with
  | nil => simp
  | cons first rest ih =>
      intro c hc
      cases rest with
      | nil =>
          rw [join_singleton] at hc
          exact ⟨first, List.mem_cons_self, hc⟩
      | cons second rest =>
          have hrest := (List.forall_mem_cons.mp h).2
          have hsome := join_ne_nil separator (hrest second List.mem_cons_self) rest
          rw [join_cons_cons, List.getLast?_append_of_ne_nil _ hsome] at hc
          obtain ⟨t, ht, hlast⟩ := ih hrest c hc
          exact ⟨t, List.mem_cons_of_mem _ ht, hlast⟩

/-- Plain tokens with blanks between them are these tokens. -/
theorem tokens_join {parts : List Text} (h : ∀ t ∈ parts, PlainToken t) :
    Text.tokens (Text.join [' '] parts) = parts := by
  induction parts with
  | nil => rfl
  | cons first rest ih =>
      obtain ⟨⟨hne, hblank, _, _⟩, hrest⟩ := List.forall_mem_cons.mp h
      cases rest with
      | nil => rw [Text.join_singleton, Text.tokens_of_no_blank hblank hne]
      | cons second rest =>
          rw [Text.join_blank_cons, Text.tokens_append_blank (by decide), ih hrest,
            Text.tokens_of_no_blank hblank hne, List.singleton_append]

theorem stripComment_join {parts : List Text} (h : ∀ t ∈ parts, PlainToken t) :
    stripComment (Text.join [' '] parts) = Text.join [' '] parts := by
  induction parts with
  | nil => rfl
  | cons first rest ih =>
      obtain ⟨⟨_, _, hclean, _⟩, hrest⟩ := List.forall_mem_cons.mp h
      cases rest with
      | nil => rw [Text.join_singleton, hclean]
      | cons second rest =>
          rw [Text.join_blank_cons, stripComment_append_blank hclean (by decide), ih hrest]

/-- Plain tokens joined by blanks stand by themselves, unless the first looks like a label. -/
theorem standalone_join {first : Text} {rest : List Text} (h : ∀ t ∈ first :: rest, PlainToken t)
    (hmarker : first.head? ≠ some '.') : Standalone (Text.join [' '] (first :: rest)) := by
  obtain ⟨hne, hblank, _, _⟩ := h first List.mem_cons_self
  refine ⟨Text.join_ne_nil _ hne rest, ?_, ?_, stripComment_join h⟩
  · intro c hc
    rw [Text.head?_join _ hne] at hc
    refine ⟨hblank c (List.mem_of_mem_head? hc), ?_⟩
    rintro rfl
    exact hmarker hc
  · intro c hc
    obtain ⟨t, ht, hlast⟩ := Text.getLast?_join (fun t ht => (h t ht).1) c hc
    obtain ⟨_, hblank, _, hend⟩ := h t ht
    exact ⟨hblank c (List.mem_of_mem_getLast? hlast), hend c hlast⟩

end Rsc
