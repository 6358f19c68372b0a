import Rsc.Command.Export
import Rsc.Proofs.Columns
import Rsc.Proofs.Files
import Rsc.Proofs.FileSystems
import Rsc.Proofs.Placement

/-!
# Layout files tell their words

The items of a layout file have no fixed length: coordinates have signs and as many digits as they
need, and the names of materials hold commas and brackets themselves. Still an item is told from
what follows it, so that with any indentation a file tells its layout. The layout tells of each
word the low sixteen bits and no more.
-/

namespace Rsc.Rom

/-! ## Items and what follows them -/

/-- What an item may be followed by: a comma, a line end or a closing bracket. -/
def isStop (c : Char) : Bool := c ∈ [',', '\n', ']', '\x7d']

def Stops (t : Text) : Prop := ∃ c ∈ t.head?, isStop c = true

/-- Items are apart if they are told from what follows them. -/
def Apart (item item' : Text) : Prop :=
  ∀ ⦃rest rest' : Text⦄, Stops rest → Stops rest' → item ++ rest = item' ++ rest' →
    item = item' ∧ rest = rest'

/-- Items without a stop in them end where the first stop is. -/
theorem apart_of_no_stop {item item' : Text} (h : ∀ c ∈ item, isStop c = false)
    (h' : ∀ c ∈ item', isStop c = false) : Apart item item' := by
  intro rest rest' hrest hrest' heq
  exact Text.cut_unique h hrest h' hrest' heq

/-- A common label in front keeps items apart. -/
theorem Apart.append_left {item item' : Text} (h : Apart item item') (label : Text) :
    Apart (label ++ item) (label ++ item') := by
  intro rest rest' hrest hrest' heq
  rw [List.append_assoc, List.append_assoc, List.append_cancel_left_eq] at heq
  obtain ⟨rfl, hsame⟩ := h hrest hrest' heq
  exact ⟨rfl, hsame⟩

/-- A way of writing by which things are told from any text that begins with them. -/
def Delimited {α : Type} (write : α → Text) : Prop :=
  ∀ ⦃x y : α⦄ ⦃rest rest' : Text⦄, write x ++ rest = write y ++ rest' → x = y ∧ rest = rest'

/-- Delimited things are told by their texts. -/
theorem Delimited.injective {α : Type} {write : α → Text} (h : Delimited write) :
    Function.Injective write := by
  intro x y heq
  exact (h (congrArg (· ++ []) heq)).1

theorem Delimited.apart {α : Type} {write : α → Text} (h : Delimited write) (x y : α) :
    Apart (write x) (write y) := by
  intro rest rest' _ _ heq
  obtain ⟨rfl, hsame⟩ := h heq
  exact ⟨rfl, hsame⟩

/-- What the last item is followed by: a line end or a closing bracket. -/
def Closes (t : Text) : Prop := ∃ c ∈ t.head?, isStop c = true ∧ c ≠ ','

theorem Closes.stops {t : Text} (h : Closes t) : Stops t := by
  obtain ⟨c, hc, hstop, _⟩ := h
  exact ⟨c, hc, hstop⟩

section

variable {separator : Text} (hcomma : separator.head? = some ',')

include hcomma

theorem head?_separated (t : Text) : (separator ++ t).head? = some ',' := by
  rw [List.head?_append, hcomma]
  rfl

theorem Closes.stops_separated {rest : Text} (h : Closes rest) (items : List Text) :
    Stops (items.flatMap (separator ++ ·) ++ rest) := by
  cases items with
  | nil => exact h.stops
  | cons item items =>
      rw [List.flatMap_cons, List.append_assoc, List.append_assoc]
      exact ⟨',', head?_separated hcomma _, rfl⟩

theorem Closes.ne_separated {rest : Text} (h : Closes rest) (t : Text) : rest ≠ separator ++ t := by
  rintro rfl
  obtain ⟨c, hc, _, hother⟩ := h
  rw [head?_separated hcomma] at hc
  exact hother (Option.some.inj hc).symm

/-- Items that are apart are told from a text that has a comma before each. -/
theorem eq_of_separated {items items' : List Text}
    (hapart : ∀ pair ∈ items.zip items', Apart pair.1 pair.2) {rest rest' : Text}
    (hrest : Closes rest) (hrest' : Closes rest')
    (h : items.flatMap (separator ++ ·) ++ rest = items'.flatMap (separator ++ ·) ++ rest') :
    items = items' ∧ rest = rest' := by
  -- a list ends where no comma follows, so that both lists end together
  induction items generalizing items' with
  | nil =>
      cases items' with
      | nil => exact ⟨rfl, h⟩
      | cons item' items' =>
          rw [List.flatMap_cons, List.append_assoc, List.append_assoc] at h
          exact absurd h (hrest.ne_separated hcomma _)
  | cons item items ih =>
      rw [List.flatMap_cons, List.append_assoc, List.append_assoc] at h
      cases items' with
      | nil => exact absurd h.symm (hrest'.ne_separated hcomma _)
      | cons item' items' =>
          rw [List.flatMap_cons, List.append_assoc, List.append_assoc] at h
          have hitem : Apart item item' := hapart (item, item') List.mem_cons_self
          obtain ⟨rfl, htail⟩ := hitem (hrest.stops_separated hcomma items)
            (hrest'.stops_separated hcomma items') (List.append_cancel_left h)
          obtain ⟨rfl, hsame⟩ :=
            ih (fun pair hpair => hapart pair (List.mem_cons_of_mem _ hpair)) htail
          exact ⟨rfl, hsame⟩

end

theorem join_cons (separator item : Text) (items : List Text) :
    Text.join separator (item :: items) = item ++ items.flatMap (separator ++ ·) := by
  induction items generalizing item with
  | nil => simp
  | cons next items ih => simp [Text.join_cons_cons, ih]

/-! ## Brackets -/

namespace Style

variable (s : Style)

theorem head?_separator : s.separator.head? = some ',' := by
  unfold separator
  split <;> rfl

theorem head?_newline_append (depth : Nat) (t : Text) :
    (s.newline depth ++ t).head? = some '\n' ∨ (s.newline depth ++ t).head? = t.head? := by
  unfold newline
  split
  next => exact Or.inr rfl
  next => exact Or.inl rfl

theorem closes_newline (depth : Nat) {closing : Char} (hstop : isStop closing = true)
    (hother : closing ≠ ',') (rest : Text) : Closes (s.newline depth ++ closing :: rest) := by
  rcases s.head?_newline_append depth (closing :: rest) with hhead | hhead
  · exact ⟨'\n', hhead, rfl, by decide⟩
  · exact ⟨closing, hhead, hstop, hother⟩

theorem enclose_cons (opening closing : Char) (depth : Nat) (item : Text) (items : List Text)
    (rest : Text) :
    s.enclose opening closing depth (item :: items) ++ rest =
      opening :: (s.newline (depth + 1) ++
        (item ++ (items.flatMap (s.separator ++ s.newline (depth + 1) ++ ·) ++
          (s.newline depth ++ closing :: rest)))) := by
  simp [enclose, join_cons]

variable {s}

/-- Brackets around an item are told from brackets around nothing, unless the item begins with the
closing one. -/
theorem enclose_cons_ne {opening closing : Char} (hline : closing ≠ '\n') {depth : Nat}
    {item : Text} (hitem : ∃ c ∈ item.head?, c ≠ closing) (items : List Text)
    (rest rest' : Text) :
    s.enclose opening closing depth (item :: items) ++ rest ≠ opening :: closing :: rest' := by
  intro h
  obtain ⟨c, hc, hne⟩ := hitem
  obtain ⟨item, rfl⟩ := List.head?_eq_some_iff.mp hc
  rw [s.enclose_cons] at h
  have hhead := congrArg List.head? (List.cons.inj h).2
  rcases s.head?_newline_append (depth + 1) _ with hnewline | hitem
  · exact hline (Option.some.inj (hnewline.symm.trans hhead)).symm
  · exact hne (Option.some.inj (hitem.symm.trans hhead))

/-- Items between brackets are told from the text, and from what follows it. -/
theorem eq_of_enclose {opening closing : Char} (hstop : isStop closing = true)
    (hother : closing ≠ ',') (hline : closing ≠ '\n') {depth : Nat} {items items' : List Text}
    (hitems : ∀ item ∈ items, ∃ c ∈ item.head?, c ≠ closing)
    (hitems' : ∀ item ∈ items', ∃ c ∈ item.head?, c ≠ closing)
    (hapart : ∀ pair ∈ items.zip items', Apart pair.1 pair.2) {rest rest' : Text}
    (h : s.enclose opening closing depth items ++ rest =
      s.enclose opening closing depth items' ++ rest') :
    items = items' ∧ rest = rest' := by
  cases items with
  | nil =>
      cases items' with
      | nil => exact ⟨rfl, (List.cons.inj (List.cons.inj h).2).2⟩
      | cons item' items' =>
          exact absurd h.symm (enclose_cons_ne hline (hitems' item' List.mem_cons_self) _ _ _)
  | cons item items =>
      cases items' with
      | nil => exact absurd h (enclose_cons_ne hline (hitems item List.mem_cons_self) _ _ _)
      | cons item' items' =>
          rw [s.enclose_cons, s.enclose_cons] at h
          have hcomma : (s.separator ++ s.newline (depth + 1)).head? = some ',' :=
            head?_separated s.head?_separator _
          have hclose := s.closes_newline depth hstop hother
          have hitem : Apart item item' := hapart (item, item') List.mem_cons_self
          obtain ⟨rfl, htail⟩ := hitem ((hclose rest).stops_separated hcomma items)
            ((hclose rest').stops_separated hcomma items')
            (List.append_cancel_left (List.cons.inj h).2)
          obtain ⟨rfl, hend⟩ := eq_of_separated hcomma
            (fun pair hpair => hapart pair (List.mem_cons_of_mem _ hpair)) (hclose rest)
            (hclose rest') htail
          exact ⟨rfl, (List.cons.inj (List.append_cancel_left hend)).2⟩

/-- The same for things that are written as items. -/
theorem eq_of_enclose_map {α : Type} {write : α → Text} {opening closing : Char}
    (hstop : isStop closing = true) (hother : closing ≠ ',') (hline : closing ≠ '\n')
    (hheads : ∀ x, ∃ c ∈ (write x).head?, c ≠ closing) {depth : Nat} {xs ys : List α}
    (hapart : ∀ pair ∈ xs.zip ys, Apart (write pair.1) (write pair.2)) {rest rest' : Text}
    (h : s.enclose opening closing depth (xs.map write) ++ rest =
      s.enclose opening closing depth (ys.map write) ++ rest') :
    xs.map write = ys.map write ∧ rest = rest' := by
  have hitems : ∀ (xs : List α), ∀ item ∈ xs.map write, ∃ c ∈ item.head?, c ≠ closing := by
    intro xs item hitem
    obtain ⟨x, _, rfl⟩ := List.mem_map.mp hitem
    exact hheads x
  refine eq_of_enclose hstop hother hline (hitems xs) (hitems ys) ?_ h
  rw [List.zip_map]
  intro pair hpair
  obtain ⟨⟨x, y⟩, hmem, rfl⟩ := List.mem_map.mp hpair
  exact hapart (x, y) hmem

/-- Arrays are delimited, even if their items are not. -/
theorem delimited_array {α : Type} {write : α → Text} (hinjective : Function.Injective write)
    (hheads : ∀ x, ∃ c ∈ (write x).head?, c ≠ ']') (hapart : ∀ x y, Apart (write x) (write y))
    (depth : Nat) : Delimited fun xs : List α => s.array depth (xs.map write) := by
  intro xs ys rest rest' h
  obtain ⟨hsame, hrest⟩ :=
    eq_of_enclose_map rfl (by decide) (by decide) hheads (fun pair _ => hapart pair.1 pair.2) h
  exact ⟨List.map_injective_iff.mpr hinjective hsame, hrest⟩

/-- A member of an object as it is written. -/
def memberText (member : Text × Text) : Text :=
  "\"".toList ++ member.1 ++ "\": ".toList ++ member.2

theorem object_eq (depth : Nat) (members : List (Text × Text)) :
    s.object depth members = s.enclose '\x7b' '\x7d' depth (members.map memberText) :=
  rfl

/-- The members of an object, with the same keys in the same order and values that are apart. -/
theorem eq_of_object {depth : Nat} {members members' : List (Text × Text)} {rest rest' : Text}
    (h : s.object depth members ++ rest = s.object depth members' ++ rest')
    (hmembers : List.Forall₂ (fun member member' => member.1 = member'.1 ∧
      Apart member.2 member'.2) members members') :
    members = members' ∧ rest = rest' := by
  have hapart : ∀ pair ∈ members.zip members', Apart (memberText pair.1) (memberText pair.2) := by
    rintro ⟨⟨key, value⟩, key', value'⟩ hpair
    obtain ⟨rfl, hapart⟩ := (List.forall₂_iff_zip.mp hmembers).2 hpair
    exact hapart.append_left _
  rw [object_eq, object_eq] at h
  obtain ⟨hsame, hrest⟩ :=
    eq_of_enclose_map rfl (by decide) (by decide) (fun _ => ⟨'"', rfl, by decide⟩) hapart h
  refine ⟨?_, hrest⟩
  clear h hapart
  induction hmembers with
  | nil => rfl
  | @cons member member' members members' hmember _ ih =>
      obtain ⟨key, value⟩ := member
      obtain ⟨key', value'⟩ := member'
      obtain ⟨rfl, _⟩ := hmember
      obtain ⟨hhead, htail⟩ := List.cons.inj hsame
      have hvalue : value = value' := List.append_cancel_left hhead
      rw [hvalue, ih htail]

end Style

/-! ## Layouts -/

theorem decimal_injective : Function.Injective Numeral.decimal := by
  intro m n h
  have hread := congrArg Literal.ofText? h
  rw [Literal.ofText?_decimal, Literal.ofText?_decimal] at hread
  obtain ⟨hsign, _, hdigits⟩ := Literal.mk.inj (Option.some.inj hread)
  have hvalue := congrArg (Numeral.value 10) hdigits
  rw [Numeral.value_digits (by decide) (by decide), Numeral.value_digits (by decide) (by decide)]
    at hvalue
  rw [decide_eq_decide] at hsign
  omega

theorem no_stop_decimal (n : Int) : ∀ c ∈ Numeral.decimal n, isStop c = false := by
  have hdigits : ∀ c ∈ Numeral.digits 10 n.natAbs, isStop c = false := by
    intro c hc
    have hdigit := Numeral.isDigit_of_mem_decimal hc
    have hstops : ∀ c ∈ [',', '\n', ']', '\x7d'], Numeral.isDigit 10 c = false := by decide
    apply decide_eq_false
    intro hstop
    rw [hstops c hstop] at hdigit
    exact absurd hdigit (by decide)
  unfold Numeral.decimal
  split
  next => exact List.forall_mem_cons.mpr ⟨rfl, hdigits⟩
  next => exact hdigits

theorem apart_decimal (m n : Int) : Apart (Numeral.decimal m) (Numeral.decimal n) :=
  apart_of_no_stop (no_stop_decimal m) (no_stop_decimal n)

theorem head?_decimal (n : Int) : ∃ c ∈ (Numeral.decimal n).head?, c ≠ ']' := by
  have hne := Numeral.decimal_ne_nil n
  refine ⟨_, List.head?_eq_some_head hne, ?_⟩
  intro hbracket
  have hstop := no_stop_decimal n _ (List.head_mem hne)
  rw [hbracket] at hstop
  exact absurd hstop (by decide)

theorem Position.delimited_render (s : Style) (depth : Nat) :
    Delimited (Position.render s depth) := by
  intro p p' rest rest' h
  obtain ⟨x, y, z⟩ := p
  obtain ⟨x', y', z'⟩ := p'
  obtain ⟨hsame, hrest⟩ :=
    Style.delimited_array decimal_injective head?_decimal apart_decimal depth
      (show s.array depth ([x, y, z].map Numeral.decimal) ++ rest =
        s.array depth ([x', y', z'].map Numeral.decimal) ++ rest' from h)
  simp only [List.cons.injEq, and_true] at hsame
  exact ⟨Position.mk.injEq .. ▸ hsame, hrest⟩

theorem Material.delimited_name :
    Delimited fun m : Material => "\"".toList ++ m.name ++ "\"".toList := by
  intro m m' rest rest' h
  -- the names part after their common beginning, at one letter
  have hletter := congrArg (fun t : Text => t[11]?) h
  cases m with
  | wool =>
      cases m' with
      | wool => exact ⟨rfl, List.append_cancel_left h⟩
      | repeater => exact absurd (show some 'm' = some 'r' from hletter) (by decide)
  | repeater =>
      cases m' with
      | wool => exact absurd (show some 'r' = some 'm' from hletter) (by decide)
      | repeater => exact ⟨rfl, List.append_cancel_left h⟩

theorem Block.delimited_render (s : Style) (depth : Nat) : Delimited (Block.render s depth) := by
  intro b b' rest rest' h
  have hposition := Position.delimited_render s (depth + 1)
  unfold Block.render at h
  obtain ⟨hsame, hrest⟩ := Style.eq_of_object h
    (.cons ⟨rfl, hposition.apart _ _⟩ (.cons ⟨rfl, Material.delimited_name.apart _ _⟩ .nil))
  simp only [List.cons.injEq, Prod.mk.injEq, true_and, and_true] at hsame
  obtain ⟨position, material⟩ := b
  obtain ⟨position', material'⟩ := b'
  obtain rfl := hposition.injective hsame.1
  obtain rfl := Material.delimited_name.injective hsame.2
  exact ⟨rfl, hrest⟩

/-- Whatever the indentation, the text of a layout tells the layout. -/
theorem Layout.delimited_render (s : Style) : Delimited (Layout.render s) := by
  intro l l' rest rest' h
  have hposition := Position.delimited_render s 1
  have hblock := Block.delimited_render s 2
  have hblocks := Style.delimited_array (s := s) hblock.injective
    (fun _ => ⟨'\x7b', rfl, by decide⟩) hblock.apart 1
  unfold Layout.render at h
  obtain ⟨hsame, hrest⟩ := Style.eq_of_object h
    (.cons ⟨rfl, hposition.apart _ _⟩ (.cons ⟨rfl, hposition.apart _ _⟩
      (.cons ⟨rfl, apart_decimal l.count l'.count⟩ (.cons ⟨rfl, hblocks.apart _ _⟩ .nil))))
  simp only [List.cons.injEq, Prod.mk.injEq, true_and, and_true] at hsame
  obtain ⟨harea, hoffset, hcount, hlist⟩ := hsame
  obtain ⟨area, offset, count, blocks⟩ := l
  obtain ⟨area', offset', count', blocks'⟩ := l'
  obtain rfl := hposition.injective harea
  obtain rfl := hposition.injective hoffset
  obtain rfl := Int.ofNat_inj.mp (decimal_injective hcount)
  obtain rfl := hblocks.injective hlist
  exact ⟨rfl, hrest⟩

/-! ## Words -/

theorem testBit_low {size bit : Nat} (h : bit < size) (word : Int) :
    (Bits.low size word).testBit bit = word.testBit bit := by
  obtain ⟨higher, rfl⟩ := Nat.exists_eq_add_of_lt h
  have hsplit : Bits.twoPow (bit + higher + 1) =
      Bits.twoPow bit * (2 * Bits.twoPow higher) := by
    rw [Bits.twoPow_add, Bits.twoPow_add, mul_assoc, mul_comm (Bits.twoPow higher)]
    rfl
  have hdiv : Bits.low (bit + higher + 1) word / Bits.twoPow bit =
      word / Bits.twoPow bit -
        2 * (Bits.twoPow higher * (word / Bits.twoPow (bit + higher + 1))) := by
    rw [Bits.low_eq_emod, Int.emod_def, hsplit, mul_assoc, mul_assoc,
      Int.sub_mul_ediv_left _ _ (Bits.twoPow_pos bit).ne']
  rw [Bool.eq_iff_iff, Bits.testBit_iff, Bits.testBit_iff, hdiv]
  omega

/-- The blocks show the low sixteen bits and nothing else. -/
theorem wordBlocks_low (bottom : Position) (word : Int) :
    wordBlocks bottom (Bits.low wordSize word) = wordBlocks bottom word := by
  apply List.flatMap_congr
  intro bit hbit
  simp only [bitBlocks, bitMaterial_eq, testBit_low (List.mem_range.mp hbit)]

theorem programBlocks_low (words : List Int) :
    programBlocks (words.map (Bits.low wordSize)) = programBlocks words := by
  simp only [programBlocks, List.zipIdx_map, List.flatMap_map, Prod.map, wordBlocks_low, id_eq]

/-- Blocks are the same for words that agree in their low sixteen bits, and only for those. -/
theorem programBlocks_eq_iff {words words' : List Int} (h : words.length ≤ 1024)
    (h' : words'.length ≤ 1024) :
    programBlocks words = programBlocks words' ↔
      words.map (Bits.low wordSize) = words'.map (Bits.low wordSize) := by
  constructor
  · intro hblocks
    rw [← readWords_programBlocks h, ← readWords_programBlocks h', hblocks]
  · intro hwords
    rw [← programBlocks_low words, hwords, programBlocks_low words']

end Rsc.Rom

namespace Rsc.Command

open Rom

/-- The text of the layout of words that the grid holds. -/
def layoutText (style : Style) (words : List Int) : Text :=
  Layout.render style { count := words.length, blocks := programBlocks words }

/-- The text of a layout tells the words up to their low sixteen bits. -/
theorem layoutText_eq_iff (style : Style) {words words' : List Int} (h : words.length ≤ 1024)
    (h' : words'.length ≤ 1024) :
    layoutText style words = layoutText style words' ↔
      List.Forall₂ (fun word word' => word % 65536 = word' % 65536) words words' := by
  have hagree : List.Forall₂ (fun word word' => word % 65536 = word' % 65536) words words' ↔
      words.map (Bits.low wordSize) = words'.map (Bits.low wordSize) := by
    rw [← List.forall₂_eq_eq_eq, List.forall₂_map_left_iff, List.forall₂_map_right_iff]
    simp only [Bits.low_eq_emod]
    rfl
  rw [hagree]
  constructor
  · intro heq
    obtain ⟨_, _, _, hblocks⟩ := Layout.mk.inj ((Layout.delimited_render style).injective heq)
    exact (programBlocks_eq_iff h h').mp hblocks
  · intro hwords
    have hlength := congrArg List.length hwords
    rw [List.length_map, List.length_map] at hlength
    rw [layoutText, layoutText, hlength, (programBlocks_eq_iff h h').mpr hwords]

/-- Words that the grid holds are written if the file can be opened. -/
theorem exportLayout_of_le {words : List Int} (h : words.length ≤ 1024) (style : Style)
    (path : Text) (fs : FileSystem) :
    exportLayout style words path fs =
      match fs.locate (Path.normalize path) with
      | .error fault => .error (.file fault)
      | .ok place =>
        .ok (Path.normalize path, fs.put place (Utf8.encode (layoutText style words))) := by
  simp only [exportLayout, layout_of_le h, FileSystem.write_eq_map_locate]
  cases fs.locate (Path.normalize path) <;> rfl

/-- An export leaves a text: it ends well, and the text is then read from the file. -/
def Leaves (style : Style) (words : List Int) (path : Text) (fs : FileSystem) (t : Text) : Prop :=
  ∃ after, exportLayout style words path fs = .ok (Path.normalize path, after) ∧
    after.read (Path.normalize path) = .ok (Utf8.encode t)

/-- Where the file opens, the text of the layout is left in it. -/
theorem leaves_layoutText {words : List Int} (h : words.length ≤ 1024) (style : Style)
    {path : Text} {fs : FileSystem} {place : List Text}
    (hplace : fs.locate (Path.normalize path) = .ok place) :
    Leaves style words path fs (layoutText style words) := by
  refine ⟨_, ?_, FileSystem.read_put_locate hplace _⟩
  rw [exportLayout_of_le h, hplace]

/-- An export leaves one text only. -/
theorem Leaves.unique {style : Style} {words : List Int} {path : Text} {fs : FileSystem}
    {t t' : Text} (ht : Leaves style words path fs t) (ht' : Leaves style words path fs t') :
    t = t' := by
  obtain ⟨after, hexport, hread⟩ := ht
  obtain ⟨after', hexport', hread'⟩ := ht'
  obtain rfl := (Prod.mk.inj (Except.ok.inj (hexport.symm.trans hexport'))).2
  have hdecode := congrArg Utf8.decode (Except.ok.inj (hread.symm.trans hread'))
  rw [Utf8.decode_encode, Utf8.decode_encode] at hdecode
  exact Except.ok.inj hdecode

theorem Leaves.eq_layoutText {style : Style} {words : List Int} {path : Text} {fs : FileSystem}
    {t : Text} (ht : Leaves style words path fs t) (h : words.length ≤ 1024) :
    t = layoutText style words := by
  cases hplace : fs.locate (Path.normalize path) with
  | error fault =>
      obtain ⟨after, hexport, _⟩ := ht
      rw [exportLayout_of_le h, hplace] at hexport
      cases hexport
  | ok place => exact ht.unique (leaves_layoutText h style hplace)

/-- The file of an export tells the words: exporting at most 1024 words leaves a text unless the
file cannot be opened, and two such exports with the same indentation leave the same text exactly
if they have as many words, which are equal modulo 65536 one by one. -/
theorem exported_text_tells_words (style : Style) {words words' : List Int}
    (h : words.length ≤ 1024) (h' : words'.length ≤ 1024) :
    (∀ path fs, (∃ t, Leaves style words path fs t) ∨
      ∃ fault, fs.locate (Path.normalize path) = .error fault ∧
        exportLayout style words path fs = .error (.file fault)) ∧
    ∀ path path' fs fs' t t', Leaves style words path fs t → Leaves style words' path' fs' t' →
      (t = t' ↔ List.Forall₂ (fun word word' => word % 65536 = word' % 65536) words words') := by
  constructor
  · intro path fs
    cases hplace : fs.locate (Path.normalize path) with
    | error fault =>
        refine Or.inr ⟨fault, rfl, ?_⟩
        rw [exportLayout_of_le h, hplace]
    | ok place => exact Or.inl ⟨_, leaves_layoutText h style hplace⟩
  · intro path path' fs fs' t t' ht ht'
    rw [ht.eq_layoutText h, ht'.eq_layoutText h']
    exact layoutText_eq_iff style h h'

/-- A negative word leaves the same text as its low sixteen bits. -/
theorem exported_text_tells_words_negative :
    ([5, -1] : List Int).length ≤ 1024 ∧ ([65541, 65535] : List Int).length ≤ 1024 ∧
      ∃ t, Leaves ⟨some (-1)⟩ [5, -1] "rom.json".toList {} t ∧
        Leaves ⟨some (-1)⟩ [65541, 65535] "rom.json".toList {} t := by
  have hlength : ([5, -1] : List Int).length ≤ 1024 := by decide
  have hlength' : ([65541, 65535] : List Int).length ≤ 1024 := by decide
  have hopens : FileSystem.locate {} (Path.normalize "rom.json".toList) =
      .ok ["rom.json".toList] := by decide
  obtain ⟨hwrites, htells⟩ := exported_text_tells_words ⟨some (-1)⟩ hlength hlength'
  rcases hwrites "rom.json".toList {} with ⟨t, ht⟩ | ⟨fault, hfault, _⟩
  · have ht' := leaves_layoutText hlength' ⟨some (-1)⟩ hopens
    obtain rfl := (htells _ _ _ _ _ _ ht ht').mpr (.cons rfl (.cons rfl .nil))
    exact ⟨hlength, hlength', _, ht, ht'⟩
  · rw [hopens] at hfault
    cases hfault

end Rsc.Command
