import Rsc.Proofs.Images
import Rsc.Proofs.Lines
import Rsc.Proofs.Rendering

/-!
# Listings read back

The rows of a listing hold numbers in columns, which are only as wide as their numbers need, and
then the source of an instruction, which may hold any character. Still each row is read in one way:
the columns have no blanks in them, the source begins with none, and no row is cut by a line end.
Two listings of programs are therefore the same text only if they have the same entries.
-/

namespace Rsc

/-! ## Rows and columns -/

/-- A column in front of a text: blanks, a word without blanks, and a rest that begins with a
blank. -/
def Text.Column (word rest t : Text) : Prop :=
  ∃ gap, t = gap ++ (word ++ rest) ∧ (∀ c ∈ gap, isBlank c = true) ∧
    word ≠ [] ∧ (∀ c ∈ word, isBlank c = false) ∧ ∃ c ∈ rest.head?, isBlank c = true

/-- What the columns of a row say. -/
structure Row where
  address : Int
  binary : Int
  hex : Int
  number : Int
  text : Text
  deriving DecidableEq, Repr

/-- A row is read from a text in five columns: an address in decimal, sixteen binary digits, four
hexadecimal digits, a line number in decimal, and behind more blanks all the rest. -/
inductive Row.ReadFrom (row : Row) : Text → Prop where
  | intro {t address binary hex number afterAddress afterBinary afterHex gap : Text}
      (haddress : Text.Column address afterAddress t)
      (hshowsAddress : Numeral.Shows 10 row.address address)
      (hbinary : Text.Column binary afterBinary afterAddress) (hbits : binary.length = 16)
      (hshowsBinary : Numeral.Shows 2 row.binary binary)
      (hhex : Text.Column hex afterHex afterBinary) (hdigits : hex.length = 4)
      (hshowsHex : Numeral.Shows 16 row.hex hex)
      (hnumber : Text.Column number (gap ++ row.text) afterHex)
      (hshowsNumber : Numeral.Shows 10 row.number number)
      (hgap : ∀ c ∈ gap, Text.isBlank c = true)
      (htext : ∀ c ∈ row.text.head?, Text.isBlank c = false) :
      row.ReadFrom t

/-- The row that an entry is listed in. -/
def Entry.row (e : Entry) : Row := ⟨e.address, e.word, e.word, e.source.number, e.source.text⟩

/-- The row tells the entry. -/
theorem Entry.row_injective : Function.Injective Entry.row := by
  intro e e' h
  obtain ⟨address, word, number, text⟩ := e
  obtain ⟨address', word', number', text'⟩ := e'
  obtain ⟨rfl, rfl, _, rfl, rfl⟩ := Row.mk.inj h
  rfl

/-! ## Reading in one way -/

theorem Text.Column.trimLeft_eq {word rest t : Text} (h : Text.Column word rest t) :
    Text.trimLeft t = word ++ rest := by
  obtain ⟨gap, rfl, hgap, hne, hword, _⟩ := h
  rw [Text.trimLeft_blank_append hgap]
  apply Text.trimLeft_eq_self
  rw [List.head?_append_of_ne_nil _ hne]
  exact fun c hc => hword c (List.mem_of_mem_head? hc)

/-- A column is told by its text: it ends at the first blank after it begins. -/
theorem Text.Column.unique {word rest word' rest' t : Text} (h : Text.Column word rest t)
    (h' : Text.Column word' rest' t) : word = word' ∧ rest = rest' := by
  have htrim := h.trimLeft_eq.symm.trans h'.trimLeft_eq
  obtain ⟨_, _, _, _, hword, hrest⟩ := h
  obtain ⟨_, _, _, _, hword', hrest'⟩ := h'
  exact Text.cut_unique hword hrest hword' hrest' htrim

/-- What stands behind blanks is told by the text if it begins with none. -/
theorem Text.eq_of_gaps {gap gap' t t' : Text} (hgap : ∀ c ∈ gap, Text.isBlank c = true)
    (hgap' : ∀ c ∈ gap', Text.isBlank c = true) (ht : ∀ c ∈ t.head?, Text.isBlank c = false)
    (ht' : ∀ c ∈ t'.head?, Text.isBlank c = false) (h : gap ++ t = gap' ++ t') : t = t' := by
  have htrim := congrArg Text.trimLeft h
  rwa [Text.trimLeft_blank_append hgap, Text.trimLeft_blank_append hgap',
    Text.trimLeft_eq_self ht, Text.trimLeft_eq_self ht'] at htrim

/-- A line reads as one row only. -/
theorem Row.ReadFrom.unique {row row' : Row} {t : Text} (h : row.ReadFrom t)
    (h' : row'.ReadFrom t) : row = row' := by
  cases h with
  | intro haddress hshowsAddress hbinary _ hshowsBinary hhex _ hshowsHex hnumber hshowsNumber hgap
      htext =>
  cases h' with
  | intro haddress' hshowsAddress' hbinary' _ hshowsBinary' hhex' _ hshowsHex' hnumber'
      hshowsNumber' hgap' htext' =>
  obtain ⟨rfl, rfl⟩ := haddress.unique haddress'
  obtain ⟨rfl, rfl⟩ := hbinary.unique hbinary'
  obtain ⟨rfl, rfl⟩ := hhex.unique hhex'
  obtain ⟨rfl, hrest⟩ := hnumber.unique hnumber'
  rw [Row.mk.injEq]
  exact ⟨hshowsAddress.unique hshowsAddress', hshowsBinary.unique hshowsBinary',
    hshowsHex.unique hshowsHex', hshowsNumber.unique hshowsNumber',
    Text.eq_of_gaps hgap hgap' htext htext' hrest⟩

/-! ## Rows of entries -/

/-- What a row needs of its entry: numbers that are not negative, a word of sixteen bits, and a
source that begins with no blank and holds no line feed. -/
structure Entry.Listable (e : Entry) : Prop where
  address : 0 ≤ e.address
  word : 0 ≤ e.word ∧ e.word ≤ 65535
  number : 0 ≤ e.source.number
  head : ∀ c ∈ e.source.text.head?, Text.isBlank c = false
  feed : '\n' ∉ e.source.text

theorem Text.isBlank_of_mem_spaces {count : Nat} {c : Char} (h : c ∈ List.replicate count ' ') :
    Text.isBlank c = true := by
  rw [List.eq_of_mem_replicate h]
  decide

/-- A number behind blanks and before a space is a column. -/
theorem Numeral.Shows.column {base : Nat} {n : Int} {word : Text} (h : Numeral.Shows base n word)
    (hne : word ≠ []) {gap : Text} (hgap : ∀ c ∈ gap, Text.isBlank c = true) (rest : Text) :
    Text.Column word (' ' :: rest) (gap ++ (word ++ ' ' :: rest)) :=
  ⟨gap, rfl, hgap, hne, h.not_blank, ' ', rfl, by decide⟩

theorem Entry.render_eq (e : Entry) :
    e.render = List.replicate (4 - (Numeral.decimal e.address).length) ' ' ++
      (Numeral.decimal e.address ++ ' ' :: ' ' :: (Bits.binaryDigits e.word wordSize ++
        ' ' :: ' ' :: (Numeral.hex 4 e.word ++
          ' ' :: ' ' :: (List.replicate (4 - (Numeral.decimal e.source.number).length) ' ' ++
            (Numeral.decimal e.source.number ++ ' ' :: ' ' :: e.source.text))))) := by
  simp [Entry.render, Numeral.column, Text.padLeft]

namespace Entry.Listable

variable {e : Entry} (h : e.Listable)

include h

theorem shows_word :
    ((Bits.binaryDigits e.word wordSize).length = 16 ∧
        Numeral.Shows 2 e.word (Bits.binaryDigits e.word wordSize)) ∧
      (Numeral.hex 4 e.word).length = 4 ∧ Numeral.Shows 16 e.word (Numeral.hex 4 e.word) := by
  obtain ⟨hleast, hgreatest⟩ := h.word
  have hmod : e.word % 65536 = e.word := Int.emod_eq_of_lt hleast (by omega)
  have hbinary := WordFormat.binary.shows_render e.word
  have hhex := WordFormat.hex.shows_render e.word
  rw [hmod] at hbinary hhex
  rw [WordFormat.render, Bits.low_wordSize, hmod] at hhex
  exact ⟨hbinary, hhex⟩

/-- The row of an entry is read from its text. -/
theorem readFrom_render : e.row.ReadFrom e.render := by
  obtain ⟨⟨hbits, hbinary⟩, hdigits, hhex⟩ := h.shows_word
  have haddress := Numeral.shows_decimal h.address
  have hnumber := Numeral.shows_decimal h.number
  have hbinarySome := List.ne_nil_of_length_pos (Nat.lt_of_lt_of_eq (by decide) hbits.symm)
  have hhexSome := List.ne_nil_of_length_pos (Nat.lt_of_lt_of_eq (by decide) hdigits.symm)
  have hgap : ∀ c ∈ [' ', ' '], Text.isBlank c = true := by decide
  have hspaces : ∀ count, ∀ c ∈ [' ', ' '] ++ List.replicate count ' ', Text.isBlank c = true :=
    fun count => List.forall_mem_append.mpr ⟨hgap, fun c hc => Text.isBlank_of_mem_spaces hc⟩
  have htext : Text.Column (Numeral.decimal e.source.number) ([' ', ' '] ++ e.source.text) _ :=
    hnumber.column (Numeral.decimal_ne_nil _)
      (hspaces (4 - (Numeral.decimal e.source.number).length)) _
  rw [e.render_eq]
  exact .intro
    (haddress.column (Numeral.decimal_ne_nil _) (fun c hc => Text.isBlank_of_mem_spaces hc) _)
    haddress (hbinary.column hbinarySome hgap _) hbits hbinary (hhex.column hhexSome hgap _)
    hdigits hhex htext hnumber hgap h.head

/-- A row is one line. -/
theorem no_feed_render : '\n' ∉ e.render := by
  obtain ⟨⟨_, hbinary⟩, _, hhex⟩ := h.shows_word
  have hdigits : ∀ {base : Nat} {n : Int} {t : Text}, Numeral.Shows base n t → '\n' ∉ t := by
    intro base n t hshows hfeed
    exact absurd (hshows.not_blank '\n' hfeed) (by decide)
  simp only [e.render_eq, List.mem_append, List.mem_cons, List.mem_replicate]
  simp [hdigits hbinary, hdigits hhex, hdigits (Numeral.shows_decimal h.address),
    hdigits (Numeral.shows_decimal h.number), h.feed]

end Entry.Listable

/-- The lines of a listing are its header and one row for each entry. -/
theorem splitOn_renderListing {listing : List Entry} (h : ∀ e ∈ listing, e.Listable) :
    (renderListing listing).splitOn '\n' = listingHeader ++ listing.map Entry.render := by
  apply List.splitOn_intercalate
  · intro line hline
    rcases List.mem_append.mp hline with hheader | hrow
    · have hno : ∀ line ∈ listingHeader, '\n' ∉ line := by decide
      exact hno line hheader
    · obtain ⟨e, he, rfl⟩ := List.mem_map.mp hrow
      exact (h e he).no_feed_render
  · simp [listingHeader]

/-- The lines below the header are the rows of the entries, which are read in one way. -/
theorem getElem?_renderListing {listing : List Entry} (h : ∀ e ∈ listing, e.Listable) {i : Nat}
    {e : Entry} (he : listing[i]? = some e) :
    ((renderListing listing).splitOn '\n')[i + 2]? = some e.render ∧
      ∀ row : Row, row.ReadFrom e.render ↔ row = e.row := by
  have hreads := (h e (List.mem_of_getElem? he)).readFrom_render
  constructor
  · rw [splitOn_renderListing h, List.getElem?_append_right (by simp [listingHeader])]
    simp [listingHeader, he]
  · intro row
    constructor
    · intro hrow
      exact hrow.unique hreads
    · rintro rfl
      exact hreads

/-- Entries are told by their rows. -/
theorem Entry.Listable.eq_of_render {e e' : Entry} (h : e.Listable) (h' : e'.Listable)
    (heq : e.render = e'.render) : e = e' := by
  have hreads := h.readFrom_render
  rw [heq] at hreads
  exact Entry.row_injective (hreads.unique h'.readFrom_render)

/-- A listing is told by its text. -/
theorem renderListing_injective {listing listing' : List Entry} (h : ∀ e ∈ listing, e.Listable)
    (h' : ∀ e ∈ listing', e.Listable) (heq : renderListing listing = renderListing listing') :
    listing = listing' := by
  have hrows := congrArg (List.splitOn '\n') heq
  rw [splitOn_renderListing h, splitOn_renderListing h', List.append_cancel_left_eq] at hrows
  clear heq
  induction listing generalizing listing' with
  | nil => exact (List.map_eq_nil_iff.mp hrows.symm).symm
  | cons e listing ih =>
      cases listing' with
      | nil => simp at hrows
      | cons e' listing' =>
          obtain ⟨hhead, htail⟩ := List.cons.inj hrows
          obtain ⟨he, hlisting⟩ := List.forall_mem_cons.mp h
          obtain ⟨he', hlisting'⟩ := List.forall_mem_cons.mp h'
          rw [he.eq_of_render he' hhead, ih hlisting hlisting' htail]

/-! ## Listings of programs -/

/-- The instruction on a line is a part of the line. -/
theorem instructionText_isInfix (raw : Text) : instructionText raw <:+: raw := by
  have hclean : cleanText raw <:+: raw := by
    obtain ⟨comment, hcomment, _⟩ := exists_comment (Text.trim raw)
    have hstrip : stripComment (Text.trim raw) <:+: Text.trim raw :=
      ⟨[], comment, hcomment.symm⟩
    exact ((Text.trim_isInfix _).trans hstrip).trans (Text.trim_isInfix raw)
  unfold instructionText
  cases hstatement : Statement.ofText (cleanText raw) with
  | instruction text =>
      obtain rfl := Statement.eq_of_ofText_instruction hstatement
      exact hclean
  | label name rest =>
      obtain ⟨_, _, _, hrest, _⟩ := Statement.parts_of_label hstatement
      exact hrest.trans hclean
  | unnamed => exact List.nil_infix

/-- The source of an entry is the instruction on the line that it is numbered with. -/
theorem exists_source_line {raw : List Text} {p : Program} (h : assemble raw = .ok p) {e : Entry}
    (he : e ∈ p.listing) :
    ∃ (i : Nat) (line : Text), raw[i]? = some line ∧
      e.source = ⟨(i + 1 : Nat), instructionText line⟩ := by
  apply exists_raw_of_mem_instructionLines
  have hsource := List.mem_map_of_mem (f := Entry.source) he
  rwa [sources_listing h] at hsource

theorem listable_of_assembleText {source : Text} {p : Program} (h : assembleText source = .ok p) :
    ∀ e ∈ p.listing, e.Listable := by
  intro e he
  obtain ⟨i, hi⟩ := List.getElem?_of_mem he
  have hcoherent := Session.coherent_of_assemble h
  obtain ⟨haddress, hword⟩ := hcoherent.entries i e hi
  obtain ⟨number, line, hline, hsource⟩ := exists_source_line h he
  have hbare := (bare_of_assemble h).2 e.source.text (List.mem_map_of_mem he)
  constructor
  · rw [haddress]
    exact Int.natCast_nonneg i
  · exact hcoherent.fits e.word (List.mem_of_getElem? hword)
  · rw [hsource]
    exact Int.natCast_nonneg _
  · rw [← hbare.clean]
    exact head?_cleanText _
  · -- the source is cut into lines at every line feed
    intro hfeed
    rw [hsource] at hfeed
    have hmem := (instructionText_isInfix line).subset hfeed
    have hend := Text.no_end_of_mem_lines (List.mem_of_getElem? hline) '\n' hmem
    exact absurd hend (by decide)

/-- The listing of a program has a header of two lines and a row for each word. Each row is read in
exactly one way: as the address, the word in binary and again in hexadecimal, the number of a
source line, and the instruction that stands there. Programs with one listing text have the same
entries. -/
theorem listing_reads_back {source : Text} {p : Program} (h : assembleText source = .ok p) :
    ((renderListing p.listing).splitOn '\n').length = p.words.length + 2 ∧
    (∀ (i : Nat) (word : Int), p.words[i]? = some word →
      ∃ (t : Text) (number : Nat) (line : Text),
        ((renderListing p.listing).splitOn '\n')[i + 2]? = some t ∧
        (Text.lines source)[number]? = some line ∧ instructionText line <:+: line ∧
        p.listing[i]? = some ⟨i, word, ⟨(number + 1 : Nat), instructionText line⟩⟩ ∧
        ∀ row : Row, row.ReadFrom t ↔
          row = ⟨i, word, word, (number + 1 : Nat), instructionText line⟩) ∧
    ∀ (source' : Text) (p' : Program), assembleText source' = .ok p' →
      (renderListing p.listing = renderListing p'.listing ↔ p.listing = p'.listing) := by
  have hlistable := listable_of_assembleText h
  refine ⟨?_, ?_, ?_⟩
  · rw [splitOn_renderListing hlistable]
    simp [listingHeader, Program.words]
  · intro i word hword
    rw [Program.words, List.getElem?_map] at hword
    obtain ⟨e, he, rfl⟩ := Option.map_eq_some_iff.mp hword
    obtain ⟨number, line, hline, hsource⟩ := exists_source_line h (List.mem_of_getElem? he)
    have haddress := ((Session.coherent_of_assemble h).entries i e he).1
    have hentry : e = ⟨i, e.word, ⟨(number + 1 : Nat), instructionText line⟩⟩ := by
      rw [← haddress, ← hsource]
    obtain ⟨hrow, hreads⟩ := getElem?_renderListing hlistable he
    refine ⟨e.render, number, line, hrow, hline, instructionText_isInfix line, ?_, ?_⟩
    · rw [he, ← hentry]
    · intro row
      rw [hreads row, Entry.row, haddress, hsource]
  · intro source' p' h'
    constructor
    · exact renderListing_injective hlistable (listable_of_assembleText h')
    · exact congrArg renderListing

/-- An instruction with blanks in it, a comment, a blank line and a label. -/
def spacedSource : Text := "  LDI r1  9 # low\n\n.end HLT".toList

def spacedProgram : Program :=
  ⟨[("end".toList, 1)],
    [⟨0, 33033, ⟨1, "LDI r1  9".toList⟩⟩, ⟨1, 4096, ⟨3, "HLT".toList⟩⟩]⟩

theorem listing_reads_back_spaced :
    assembleText spacedSource = .ok spacedProgram ∧
      ∃ t, ((renderListing spacedProgram.listing).splitOn '\n')[2]? = some t ∧
        ∀ row : Row, row.ReadFrom t ↔ row = ⟨0, 33033, 33033, 1, "LDI r1  9".toList⟩ := by
  have hrun : assembleText spacedSource = .ok spacedProgram := by decide
  obtain ⟨_, hrows, _⟩ := listing_reads_back hrun
  obtain ⟨t, number, line, ht, _, _, hentry, hreads⟩ := hrows 0 33033 rfl
  obtain ⟨_, _, hsource⟩ := Entry.mk.inj (Option.some.inj hentry)
  obtain ⟨hnumber, htext⟩ := Line.mk.inj hsource
  rw [← hnumber, ← htext] at hreads
  exact ⟨hrun, t, ht, hreads⟩

end Rsc
