import Rsc.Image
import Rsc.Proofs.Assembly
import Rsc.Rom.Layout
import Rsc.Session

/-!
# What a session remembers

A run leaves the same state whatever was run before it. The state is that of a program: entries
stand at their addresses, words fit sixteen bits, source lines are in order and labels point into
the program or right behind it. Its words can therefore always be written as bytes and laid out.
-/

namespace Rsc

/-! ## Words of programs -/

theorem LineEncodes.bounds {labels : LabelTable} (hlabels : ∀ entry ∈ labels, 0 ≤ entry.2)
    {line : Line} {word : Int} (h : LineEncodes labels line word) : 0 ≤ word ∧ word ≤ 65535 := by
  obtain ⟨mnemonic, operands, instruction, _, hlookup, hcheck, hencode⟩ := h
  exact instruction.encode_bounds hlabels (Catalog.lookup_eq_some_iff.mp hlookup).1 hcheck hencode

/-- The words of a program have sixteen bits and no sign. -/
theorem bounds_of_mem_words {raw : List Text} {p : Program} (h : assemble raw = .ok p) {word : Int}
    (hword : word ∈ p.words) : 0 ≤ word ∧ word ≤ 65535 := by
  obtain ⟨i, hi, rfl⟩ := List.getElem_of_mem hword
  obtain ⟨line, _, hencodes⟩ := lineEncodes_of_assemble h hi
  exact hencodes.bounds nonneg_of_mem_sourceLabels

theorem getElem?_listingOf {lines : List Line} {words : List Int} {i : Nat} {entry : Entry}
    (h : (listingOf lines words)[i]? = some entry) :
    entry.address = i ∧ words[i]? = some entry.word := by
  obtain ⟨⟨line, address⟩, word, hitem, hword, rfl⟩ := List.getElem?_zipWith_eq_some.mp h
  rw [List.getElem?_zipIdx, Option.map_eq_some_iff] at hitem
  obtain ⟨_, _, hitem⟩ := hitem
  obtain ⟨rfl, rfl⟩ := Prod.mk.inj hitem
  exact ⟨by simp, hword⟩

/-- Entries stand in the order of their source lines. -/
theorem pairwise_listing {raw : List Text} {p : Program} (h : assemble raw = .ok p) :
    p.listing.Pairwise fun first second => first.source.number < second.source.number := by
  have hpairwise := pairwise_sourceInstructions raw
  rw [← sources_listing h, List.pairwise_map] at hpairwise
  exact hpairwise

/-! ## Writing and laying out words -/

/-- Words of sixteen bits have an image. -/
theorem exists_rawImage {words : List Int} (h : ∀ word ∈ words, 0 ≤ word ∧ word ≤ 65535) :
    ∃ bytes, rawImage words = .ok bytes := by
  cases hbytes : words.mapM wordBytes with
  | ok bytes =>
      refine ⟨bytes.flatten, ?_⟩
      rw [rawImage, hbytes]
      rfl
  | error fault =>
      obtain ⟨word, hreached, hword⟩ := mapM_eq_error_iff.mp hbytes
      rw [wordBytes, if_pos (h word hreached.mem)] at hword
      cases hword

theorem exists_layout {words : List Int} (h : words.length ≤ 1024) :
    ∃ layout, Rom.layout words = .ok layout := by
  have hfits : ¬ Rom.capacity < words.length := Nat.not_lt.mpr h
  unfold Rom.layout
  rw [if_neg hfits]
  exact ⟨_, rfl⟩

/-! ## States -/

namespace Session

/-- What holds of every state: words and listing agree entry by entry, addresses count from 0 and
do not run out, words fit sixteen bits, source lines increase, and labels are bound to addresses
of the program or to the one behind it. -/
structure Coherent (s : Session) : Prop where
  length_eq : s.words.length = s.listing.length
  length_le : s.words.length ≤ 1024
  entries : ∀ (i : Nat) (entry : Entry), s.listing[i]? = some entry →
    entry.address = i ∧ s.words[i]? = some entry.word
  fits : ∀ word ∈ s.words, 0 ≤ word ∧ word ≤ 65535
  ordered : s.listing.Pairwise fun first second => first.source.number < second.source.number
  labels : ∀ entry ∈ s.labels, 0 ≤ entry.2 ∧ entry.2 ≤ s.words.length

theorem run_of_ok (s : Session) {raw : List Text} {p : Program} (h : assemble raw = .ok p) :
    s.run raw = (.ok p.words, ⟨p.labels, p.words, p.listing⟩) := by
  unfold run
  rw [h]
  rfl

/-- A run that fails leaves nothing, not even what was there before. -/
theorem run_of_error (s : Session) {raw : List Text} {failure : Failure}
    (h : assemble raw = .error failure) : s.run raw = (.error failure, {}) := by
  unfold run
  rw [h]
  rfl

/-- A run does not look at the state it starts from. -/
theorem run_eq_fresh (s : Session) (raw : List Text) : s.run raw = ({} : Session).run raw := by
  cases h : assemble raw with
  | ok p => rw [run_of_ok s h, run_of_ok {} h]
  | error failure => rw [run_of_error s h, run_of_error {} h]

/-- Neither does a sequence of runs: each is a first run. -/
theorem runAll_eq_map (s : Session) (runs : List (List Text)) :
    s.runAll runs = runs.map ({} : Session).run := by
  induction runs generalizing s with
  | nil => rfl
  | cons raw rest ih =>
      rw [runAll, List.map_cons, ih, run_eq_fresh]

theorem coherent_empty : ({} : Session).Coherent where
  length_eq := rfl
  length_le := Nat.zero_le _
  entries := fun _ _ h => nomatch h
  fits := fun _ h => absurd h List.not_mem_nil
  ordered := List.Pairwise.nil
  labels := fun _ h => absurd h List.not_mem_nil

/-- A program that was assembled makes a coherent state. -/
theorem coherent_of_assemble {raw : List Text} {p : Program} (h : assemble raw = .ok p) :
    Coherent ⟨p.labels, p.words, p.listing⟩ where
  length_eq := List.length_map _
  length_le := by
    obtain ⟨_, hsize, _⟩ := assemble_eq_ok_iff.mp h
    rw [length_words h]
    exact hsize
  entries := by
    obtain ⟨_, _, _, _, hlisting⟩ := assemble_eq_ok_iff.mp h
    intro i entry hentry
    rw [hlisting] at hentry
    exact getElem?_listingOf hentry
  fits := fun _ hword => bounds_of_mem_words h hword
  ordered := pairwise_listing h
  labels := by
    obtain ⟨_, _, _, hlabels, _⟩ := assemble_eq_ok_iff.mp h
    intro entry hentry
    rw [hlabels] at hentry
    rw [length_words h]
    exact bounds_of_mem_sourceLabels hentry

/-- A run leaves a coherent state. -/
theorem coherent_run (s : Session) (raw : List Text) : (s.run raw).2.Coherent := by
  cases h : assemble raw with
  | ok p =>
      rw [run_of_ok s h]
      exact coherent_of_assemble h
  | error failure =>
      rw [run_of_error s h]
      exact coherent_empty

/-- A run that fails leaves nothing. -/
theorem run_eq_empty_of_error {s : Session} {raw : List Text} {failure : Failure}
    (h : (s.run raw).1 = .error failure) : (s.run raw).2 = {} := by
  cases hrun : assemble raw with
  | ok p =>
      rw [run_of_ok s hrun] at h
      cases h
  | error failure => rw [run_of_error s hrun]

/-- The states that a new session is in, at first and after any of the runs. -/
def Visits (runs : List (List Text)) (s : Session) : Prop :=
  s = {} ∨ ∃ outcome, (outcome, s) ∈ ({} : Session).runAll runs

/-- Every state on the way is coherent. -/
theorem Visits.coherent {runs : List (List Text)} {s : Session} (h : Visits runs s) :
    s.Coherent := by
  rcases h with rfl | ⟨outcome, hstep⟩
  · exact coherent_empty
  · rw [runAll_eq_map] at hstep
    obtain ⟨raw, _, hrun⟩ := List.mem_map.mp hstep
    have hcoherent := coherent_run {} raw
    rw [hrun] at hcoherent
    exact hcoherent

/-- Every run of a session has the outcome, and leaves the state, of the same run in a new
session; a run that fails leaves nothing. Every state on the way is coherent, so that its words
can be written as bytes and laid out. -/
theorem runAll_history (runs : List (List Text)) :
    ({} : Session).runAll runs = runs.map ({} : Session).run ∧
      (∀ failure s, (.error failure, s) ∈ ({} : Session).runAll runs → s = {}) ∧
      ∀ s, Visits runs s → s.Coherent ∧ (∃ bytes, rawImage s.words = .ok bytes) ∧
        ∃ layout, Rom.layout s.words = .ok layout := by
  refine ⟨runAll_eq_map {} runs, ?_, ?_⟩
  · intro failure s hstep
    rw [runAll_eq_map] at hstep
    obtain ⟨raw, _, hrun⟩ := List.mem_map.mp hstep
    have hempty := run_eq_empty_of_error (congrArg Prod.fst hrun)
    rw [hrun] at hempty
    exact hempty
  · intro s hvisits
    have hcoherent := hvisits.coherent
    exact ⟨hcoherent, exists_rawImage hcoherent.fits, exists_layout hcoherent.length_le⟩

end Session

end Rsc
