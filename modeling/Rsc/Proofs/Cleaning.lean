import Rsc.Proofs.Tokens
import Rsc.Source

/-!
# Cleaned lines

Cleaning drops lines and never moves one: a cleaned line is numbered by its place in the source.
Cleaning two texts one after the other therefore cleans each, and shifts the numbers of the second
by the length of the first.
-/

namespace Rsc

/-- The line with its number moved down by `offset` lines. -/
def Line.shift (offset : Int) (line : Line) : Line := ⟨offset + line.number, line.text⟩

@[simp] theorem Line.shift_text (offset : Int) (line : Line) :
    (line.shift offset).text = line.text := rfl

/-- What a line says begins with no blank. -/
theorem head?_cleanText (raw : Text) : ∀ c ∈ (cleanText raw).head?, Text.isBlank c = false :=
  Text.head?_trim_not_blank _

/-- What a line says ends in no blank. -/
theorem getLast?_cleanText (raw : Text) : ∀ c ∈ (cleanText raw).getLast?, Text.isBlank c = false :=
  Text.getLast?_trim_not_blank _

/-- A cleaned line stands at its number in the source, and is what that source line says. -/
theorem mem_cleanLines_iff {raw : List Text} {line : Line} :
    line ∈ cleanLines raw ↔
      ∃ i text, raw[i]? = some text ∧ line = ⟨(i + 1 : Nat), cleanText text⟩ ∧
        cleanText text ≠ [] := by
  simp only [cleanLines, List.mem_filterMap, Prod.exists, List.mem_zipIdx_iff_le_and_getElem?_sub]
  constructor
  · rintro ⟨text, number, ⟨hle, hget⟩, hkept⟩
    split at hkept
    next => cases hkept
    next hsome =>
      refine ⟨number - 1, text, hget, ?_, by simpa using hsome⟩
      rw [Nat.sub_add_cancel hle]
      exact (Option.some.inj hkept).symm
  · rintro ⟨i, text, hget, rfl, hne⟩
    refine ⟨text, i + 1, ⟨by omega, by simpa using hget⟩, ?_⟩
    rw [if_neg (by simpa using hne)]

/-- The numbers of cleaned lines are places in the source, counted from 1. -/
theorem number_of_mem_cleanLines {raw : List Text} {line : Line} (h : line ∈ cleanLines raw) :
    1 ≤ line.number ∧ line.number ≤ raw.length := by
  obtain ⟨i, text, hget, rfl, _⟩ := mem_cleanLines_iff.mp h
  obtain ⟨hlt, _⟩ := List.getElem?_eq_some_iff.mp hget
  dsimp only
  omega

/-- A line that says something has a token. -/
theorem tokens_of_mem_cleanLines {raw : List Text} {line : Line} (h : line ∈ cleanLines raw) :
    Text.tokens line.text ≠ [] := by
  obtain ⟨i, text, _, rfl, hne⟩ := mem_cleanLines_iff.mp h
  intro hnil
  apply hne
  unfold cleanText at hnil ⊢
  rw [Text.tokens_trim] at hnil
  exact Text.trim_eq_nil_iff.mpr hnil

/-- Cleaned lines keep the order of the source. -/
theorem pairwise_cleanLines (raw : List Text) :
    (cleanLines raw).Pairwise fun first second => first.number < second.number := by
  have hpositions : (raw.zipIdx 1).Pairwise fun first second => first.2 < second.2 := by
    rw [← List.pairwise_map (f := Prod.snd) (R := (· < ·)), List.zipIdx_map_snd]
    exact List.pairwise_lt_range'
  refine List.pairwise_filterMap.mpr (hpositions.imp ?_)
  rintro ⟨text, number⟩ ⟨text', number'⟩ hlt line hline line' hline'
  dsimp only at hlt hline hline'
  split at hline
  next => cases hline
  next =>
    split at hline'
    next => cases hline'
    next =>
      obtain rfl := Option.some.inj hline
      obtain rfl := Option.some.inj hline'
      exact Int.ofNat_lt.mpr hlt

/-- Cleaning goes line by line; the numbers of the second source count on from the first. -/
theorem cleanLines_append (first second : List Text) :
    cleanLines (first ++ second) =
      cleanLines first ++ (cleanLines second).map (Line.shift first.length) := by
  simp only [cleanLines, List.zipIdx_append, List.filterMap_append, List.append_cancel_left_eq,
    List.map_filterMap]
  rw [show 1 + first.length = first.length + 1 by omega, List.zipIdx_eq_map_add,
    List.zipIdx_eq_map_add (i := 1), List.filterMap_map, List.filterMap_map]
  congr 1
  funext ⟨text, number⟩
  simp only [Function.comp_apply]
  split
  · rfl
  · have hnumber : ((first.length + 1 + number : Nat) : Int) =
        first.length + (1 + number : Nat) := by omega
    rw [Option.map_some, Line.shift, hnumber]

/-- Only what the lines say matters, line by line. -/
theorem cleanLines_congr {raw raw' : List Text} (h : raw.map cleanText = raw'.map cleanText) :
    cleanLines raw = cleanLines raw' := by
  have hclean : ∀ raw : List Text, cleanLines raw =
      ((raw.map cleanText).zipIdx 1).filterMap fun item =>
        if item.1.isEmpty then none else some ⟨item.2, item.1⟩ := by
    intro raw
    rw [List.zipIdx_map, List.filterMap_map]
    rfl
  rw [hclean, hclean, h]

/-- A last line that says nothing leaves no trace. -/
theorem cleanLines_append_silent (raw : List Text) {line : Text} (h : cleanText line = []) :
    cleanLines (raw ++ [line]) = cleanLines raw := by
  have hnone : cleanLines [line] = [] := by simp [cleanLines, h]
  rw [cleanLines_append, hnone, List.map_nil, List.append_nil]

end Rsc
