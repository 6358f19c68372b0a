import Rsc.Text.Basic

/-!
# Lines

How a text is cut into lines. A line ends at a line feed, a carriage return, the two together, or
one of the rarer separators; a final line end does not open an empty last line.
-/

namespace Rsc.Text

/-- The characters that end a line. -/
def isLineEnd (c : Char) : Bool :=
  let n := c.toNat
  (0x0A ≤ n && n ≤ 0x0D) || (0x1C ≤ n && n ≤ 0x1E) || n == 0x85 || n == 0x2028 || n == 0x2029

/-- Puts a character in front of a text whose carriage returns are already merged. The first
component is the character that follows in the unmerged text. -/
def mergeStep (c : Char) (rest : Option Char × Text) : Option Char × Text :=
  (some c, if c = '\r' ∧ rest.1 = some '\n' then rest.2 else c :: rest.2)

/-- Drops each carriage return that stands right before a line feed. -/
def mergeReturns (t : Text) : Text := (t.foldr mergeStep (none, [])).2

theorem foldr_mergeStep_fst (t : Text) : (t.foldr mergeStep (none, [])).1 = t.head? := by
  cases t with
  | nil => rfl
  | cons c rest => rfl

@[simp] theorem mergeReturns_nil : mergeReturns [] = [] := rfl

/-- A carriage return goes if a line feed follows it. -/
theorem mergeReturns_cons (c : Char) (t : Text) :
    mergeReturns (c :: t) =
      if c = '\r' ∧ t.head? = some '\n' then mergeReturns t else c :: mergeReturns t := by
  simp only [mergeReturns, List.foldr_cons, mergeStep, foldr_mergeStep_fst]

/-- Puts a character in front of a text already cut into lines. -/
def lineStep (c : Char) (lines : List Text) : List Text :=
  if isLineEnd c then [] :: lines
  else match lines with
    | [] => [[c]]
    | line :: rest => (c :: line) :: rest

/-- The lines of a text, without their line ends. -/
def lines (t : Text) : List Text := (mergeReturns t).foldr lineStep []

/-- Text as it is read from a file: every kind of newline becomes a line feed. -/
def unifyNewlines (t : Text) : Text :=
  (mergeReturns t).map fun c => if c = '\r' then '\n' else c

end Rsc.Text
