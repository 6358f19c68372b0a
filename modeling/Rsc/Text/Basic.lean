/-!
# Text

Source lines, tokens, label names and rendered output are lists of characters. This module says
which characters are blank, and how text is trimmed, cut into pieces and tokens, and recased.
-/

namespace Rsc

/-- Source text, tokens, names and rendered output. -/
abbrev Text := List Char

/-- The contents of a file. -/
abbrev Bytes := List UInt8

namespace Text

/-- Blanks separate tokens and are trimmed off lines: the ASCII controls that move the cursor or
separate records, and the space characters of every script. -/
def isBlank (c : Char) : Bool :=
  let n := c.toNat
  (0x09 ≤ n && n ≤ 0x0D) || (0x1C ≤ n && n ≤ 0x20) || n == 0x85 || n == 0xA0 || n == 0x1680
    || (0x2000 ≤ n && n ≤ 0x200A) || n == 0x2028 || n == 0x2029 || n == 0x202F || n == 0x205F
    || n == 0x3000

/-- Drops the blanks in front. -/
def trimLeft (t : Text) : Text := t.dropWhile isBlank

/-- Drops the blanks at the end. -/
def trimRight (t : Text) : Text := (t.reverse.dropWhile isBlank).reverse

/-- Drops the blanks at both ends. -/
def trim (t : Text) : Text := trimRight (trimLeft t)

/-- Cuts a text at every character that satisfies `cut`: the piece before the first such
character, then the pieces after each. -/
def split (cut : Char → Bool) (t : Text) : Text × List Text :=
  t.foldr (fun c pieces =>
    if cut c then ([], pieces.1 :: pieces.2) else (c :: pieces.1, pieces.2)) ([], [])

@[simp] theorem split_nil (cut : Char → Bool) : split cut [] = ([], []) := rfl

theorem split_cons (cut : Char → Bool) (c : Char) (t : Text) :
    split cut (c :: t) =
      if cut c then ([], (split cut t).1 :: (split cut t).2)
      else (c :: (split cut t).1, (split cut t).2) := rfl

/-- All pieces of a cut text, of which there is always at least one. -/
def pieces (cut : Char → Bool) (t : Text) : List Text :=
  (split cut t).1 :: (split cut t).2

/-- The maximal runs of characters that are not blank. -/
def tokens (t : Text) : List Text :=
  (pieces isBlank t).filter fun piece => !piece.isEmpty

@[simp] theorem tokens_nil : tokens [] = [] := rfl

/-- Joins texts with a separator between neighbours. -/
def join (separator : Text) (parts : List Text) : Text :=
  (parts.intersperse separator).flatten

@[simp] theorem join_nil (separator : Text) : join separator [] = [] := rfl

@[simp] theorem join_singleton (separator part : Text) : join separator [part] = part := by
  simp [join]

theorem join_cons_cons (separator first second : Text) (rest : List Text) :
    join separator (first :: second :: rest) =
      first ++ separator ++ join separator (second :: rest) := by
  simp [join, List.append_assoc]

/-- The capital of a character as far as mnemonics can tell: the ASCII letters, and the long s
and the dotless i, the two other letters whose capitals are ASCII. -/
def capital (c : Char) : Char :=
  if c = '\u017f' then 'S' else if c = '\u0131' then 'I' else c.toUpper

/-- Capitals throughout. -/
def upper (t : Text) : Text := t.map capital

/-- Small letters throughout. Only ASCII letters change, which is enough to compare with words
that have no other letters. -/
def lower (t : Text) : Text := t.map Char.toLower

end Text

end Rsc
