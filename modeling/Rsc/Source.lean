import Rsc.Text.Lines

/-!
# Source lines

Lines keep their position in the source while comments and blank lines are dropped, so that a
diagnostic can point at the line that was written.
-/

namespace Rsc

/-- A source line with its position, counted from 1. -/
structure Line where
  number : Int
  text : Text
  deriving DecidableEq, Repr

/-- Whether a comment begins at the start of a text: at a hash sign, two slashes or two dashes. -/
def startsComment : Text → Bool
  | '#' :: _ => true
  | '/' :: '/' :: _ => true
  | '-' :: '-' :: _ => true
  | _ => false

/-- The text before the first comment. -/
def stripComment : Text → Text
  | [] => []
  | c :: rest => if startsComment (c :: rest) then [] else c :: stripComment rest

/-- What a raw line says: its text without comment and outer blanks. -/
def cleanText (raw : Text) : Text := Text.trim (stripComment (Text.trim raw))

/-- The lines that say something, with their positions. -/
def cleanLines (raw : List Text) : List Line :=
  (raw.zipIdx 1).filterMap fun (text, number) =>
    let text := cleanText text
    if text.isEmpty then none else some ⟨number, text⟩

end Rsc
