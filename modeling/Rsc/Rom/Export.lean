import Rsc.Rom.Layout

/-!
# Layout files

A layout is written as a JSON object. With an indentation every item has a line of its own, without
one the whole object is a single line.
-/

namespace Rsc.Rom

/-- How the items of an object or array are set apart. -/
structure Style where
  /-- The number of spaces per level, or none for a single line. -/
  indent : Option Int := some 2

namespace Style

/-- What stands before an item at a depth. -/
def newline (s : Style) (depth : Nat) : Text :=
  match s.indent with
  | none => []
  | some n => '\n' :: List.replicate (depth * n.toNat) ' '

/-- What stands between two items. -/
def separator (s : Style) : Text :=
  match s.indent with
  | none => ", ".toList
  | some _ => ",".toList

/-- Items between brackets, each on its own line if lines are used. -/
def enclose (s : Style) (opening closing : Char) (depth : Nat) (items : List Text) : Text :=
  match items with
  | [] => [opening, closing]
  | _ =>
    opening :: (s.newline (depth + 1)
      ++ (Text.join (s.separator ++ s.newline (depth + 1)) items
        ++ (s.newline depth ++ [closing])))

/-- An array. -/
def array (s : Style) (depth : Nat) (items : List Text) : Text := s.enclose '[' ']' depth items

/-- An object. -/
def object (s : Style) (depth : Nat) (members : List (Text × Text)) : Text :=
  s.enclose '\x7b' '\x7d' depth (members.map fun (key, value) =>
    "\"".toList ++ key ++ "\": ".toList ++ value)

end Style

/-- A position as an array of three numbers. -/
def Position.render (s : Style) (depth : Nat) (p : Position) : Text :=
  s.array depth [Numeral.decimal p.x, Numeral.decimal p.y, Numeral.decimal p.z]

/-- A block as an object. The names of materials need no escapes. -/
def Block.render (s : Style) (depth : Nat) (b : Block) : Text :=
  s.object depth [
    ("position".toList, b.position.render s (depth + 1)),
    ("block".toList, "\"".toList ++ b.material.name ++ "\"".toList)]

/-- A layout as an object, with no line end after it. -/
def Layout.render (s : Style) (l : Layout) : Text :=
  s.object 0 [
    ("area".toList, l.area.render s 1),
    ("offset".toList, l.offset.render s 1),
    ("instruction_count".toList, Numeral.decimal l.count),
    ("blocks".toList, s.array 1 (l.blocks.map (Block.render s 2)))]

end Rsc.Rom
