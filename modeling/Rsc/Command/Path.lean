import Rsc.Text.Basic

/-!
# Paths

Paths as they are typed: their components, the shortest way to write one that names the same
place, and the extension that tells an output format.
-/

namespace Rsc.Path

/-- The component that stays in a directory. -/
def here : Text := ".".toList

/-- The component that leaves a directory. -/
def parent : Text := "..".toList

/-- Whether a character separates components. -/
def isSlash (c : Char) : Bool := c == '/'

/-- The named components of a path. -/
def components (path : Text) : List Text :=
  (Text.pieces isSlash path).filter fun name => !name.isEmpty

/-- What a path starts with: nothing, one slash or exactly two. More slashes count as one. -/
def root (path : Text) : Text :=
  match (path.takeWhile isSlash).length with
  | 0 => []
  | 2 => "//".toList
  | _ => "/".toList

/-- A path without repeated slashes and without components that stay in place. A component that
leaves a directory is kept. -/
def normalize (path : Text) : Text :=
  let short := root path ++ Text.join "/".toList ((components path).filter (· != here))
  if short.isEmpty then here else short

/-- The last component as it is typed, empty after a final slash. -/
def baseName (path : Text) : Text := (path.reverse.takeWhile fun c => !isSlash c).reverse

/-- The extension with its dot: what follows the last dot of the last component, where dots that
begin the component do not count. -/
def extension (path : Text) : Text :=
  let stem := (baseName path).dropWhile (· == '.')
  if stem.contains '.' then '.' :: (stem.reverse.takeWhile (· != '.')).reverse else []

end Rsc.Path
