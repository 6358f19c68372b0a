import Rsc.Command.Path
import Rsc.Image

/-!
# Output formats

The formats that the command can write, by name or by the extension of the output file.
-/

namespace Rsc.Command

/-- What the command writes. -/
inductive Format where
  /-- Words in a text format, one per line. -/
  | words (format : WordFormat)
  /-- Words with addresses and source lines. -/
  | listing
  /-- The bytes of a ROM image. -/
  | raw
  /-- The blocks of a ROM, as a file. -/
  | layout
  deriving DecidableEq, Repr

namespace Format

/-- The name of a format on the command line. -/
def name : Format → Text
  | words format => format.name
  | listing => "listing".toList
  | raw => "raw".toList
  | layout => "layout".toList

/-- All formats, in the order in which they are offered. -/
def all : List Format := [.words .binary, .words .hex, .listing, .raw, .layout]

/-- The format of a name. -/
def ofName? (t : Text) : Option Format := all.find? fun format => format.name == t

/-- The formats that an extension tells. -/
def extensions : List (Text × Format) :=
  [(".hex".toList, .words .hex), (".lst".toList, .listing), (".bin".toList, .raw),
   (".rom".toList, .raw), (".json".toList, .layout)]

/-- The format of an output file: by its extension in any case, binary text by default. -/
def ofPath (path : Text) : Format :=
  (extensions.lookup (Text.lower (Path.extension path))).getD (.words .binary)

end Format

end Rsc.Command
