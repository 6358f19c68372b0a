import Rsc.Command.FileSystem
import Rsc.Rom.Export

/-!
# Exporting layouts

A layout written to a file of its own, apart from any run of the command.
-/

namespace Rsc.Command

/-- Why a layout is not exported. -/
inductive ExportFailure where
  | layout (diagnostic : Diagnostic)
  | file (fault : FileFault)
  deriving DecidableEq, Repr

/-- Lays out words and writes the layout to a file. The answer holds the path that was written
to, in its short form. The layout is built first, so that too many words touch no file. -/
def exportLayout (style : Rom.Style) (words : List Int) (path : Text) (fs : FileSystem) :
    Except ExportFailure (Text × FileSystem) := do
  let layout ← (Rom.layout words).mapError .layout
  let path := Path.normalize path
  let after ← (fs.write path (Utf8.encode (layout.render style))).mapError .file
  return (path, after)

end Rsc.Command
