import Rsc.Text.Basic

/-!
# Usage texts

What the command prints about itself.
-/

namespace Rsc.Command

/-- Text given line by line, each line ended. -/
def paragraph (lines : List String) : Text := lines.flatMap fun line => line.toList ++ ['\n']

/-- The usage. -/
def usageText : Text := paragraph [
  "usage: rscasm [-h] [-o OUTPUT] [--format \x7bbin,hex,listing,raw,layout\x7d]",
  "              [--verbose] [--version]",
  "              input"]

/-- The help: the usage and what the arguments mean. -/
def helpText : Text := usageText ++ paragraph [
  "",
  "Assembler for the RSC 16-bit instruction set",
  "",
  "positional arguments:",
  "  input                 Input assembly file",
  "",
  "options:",
  "  -h, --help            show this help message and exit",
  "  -o OUTPUT, --output OUTPUT",
  "                        Output file (default: stdout)",
  "  --format \x7bbin,hex,listing,raw,layout\x7d",
  "                        Output format (auto-detected from -o extension if not",
  "                        set)",
  "  --verbose, -v         Increase verbosity (-v, -vv)",
  "  --version             show program's version number and exit"]

/-- The name and version. -/
def versionText : Text := paragraph ["rscasm 0.3.0"]

end Rsc.Command
