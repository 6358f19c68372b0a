import Rsc.Instruction

/-!
# Word images

The plain outputs of a program: words as text, one per line, in binary or hexadecimal, and words
as bytes, the high byte first.
-/

namespace Rsc

/-- The text formats of single words. -/
inductive WordFormat where
  | binary
  | hex
  deriving DecidableEq, Repr

namespace WordFormat

/-- The name of a format. -/
def name : WordFormat → Text
  | binary => "bin".toList
  | hex => "hex".toList

/-- The format of a name. -/
def ofName? (t : Text) : Option WordFormat :=
  [binary, hex].find? fun format => format.name == t

/-- The low sixteen bits of a word in a format. -/
def render (word : Int) : WordFormat → Text
  | binary => Bits.binaryDigits word wordSize
  | hex => Numeral.hex 4 (Bits.low wordSize word)

end WordFormat

/-- Words one per line, with no line end after the last. -/
def renderWords (format : WordFormat) (words : List Int) : Text :=
  Text.join ['\n'] (words.map fun word => format.render word)

/-- Words in the format of a name. -/
def renderNamed (name : Text) (words : List Int) : Except Fault Text :=
  match WordFormat.ofName? name with
  | some format => .ok (renderWords format words)
  | none => .error (.unknownFormat name)

/-- The two bytes of a word that fits sixteen bits. -/
def wordBytes (word : Int) : Except Fault Bytes :=
  if 0 ≤ word ∧ word ≤ 65535 then
    .ok [UInt8.ofNat (word.toNat / 256), UInt8.ofNat (word.toNat % 256)]
  else .error (.wordOutOfRange word)

/-- The bytes of a ROM image. -/
def rawImage (words : List Int) : Except Fault Bytes := do
  return (← words.mapM wordBytes).flatten

end Rsc
