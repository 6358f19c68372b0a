import Rsc.Program
import Rsc.Rom.Layout

/-!
# Progress records

What the command tells about its progress when asked to. The records of a run that fails end
where the failure is met.
-/

namespace Rsc.Command

/-- How detailed a record is. -/
inductive Level where
  | info
  | debug
  deriving DecidableEq, Repr

namespace Level

/-- The name of a level in front of its records. -/
def name : Level → Text
  | info => "INFO".toList
  | debug => "DEBUG".toList

/-- The least verbosity that shows a level. -/
def verbosity : Level → Nat
  | info => 1
  | debug => 2

end Level

/-- A record of progress. -/
structure Record where
  level : Level
  text : Text
  deriving DecidableEq, Repr

/-- The records that a verbosity shows, one per line. -/
def renderRecords (verbosity : Nat) (records : List Record) : Text :=
  (records.filter fun r => r.level.verbosity ≤ verbosity).flatMap fun r =>
    r.level.name ++ ": ".toList ++ r.text ++ ['\n']

/-- A numeral in a record. -/
def numeral (n : Nat) : Text := Numeral.digits 10 n

/-- The record of a label definition, met in the given state. -/
def labelRecord (r : Resolver) (line : Line) : List Record :=
  match Statement.ofText line.text with
  | .label name _ =>
    [⟨.debug, "Label ".toList ++ Text.quote name ++ " -> ".toList ++ numeral r.count
      ++ " (line ".toList ++ Numeral.decimal line.number ++ ")".toList⟩]
  | _ => []

/-- Takes in one line of the first pass and records it. After a faulty definition there is no
resolver, and nothing more is recorded. Records stand latest first. -/
def traceLine (state : Option Resolver × List Record) (line : Line) :
    Option Resolver × List Record :=
  match state.1 with
  | none => state
  | some r =>
    match r.step line with
    | .error _ => (none, state.2)
    | .ok next => (some next, labelRecord r line ++ state.2)

/-- The records of resolving labels, up to the first faulty definition. -/
def labelRecords (lines : List Line) : List Record :=
  (lines.foldl traceLine (some {}, [])).2.reverse

/-- The record of an encoded word. -/
def wordRecord (address : Nat) (line : Line) (word : Int) : Record :=
  ⟨.debug, Numeral.column 4 address ++ ": ".toList ++ Bits.binaryDigits word wordSize
    ++ "  ".toList ++ line.text⟩

/-- The records of encoding the instructions, up to the first that fails. -/
def encodingRecords (labels : LabelTable) (instructions : List Line) : List Record :=
  let words := instructions.zipIdx.map fun (line, address) =>
    (encodeLine labels line).toOption.map (wordRecord address line)
  (words.takeWhile Option.isSome).filterMap id

/-- The records of assembling raw lines. -/
def assemblyRecords (raw : List Text) : List Record :=
  let lines := cleanLines raw
  let cleaned := ⟨.debug, numeral lines.length ++ " non-empty lines after cleaning".toList⟩
  let labels := labelRecords lines
  match resolve lines with
  | .error _ => cleaned :: labels
  | .ok resolution =>
    let resolved := ⟨.debug, "Resolved ".toList ++ numeral resolution.labels.length
      ++ " labels, ".toList ++ numeral resolution.instructions.length
      ++ " instructions".toList⟩
    let encoded :=
      match checkSize resolution.instructions with
      | .error _ => []
      | .ok () => encodingRecords resolution.labels resolution.instructions
    let finished : List Record :=
      match assemble raw with
      | .error _ => []
      | .ok program => [⟨.info, "Assembled ".toList ++ numeral program.words.length
          ++ " words".toList⟩]
    cleaned :: labels ++ resolved :: encoded ++ finished

/-- The record of reading a file. -/
def readRecord (path : Text) (lines : Nat) : Record :=
  ⟨.debug, "Read ".toList ++ numeral lines ++ " lines from ".toList ++ path⟩

/-- The records of placing words in the ROM. -/
def placementRecords (words : Nat) : List Record :=
  (List.range words).map fun address =>
    ⟨.debug, "Instruction ".toList ++ numeral (address + 1) ++ "/".toList ++ numeral words
      ++ " placed".toList⟩

/-- The record of a layout file. -/
def layoutRecord (path : Text) (blocks : Nat) : Record :=
  ⟨.info, "Wrote layout: ".toList ++ path ++ " (".toList ++ numeral blocks
    ++ " blocks)".toList⟩

/-- The record of an output file. -/
def outputRecord (path format : Text) (words : Nat) : Record :=
  ⟨.info, "Output: ".toList ++ path ++ " (".toList ++ format ++ ", ".toList ++ numeral words
    ++ " words)".toList⟩

end Rsc.Command
