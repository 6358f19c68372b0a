import Rsc.Field
import Rsc.Source

/-!
# Labels

The first pass over a program. A line that begins with the label marker defines a label, which is
bound to the address of the next instruction; the rest of such a line, if any, is an instruction.
Every other line is an instruction, and instructions are numbered from 0 in order.
-/

namespace Rsc

/-- What a line says about labels. -/
inductive Statement where
  /-- No label: the line is an instruction. -/
  | instruction (text : Text)
  /-- A label and the instruction after it, empty if there is none. -/
  | label (name rest : Text)
  /-- A label marker with no name. -/
  | unnamed
  deriving DecidableEq, Repr

/-- Reads a line. The name of a label ends at the first blank after it begins. -/
def Statement.ofText : Text → Statement
  | '.' :: t =>
    match Text.trimLeft t with
    | [] => .unnamed
    | body =>
      .label (body.takeWhile fun c => !Text.isBlank c)
        (Text.trim (body.dropWhile fun c => !Text.isBlank c))
  | t => .instruction t

/-- The labels and instructions of a program. The position of an instruction is its address. -/
structure Resolution where
  labels : LabelTable
  instructions : List Line
  deriving DecidableEq, Repr

/-- The first pass between two lines: the labels and instructions so far, latest first, and the
number of instructions. -/
structure Resolver where
  labels : LabelTable := []
  instructions : List Line := []
  count : Nat := 0
  deriving DecidableEq, Repr

namespace Resolver

/-- Adds an instruction. -/
def emit (r : Resolver) (line : Line) : Resolver :=
  { r with instructions := line :: r.instructions, count := r.count + 1 }

/-- Binds a label to the next address. -/
def bind (r : Resolver) (name : Text) : Resolver :=
  { r with labels := (name, (r.count : Int)) :: r.labels }

/-- Takes in one line. -/
def step (r : Resolver) (line : Line) : Except Diagnostic Resolver :=
  match Statement.ofText line.text with
  | .instruction _ => .ok (r.emit line)
  | .unnamed => .error ⟨.unnamedLabel, line.number, line.text⟩
  | .label name rest =>
    if (r.labels.find? name).isSome then
      .error ⟨.duplicateLabel name, line.number, line.text⟩
    else if rest.isEmpty then .ok (r.bind name)
    else .ok ((r.bind name).emit ⟨line.number, rest⟩)

/-- The labels and instructions in order. -/
def finish (r : Resolver) : Resolution := ⟨r.labels.reverse, r.instructions.reverse⟩

end Resolver

/-- Resolves the labels of a program, or reports the first faulty definition. -/
def resolve (lines : List Line) : Except Diagnostic Resolution := do
  return (← lines.foldlM Resolver.step {}).finish

end Rsc
