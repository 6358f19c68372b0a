import Rsc.Catalog
import Rsc.Label
import Rsc.Text.Utf8

/-!
# Programs

Assembling runs in two passes: labels are resolved first, then every instruction is looked up,
checked against the complete label table and encoded. The first problem ends the run, and a run
that fails gives no program.
-/

namespace Rsc

/-- One word of a program, with its address and the line it came from. -/
structure Entry where
  address : Int
  word : Int
  source : Line
  deriving DecidableEq, Repr

/-- An assembled program. -/
structure Program where
  labels : LabelTable := []
  listing : List Entry := []
  deriving DecidableEq, Repr

/-- The machine words, in order of address. -/
def Program.words (p : Program) : List Int := p.listing.map Entry.word

/-- The number of addresses. -/
def maxProgramSize : Nat := 1024

/-- Looks up, checks and encodes the instruction on a line. -/
def encodeLine (labels : LabelTable) (line : Line) : Except Failure Int :=
  match Text.tokens line.text with
  | [] => .error (.broken .operandMissing)
  | mnemonic :: operands =>
    match Catalog.lookup mnemonic with
    | none => .error (.reported ⟨.unknownMnemonic mnemonic, line.number, line.text⟩)
    | some instruction =>
      match instruction.check labels operands with
      | .error fault => .error (.broken fault)
      | .ok (some cause) => .error (.reported ⟨cause, line.number, line.text⟩)
      | .ok none =>
        match instruction.encode labels operands with
        | .error fault => .error (.broken fault)
        | .ok word => .ok word

/-- The listing entry of the instruction at an address. -/
def encodeEntry (labels : LabelTable) (item : Line × Nat) : Except Failure Entry := do
  return ⟨item.2, ← encodeLine labels item.1, item.1⟩

/-- Refuses a program with more instructions than addresses, at the first one without. -/
def checkSize (instructions : List Line) : Except Failure Unit :=
  match instructions[maxProgramSize]? with
  | none => .ok ()
  | some line =>
    .error (.reported
      ⟨.programTooLarge instructions.length maxProgramSize, line.number, line.text⟩)

/-- Assembles raw source lines. -/
def assemble (raw : List Text) : Except Failure Program := do
  let resolution ← (resolve (cleanLines raw)).mapError .reported
  checkSize resolution.instructions
  let listing ← resolution.instructions.zipIdx.mapM (encodeEntry resolution.labels)
  return ⟨resolution.labels, listing⟩

/-- Assembles a source text. -/
def assembleText (source : Text) : Except Failure Program := assemble (Text.lines source)

/-- The lines of a program file. -/
def readLines (contents : Bytes) : Except Utf8.Malformed (List Text) := do
  return Text.lines (Text.unifyNewlines (← Utf8.decode contents))

/-- How assembling a file fails: its bytes are no text, or its program fails. -/
inductive FileFailure where
  | malformed (reason : Utf8.Malformed)
  | program (failure : Failure)
  deriving DecidableEq, Repr

/-- Assembles the contents of a program file. -/
def assembleFile (contents : Bytes) : Except FileFailure Program := do
  let lines ← (readLines contents).mapError .malformed
  (assemble lines).mapError .program

end Rsc
