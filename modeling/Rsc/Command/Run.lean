import Rsc.Command.FileSystem
import Rsc.Command.Log
import Rsc.Command.Options
import Rsc.Command.Usage
import Rsc.Listing
import Rsc.Rom.Export

/-!
# Running the command

The command reads one file, and prints the result or writes it to one file. Everything between
reading and writing is computed first, as an effect still to be carried out; a run that fails
prints nothing on standard output and changes no file.
-/

namespace Rsc.Command

/-- What a finished run shows: its status and what it printed. -/
structure Outcome where
  status : Nat
  stdout : Bytes := []
  stderr : Text := []
  deriving DecidableEq, Repr

/-- What is left to do after the input is read. -/
inductive Effect where
  /-- Nothing. -/
  | finish (outcome : Outcome)
  /-- To write a file, with the outcome if that works and if it does not. -/
  | store (path : Text) (contents : Bytes) (stored : Outcome) (refused : FileFault → Outcome)

/-- Ends a run with a message on standard error. -/
def complain (status : Nat) (records message : Text) : Outcome :=
  { status := status, stderr := records ++ message ++ ['\n'] }

/-- Ends a run that broke down. A verbose run says where. -/
def breakDown (verbosity : Nat) (records message : Text) : Outcome :=
  let trace := if verbosity = 0 then [] else "<traceback>".toList
  { status := 2
    stderr := records ++ "Internal assembler error: ".toList ++ message ++ ['\n'] ++ trace }

/-- Ends a run that could not open a file. -/
def refuseFile (verbosity : Nat) (records path : Text) (fault : FileFault) : Outcome :=
  match fault with
  | .notFound => complain 1 records ("Error: File not found: ".toList ++ path)
  | .embeddedNul => breakDown verbosity records fault.summary
  | _ =>
    complain 1 records ("Error: ".toList ++ fault.summary ++ ": ".toList ++ Text.quoted path)

/-- Ends a run whose program failed. -/
def refuseProgram (verbosity : Nat) (records : Text) : Failure → Outcome
  | .reported diagnostic =>
    complain 1 records ("Assembler error: ".toList ++ diagnostic.message)
  | .broken fault => breakDown verbosity records fault.message

namespace Request

/-- The output file. An empty path is none. -/
def outputPath? (r : Request) : Option Text := r.output.filter fun path => !path.isEmpty

/-- The format asked for, or told by the output file, or binary text. -/
def outputFormat (r : Request) : Format :=
  match r.format, r.outputPath? with
  | some format, _ => format
  | none, some path => Format.ofPath path
  | none, none => .words .binary

/-- The path that the input is read from. -/
def inputPath (r : Request) : Text := Path.normalize r.input

/-- A layout goes to a file only. -/
def lacksOutput (r : Request) : Bool := r.outputFormat == .layout && r.outputPath?.isNone

/-- A text as it is printed: with a line end after it, unless it is empty. -/
def printed (t : Text) : Text := if t.isEmpty then [] else t ++ ['\n']

/-- A text as it is stored in a file: a line end is added if the text is not empty and has none. -/
def stored (t : Text) : Text :=
  if t.isEmpty || t.getLast? == some '\n' then t else t ++ ['\n']

/-- The bytes of a program in a format, with its text brought to an end by `finish`. -/
def contents (finish : Text → Text) (format : Format) (program : Program) :
    Except Failure Bytes :=
  match format with
  | .words f => .ok (Utf8.encode (finish (renderWords f program.words)))
  | .listing => .ok (Utf8.encode (finish (renderListing program.listing)))
  | .raw => (rawImage program.words).mapError .broken
  | .layout =>
    match Rom.layout program.words with
    | .error diagnostic => .error (.reported diagnostic)
    | .ok l => .ok (Utf8.encode (l.render {}))

/-- What to do with a program that is printed. -/
def print (r : Request) (records : List Record) (program : Program) : Effect :=
  let progress := renderRecords r.verbosity records
  match contents printed r.outputFormat program with
  | .error failure => .finish (refuseProgram r.verbosity progress failure)
  | .ok bytes => .finish { status := 0, stdout := bytes, stderr := progress }

/-- What to do with a program that goes to a file. -/
def store (r : Request) (records : List Record) (program : Program) (path : Text) : Effect :=
  let size := program.words.length
  let (path, before, after) :=
    if r.outputFormat = .layout then
      (Path.normalize path, records ++ placementRecords size,
        layoutRecord (Path.normalize path) (size * Rom.blocksPerWord))
    else (path, records, outputRecord path r.outputFormat.name size)
  let progress := renderRecords r.verbosity before
  match contents stored r.outputFormat program with
  | .error failure => .finish (refuseProgram r.verbosity progress failure)
  | .ok bytes =>
    .store path bytes { status := 0, stderr := progress ++ renderRecords r.verbosity [after] }
      (refuseFile r.verbosity progress path)

/-- What to do with an assembled program. -/
def deliver (r : Request) (records : List Record) (program : Program) : Effect :=
  match r.outputPath? with
  | none => r.print records program
  | some path => r.store records program path

/-- What to do once the input is read, or could not be. -/
def effect (r : Request) (input : Except FileFault Bytes) : Effect :=
  match input with
  | .error fault => .finish (refuseFile r.verbosity [] r.inputPath fault)
  | .ok bytes =>
    match readLines bytes with
    | .error reason =>
      .finish (complain 1 [] ("Error: ".toList ++ r.input ++ " is not UTF-8 text: ".toList
        ++ reason.message))
    | .ok lines =>
      let records := readRecord r.inputPath lines.length :: assemblyRecords lines
      match assemble lines with
      | .error failure =>
        .finish (refuseProgram r.verbosity (renderRecords r.verbosity records) failure)
      | .ok program => r.deliver records program

end Request

/-- The outcome of a plan that needs no file, or the request that does. -/
def Plan.outcome : Plan → Outcome ⊕ Request
  | .misuse problem =>
    .inl { status := 2
           stderr := usageText ++ "rscasm: error: ".toList ++ problem.message ++ ['\n'] }
  | .help => .inl { status := 0, stdout := Utf8.encode helpText }
  | .version => .inl { status := 0, stdout := Utf8.encode versionText }
  | .assemble request =>
    if request.lacksOutput then
      .inl (complain 1 [] "Error: layout output requires -o <file.json>".toList)
    else .inr request

/-- Carries out an effect. -/
def Effect.run (fs : FileSystem) : Effect → Outcome × FileSystem
  | .finish outcome => (outcome, fs)
  | .store path contents stored refused =>
    match fs.write path contents with
    | .ok after => (stored, after)
    | .error fault => (refused fault, fs)

/-- Runs the command in a file system. -/
def run (arguments : List Text) (fs : FileSystem) : Outcome × FileSystem :=
  match (Plan.ofArguments arguments).outcome with
  | .inl outcome => (outcome, fs)
  | .inr request => (request.effect (fs.read request.inputPath)).run fs

end Rsc.Command
