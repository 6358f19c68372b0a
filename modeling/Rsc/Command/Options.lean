import Rsc.Command.Format
import Rsc.Text.Digit
import Rsc.Text.Quoted

/-!
# Options

The command line. Options may be shortened to any unambiguous beginning, single letters may be
run together, values may be attached or follow, and after `--` everything is an operand. There
is one operand, the input file.

Readers of such command lines, also releases of one and the same reader, differ in a few corners.
The reading modelled here is this one:

* An equals sign right behind the first letter of an argument is dropped, whatever the letter:
  `-o=x` is `-ox`, and `-v=h` is `-vh`, which shows the help. A later one belongs to the value:
  `-vo=x` writes to the file `=x`.
* A letter that is no option is refused as a value of the letter before it, before any letter of
  the argument is carried out: `-hx` is a misuse and shows no help.
* The separator as an attached value leaves its option unset: after `--output=--` there is no
  output file, after `--format=--` no format was chosen.
* A beginning that fits several options is reported before any argument is carried out.
-/

namespace Rsc.Command

/-- The options of the command. -/
inductive Switch where
  | help
  | output
  | format
  | verbose
  | version
  deriving DecidableEq, Repr

namespace Switch

/-- The options in the order in which they are offered. -/
def all : List Switch := [help, output, format, verbose, version]

/-- The long spelling. -/
def long : Switch → Text
  | help => "--help".toList
  | output => "--output".toList
  | format => "--format".toList
  | verbose => "--verbose".toList
  | version => "--version".toList

/-- The letter, if there is one. -/
def letter? : Switch → Option Char
  | help => some 'h'
  | output => some 'o'
  | verbose => some 'v'
  | format => none
  | version => none

/-- The option of a letter. -/
def ofLetter? (c : Char) : Option Switch := all.find? fun s => s.letter? = some c

/-- How messages name an option: all its spellings. -/
def label : Switch → Text
  | help => "-h/--help".toList
  | output => "-o/--output".toList
  | format => "--format".toList
  | verbose => "--verbose/-v".toList
  | version => "--version".toList

/-- Whether an option has a value. -/
def takesValue : Switch → Bool
  | output => true
  | format => true
  | _ => false

end Switch

/-- Why a command line is refused. -/
inductive Misuse where
  /-- A shortened option that could be several. -/
  | ambiguous (argument : Text) (candidates : List Switch)
  /-- An option that lacks its value. -/
  | valueMissing (switch : Switch)
  /-- A value attached to an option that takes none. -/
  | valueIgnored (switch : Switch) (value : Text)
  /-- A format of an unknown name. -/
  | unknownFormat (name : Text)
  /-- No input file. -/
  | inputMissing
  /-- Arguments that mean nothing. -/
  | unrecognized (arguments : List Text)
  deriving DecidableEq, Repr

/-- The wording of a refusal. -/
def Misuse.message : Misuse → Text
  | ambiguous argument candidates =>
    "ambiguous option: ".toList ++ argument ++ " could match ".toList
      ++ Text.join ", ".toList (candidates.map Switch.long)
  | valueMissing switch =>
    "argument ".toList ++ switch.label ++ ": expected one argument".toList
  | valueIgnored switch value =>
    "argument ".toList ++ switch.label ++ ": ignored explicit argument ".toList
      ++ Text.quoted value
  | unknownFormat name =>
    "argument ".toList ++ Switch.format.label ++ ": invalid choice: ".toList ++ Text.quoted name
      ++ " (choose from ".toList
      ++ Text.join ", ".toList (Format.all.map fun format => Text.quoted format.name)
      ++ ")".toList
  | inputMissing => "the following arguments are required: input".toList
  | unrecognized arguments =>
    "unrecognized arguments: ".toList ++ Text.join " ".toList arguments

/-- The argument after which there are operands only. -/
def separator : Text := "--".toList

/-- An argument by its shape. -/
inductive Argument where
  /-- Text that is no option. -/
  | operand (text : Text)
  /-- The first `--`, after which there are operands only. -/
  | separator
  /-- A long option, with the value attached after an equals sign. -/
  | long (switch : Switch) (value : Option Text)
  /-- A letter option, with what is attached to the letter; an equals sign between the two does
  not count. -/
  | letters (switch : Switch) (attached : Option Text)
  /-- An option of no known spelling. -/
  | unknown (text : Text)
  deriving DecidableEq, Repr

/-- Whether a text reads as a negative number: a minus sign and digits, with an optional point
before the last of them. One line feed may follow. -/
def isNegativeNumber : Text → Bool
  | '-' :: t =>
    let body := if t.getLast? = some '\n' then t.dropLast else t
    let whole := body.takeWhile Text.isDecimalDigit
    match body.dropWhile Text.isDecimalDigit with
    | [] => !whole.isEmpty
    | '.' :: fraction => !fraction.isEmpty && fraction.all Text.isDecimalDigit
    | _ => false
  | _ => false

/-- Splits an argument at its first equals sign. -/
def splitValue (argument : Text) : Text × Option Text :=
  match argument.dropWhile (· != '=') with
  | [] => (argument, none)
  | _ :: value => (argument.takeWhile (· != '='), some value)

/-- An argument that looks like an option and is none: negative numbers and texts with spaces
are operands. -/
def unmatched (argument : Text) : Argument :=
  if isNegativeNumber argument || argument.contains ' ' then .operand argument
  else .unknown argument

/-- Reads a long option: its full spelling, or a beginning that fits one option only. -/
def classifyLong (argument : Text) : Except Misuse Argument :=
  let (name, value) := splitValue argument
  match Switch.all.find? fun s => s.long == name with
  | some s => .ok (.long s value)
  | none =>
    match Switch.all.filter fun s => name.isPrefixOf s.long with
    | [] => .ok (unmatched argument)
    | [s] => .ok (.long s value)
    | candidates => .error (.ambiguous argument candidates)

/-- What is attached to the letter of an option. -/
def attachment : Text → Option Text
  | [] => none
  | '=' :: value => some value
  | rest => some rest

/-- Tells the shape of an argument before the separator. -/
def classify (argument : Text) : Except Misuse Argument :=
  match argument with
  | '-' :: '-' :: _ => classifyLong argument
  | '-' :: c :: rest =>
    match Switch.ofLetter? c with
    | some s => .ok (.letters s (attachment rest))
    | none => .ok (unmatched argument)
  | _ => .ok (.operand argument)

/-- Tells the shapes of all arguments. -/
def classifyAll : List Text → Except Misuse (List Argument)
  | [] => .ok []
  | argument :: rest =>
    if argument = separator then .ok (.separator :: rest.map .operand)
    else do
      let first ← classify argument
      return first :: (← classifyAll rest)

/-- How an option argument ends. -/
inductive Ending where
  /-- With nothing more. -/
  | complete
  /-- With an option whose value is attached. -/
  | value (switch : Switch) (text : Text)
  /-- With an option whose value is the next argument. -/
  | awaiting (switch : Switch)
  deriving DecidableEq, Repr

/-- Reads an option with nothing attached. -/
def readBare (switch : Switch) : List Switch × Ending :=
  if switch.takesValue then ([], .awaiting switch) else ([switch], .complete)

/-- Reads an option and the letters that follow it in the same argument: the options without
values, and the ending. The first option with a value takes all that follows as its value. -/
def readLetters (switch : Switch) : Text → Except Misuse (List Switch × Ending)
  | [] => .ok (readBare switch)
  | c :: rest =>
    if switch.takesValue then .ok ([], .value switch (c :: rest))
    else match Switch.ofLetter? c with
      | none => .error (.valueIgnored switch (c :: rest))
      | some next => do
        let (switches, ending) ← readLetters next rest
        return (switch :: switches, ending)

/-- Reads an option with the value attached to it, which only an option with a value may have. -/
def readLong (switch : Switch) : Option Text → Except Misuse (List Switch × Ending)
  | none => .ok (readBare switch)
  | some value =>
    if switch.takesValue then .ok ([], .value switch value)
    else .error (.valueIgnored switch value)

/-- Reads a letter option. What is attached, if not empty, may be more letters. -/
def readShort (switch : Switch) : Option Text → Except Misuse (List Switch × Ending)
  | some (c :: rest) => readLetters switch (c :: rest)
  | attached => readLong switch attached

/-- What the command is asked to do with a program. -/
structure Request where
  input : Text
  output : Option Text
  format : Option Format
  verbosity : Nat
  deriving DecidableEq, Repr

/-- What a command line asks for. -/
inductive Plan where
  | misuse (problem : Misuse)
  | help
  | version
  | assemble (request : Request)
  deriving DecidableEq, Repr

/-- The arguments taken in so far. -/
structure Settings where
  input : Option Text := none
  output : Option Text := none
  format : Option Format := none
  verbosity : Nat := 0
  /-- Arguments that mean nothing. -/
  extras : List Text := []
  /-- Options to carry out once the last of them has its value. -/
  waiting : Option (List Switch × Switch) := none
  /-- Whether the last argument was the input file. -/
  fresh : Bool := false
  deriving DecidableEq, Repr

namespace Settings

/-- Notes an argument that means nothing. -/
def addExtra (s : Settings) (text : Text) : Settings := { s with extras := s.extras ++ [text] }

/-- Carries out options without values; asking for help or the version ends the reading. -/
def apply (s : Settings) : List Switch → Except Plan Settings
  | [] => .ok s
  | .help :: _ => .error .help
  | .version :: _ => .error .version
  | .verbose :: rest => { s with verbosity := s.verbosity + 1 }.apply rest
  | _ :: rest => s.apply rest

/-- Sets an option to a value. The separator as a value takes an earlier setting back. -/
def assign (s : Settings) (switch : Switch) (value : Text) : Except Plan Settings :=
  match switch with
  | .output => .ok { s with output := if value = separator then none else some value }
  | .format =>
    if value = separator then .ok { s with format := none }
    else match Format.ofName? value with
      | some format => .ok { s with format := some format }
      | none => .error (.misuse (.unknownFormat value))
  | _ => .ok s

/-- Carries out the options of one argument, unless the last of them waits for its value. -/
def conclude (s : Settings) (switches : List Switch) : Ending → Except Plan Settings
  | .complete => s.apply switches
  | .value switch value => do (← s.apply switches).assign switch value
  | .awaiting switch => .ok { s with waiting := some (switches, switch) }

/-- Takes in an argument when no option waits for a value. The first operand is the input file,
and a separator next to it is dropped. -/
def accept (s : Settings) : Argument → Except Plan Settings
  | .operand text =>
    if s.input.isNone then .ok { s with input := some text, fresh := true }
    else .ok ({ s with fresh := false }.addExtra text)
  | .separator =>
    if s.input.isNone || s.fresh then .ok { s with fresh := false }
    else .ok (s.addExtra Command.separator)
  | .unknown text => .ok ({ s with fresh := false }.addExtra text)
  | .long switch value => do
    let (switches, ending) ← (readLong switch value).mapError .misuse
    { s with fresh := false }.conclude switches ending
  | .letters switch attached => do
    let (switches, ending) ← (readShort switch attached).mapError .misuse
    { s with fresh := false }.conclude switches ending

/-- Takes in an argument. -/
def step (s : Settings) (argument : Argument) : Except Plan Settings :=
  match s.waiting, argument with
  | none, argument => s.accept argument
  | some (switches, switch), .operand value => do
    (← { s with waiting := none }.apply switches).assign switch value
  | some (_, switch), _ => .error (.misuse (.valueMissing switch))

/-- What the settings amount to. -/
def plan (s : Settings) : Plan :=
  match s.waiting, s.input with
  | some (_, switch), _ => .misuse (.valueMissing switch)
  | none, none => .misuse .inputMissing
  | none, some input =>
    if s.extras.isEmpty then .assemble ⟨input, s.output, s.format, s.verbosity⟩
    else .misuse (.unrecognized s.extras)

end Settings

/-- Reads a command line. -/
def Plan.ofArguments (arguments : List Text) : Plan :=
  match classifyAll arguments with
  | .error problem => .misuse problem
  | .ok shapes =>
    match shapes.foldlM Settings.step {} with
    | .error plan => plan
    | .ok settings => settings.plan

end Rsc.Command
