import Rsc.Fault

/-!
# Diagnostics

What is wrong with a program: a cause and the source line it was found on. Checks of operands
give causes alone; the run that meets one attaches the line.
-/

namespace Rsc

/-- A text between single quotes. -/
def Text.quote (t : Text) : Text := "'".toList ++ t ++ "'".toList

/-- Why an operand does not fit its field. -/
inductive Rejection where
  /-- Not the name of a register. -/
  | register
  /-- Not an unsigned number of `size` bits. -/
  | unsigned (size greatest : Int)
  /-- Not a signed number of `size` bits, between the bounds. -/
  | signed (strict : Bool) (size least greatest : Int)
  /-- A label that is defined nowhere. -/
  | undefinedLabel (name : Text)
  /-- A label whose address needs more than `size` bits. -/
  | labelOutOfRange (name : Text) (target size : Int)
  /-- Neither a label nor an address. -/
  | address (greatest : Int)
  /-- Not a branch condition. -/
  | flag
  /-- A reason in words. -/
  | stated (reason : Text)
  deriving DecidableEq, Repr

/-- The wording of a rejection of `token`. -/
def Rejection.message (token : Text) : Rejection → Text
  | register => Text.quote token ++ " does not match any known register.".toList
  | unsigned size greatest =>
    Text.quote token ++ " is not a valid ".toList ++ Numeral.decimal size
      ++ "-bit unsigned integer (expected 0 to ".toList ++ Numeral.decimal greatest
      ++ ").".toList
  | signed strict size least greatest =>
    Text.quote token ++ " is not a valid ".toList ++ Numeral.decimal size ++ "-bit ".toList
      ++ (if strict then "signed".toList else "signed or unsigned".toList)
      ++ " integer (expected ".toList ++ Numeral.decimal least ++ " to ".toList
      ++ Numeral.decimal greatest ++ ").".toList
  | undefinedLabel name => "Label ".toList ++ Text.quote name ++ " is not defined.".toList
  | labelOutOfRange name target size =>
    "Label ".toList ++ Text.quote name ++ " resolves to address ".toList
      ++ Numeral.decimal target ++ ", outside the ".toList ++ Numeral.decimal size
      ++ "-bit address space.".toList
  | address greatest =>
    Text.quote token
      ++ " is neither a label nor a valid instruction address (expected 0 to ".toList
      ++ Numeral.decimal greatest ++ ").".toList
  | flag => Text.quote token ++ " does not match any known flag.".toList
  | stated reason => reason

/-- What is wrong, apart from where. -/
inductive Cause where
  /-- A failure described in words only. -/
  | stated (reason : Text)
  /-- A mnemonic that no instruction has. -/
  | unknownMnemonic (mnemonic : Text)
  /-- A number of operands other than the instruction takes. -/
  | arity (expected actual : Int)
  /-- An operand that does not fit its field. -/
  | operand (token : Text) (rejection : Rejection)
  /-- A malformed label definition. -/
  | label (reason : Text)
  /-- A label that is defined a second time. -/
  | duplicateLabel (name : Text)
  /-- More instructions than addresses. -/
  | programTooLarge (count limit : Int)
  /-- Words that the ROM cannot hold. -/
  | layout (reason : Text)
  deriving DecidableEq, Repr

namespace Cause

/-- The wording of a cause. -/
def message : Cause → Text
  | stated reason => reason
  | unknownMnemonic mnemonic =>
    Text.quote mnemonic ++ " does not match any known instruction.".toList
  | arity expected actual =>
    "Too ".toList ++ (if actual > expected then "many".toList else "few".toList)
      ++ " arguments: expected ".toList ++ Numeral.decimal expected ++ ", got ".toList
      ++ Numeral.decimal actual ++ ".".toList
  | operand token rejection => rejection.message token
  | label reason => reason
  | duplicateLabel name => "Label ".toList ++ Text.quote name ++ " is already defined.".toList
  | programTooLarge count limit =>
    "Program too large: ".toList ++ Numeral.decimal count
      ++ " instructions, address space holds ".toList ++ Numeral.decimal limit ++ ".".toList
  | layout reason => reason

/-- A label definition without a name. -/
def unnamedLabel : Cause := .label "Label definition is missing a name.".toList

/-- More words than the ROM has places for. -/
def tooManyWords (count limit : Int) : Cause :=
  .layout ("Too many instructions (".toList ++ Numeral.decimal count ++ "/".toList
    ++ Numeral.decimal limit ++ "), cannot generate layout.".toList)

end Cause

/-- A cause with the number and text of its source line. Line 0 stands for no line. -/
structure Diagnostic where
  cause : Cause
  line : Int := 0
  text : Text := []
  deriving DecidableEq, Repr

namespace Diagnostic

/-- Moves a diagnostic to another line. -/
def atLine (d : Diagnostic) (line : Int) (text : Text) : Diagnostic :=
  { d with line := line, text := text }

/-- The full wording: the line number, if there is one, and the cause. -/
def message (d : Diagnostic) : Text :=
  if d.line = 0 then d.cause.message
  else "Line ".toList ++ Numeral.decimal d.line ++ ": ".toList ++ d.cause.message

end Diagnostic

/-- How an operation on a whole program fails. -/
inductive Failure where
  /-- The program is wrong. -/
  | reported (diagnostic : Diagnostic)
  /-- The operation broke down. -/
  | broken (fault : Fault)
  deriving DecidableEq, Repr

end Rsc
