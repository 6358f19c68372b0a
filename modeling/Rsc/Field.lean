import Rsc.Bits
import Rsc.Diagnostic
import Rsc.Literal

/-!
# Fields

An instruction word is made of fields. A field has a width, takes an operand token or none, says
whether a token fits, and turns a token into the number that goes into the word. Checking and
encoding read the token separately: encoding a token that was never checked may give a number that
is too wide, or none.
-/

namespace Rsc

/-- Label names with their addresses, in order of definition. -/
abbrev LabelTable := List (Text × Int)

/-- The address that a label is bound to. -/
def LabelTable.find? (labels : LabelTable) (name : Text) : Option Int := labels.lookup name

/-- The width of an instruction address. -/
def addressSize : Int := 10

/-- The number of a register token: `r` or `R`, then 0 to 15 without leading zeros. One line feed
may follow. -/
def registerIndex? : Text → Option Nat
  | [] => none
  | r :: t =>
    if r = 'r' ∨ r = 'R' then
      match if t.getLast? = some '\n' then t.dropLast else t with
      | [d] => if '0' ≤ d ∧ d ≤ '9' then some (d.toNat - 48) else none
      | ['1', d] => if '0' ≤ d ∧ d ≤ '5' then some (d.toNat - 38) else none
      | _ => none
    else none

/-- The names of the four branch conditions; the position of a group is its number. -/
def flagAliases : List (List Text) :=
  [["=".toList, "eq".toList, "z".toList, "zero".toList],
   ["!=".toList, "ne".toList, "nz".toList, "notzero".toList],
   [">=".toList, "ge".toList, "c".toList, "carry".toList],
   ["<".toList, "lt".toList, "nc".toList, "notcarry".toList]]

/-- The number of a branch condition given by name, in any case. -/
def flagIndex? (t : Text) : Option Nat :=
  flagAliases.findIdx? fun group => group.contains (Text.lower t)

/-- One field of an instruction word. -/
inductive Field where
  /-- A register, four bits. -/
  | register
  /-- An unsigned number. -/
  | unsigned (size : Int)
  /-- A signed number. A field that is not strict also takes the unsigned numbers of its width,
  since only the bits matter. -/
  | signed (size : Int) (strict : Bool)
  /-- Reserved bits, always zero. -/
  | blank (size : Int)
  /-- An instruction address, ten bits, as a number or a label. -/
  | address
  /-- A branch condition, two bits, as a number or a name. -/
  | flag
  deriving DecidableEq, Repr

namespace Field

/-- The width in bits. -/
def size : Field → Int
  | register => 4
  | unsigned size => size
  | signed size _ => size
  | blank size => size
  | address => addressSize
  | flag => 2

/-- Whether the field takes an operand. -/
def takesOperand : Field → Bool
  | blank _ => false
  | _ => true

/-- The least and greatest number of a signed field. -/
def signedBounds (size : Int) (strict : Bool) : Except Fault (Int × Int) := do
  let half ← Bits.shiftLeft 1 (size - 1)
  if strict then return (-half, half - 1)
  else return (-half, ← Bits.maxUnsigned size)

/-- Refuses a token. The numbers of a refusal have to be written out, so one that is too long
for decimal is a fault. -/
def reject (numbers : List Int) (rejection : Rejection) : Except Fault (Option Rejection) :=
  if numbers.all Numeral.writable then .ok (some rejection) else .error .numeralTooLong

/-- Whether a number was read and lies between two bounds. -/
def within (least greatest : Int) : Option Int → Bool
  | some v => least ≤ v && v ≤ greatest
  | none => false

/-- Says why a token does not fit the field, `none` if it does. -/
def check (labels : LabelTable) (token : Text) : Field → Except Fault (Option Rejection)
  | register =>
    if (registerIndex? token).isSome then .ok none else .ok (some .register)
  | unsigned size => do
    let value ← Literal.read token
    let greatest ← Bits.maxUnsigned size
    if within 0 greatest value then return none
    reject [size, greatest] (.unsigned size greatest)
  | signed size strict => do
    let value ← Literal.read token
    let (least, greatest) ← signedBounds size strict
    if within least greatest value then return none
    reject [size, least, greatest] (.signed strict size least greatest)
  | blank _ => .ok none
  | address => do
    let greatest ← Bits.maxUnsigned addressSize
    match token with
    | '.' :: name =>
      match labels.find? name with
      | none => return some (.undefinedLabel name)
      | some target =>
        if target ≤ greatest then return none
        reject [target] (.labelOutOfRange name target addressSize)
    | _ =>
      let value ← Literal.read token
      if within 0 greatest value then return none
      return some (.address greatest)
  | flag => do
    let value ← Literal.read token
    if within 0 3 value || (flagIndex? token).isSome then return none
    return some .flag

/-- The number that a token stands for in the field, `none` if it stands for none. -/
def encode (labels : LabelTable) (token : Text) : Field → Except Fault (Option Int)
  | register =>
    match registerIndex? token with
    | some index => .ok (some index)
    | none => do
      let value ← Literal.read token
      return some (Bits.low 4 (value.getD 0))
  | unsigned _ => Literal.read token
  | signed size _ => do
    let value ← Literal.read token
    let width ← Bits.width size
    match value with
    | none => .error .notInteger
    | some v => return some (Bits.low width v)
  | blank _ => .ok (some 0)
  | address =>
    match token with
    | '.' :: name =>
      match labels.find? name with
      | none => .error (.unboundLabel name)
      | some target => .ok (some target)
    | _ => Literal.read token
  | flag => do
    match ← Literal.read token with
    | some v => return some v
    | none => return (flagIndex? token).map Int.ofNat

end Field

end Rsc
