import Rsc.Field

/-!
# Instructions

A word is sixteen bits: a four-bit opcode and below it the fields of the instruction, the first
field highest. Base instructions have an opcode; shorthands have none and expand to the operands
of one base instruction.
-/

namespace Rsc

/-- The width of an instruction word. -/
def wordSize : Nat := 16

/-- The width of an opcode. -/
def opcodeSize : Nat := 4

/-- An instruction with an opcode and fields of its own. -/
structure BaseInstruction where
  mnemonic : Text
  opcode : Int
  fields : List Field
  deriving DecidableEq, Repr

/-- An operand of an expansion: one of the operands given, or a fixed token. -/
inductive Slot where
  | operand (index : Nat)
  | fixed (token : Text)
  deriving DecidableEq, Repr

/-- An instruction that stands for a base instruction with rearranged operands. -/
structure Shorthand where
  mnemonic : Text
  fields : List Field
  base : BaseInstruction
  expansion : List Slot
  deriving DecidableEq, Repr

/-- Checks the number of operands against the fields that take one, then each operand from the
left. The first problem is the answer. -/
def checkOperands (labels : LabelTable) (fields : List Field) (operands : List Text) :
    Except Fault (Option Cause) := do
  let taking := fields.filter Field.takesOperand
  if operands.length ≠ taking.length then
    return some (.arity taking.length operands.length)
  (taking.zip operands).findSomeM? fun (field, token) => do
    return (← field.check labels token).map (Cause.operand token)

/-- The number that a field contributes to the word; there must be one. -/
def Field.value (labels : LabelTable) (token : Text) (field : Field) : Except Fault Int := do
  match ← field.encode labels token with
  | some v => return v
  | none => .error .notInteger

/-- Appends the fields to the code so far, taking operands from the left, and finally moves the
code up by the room that is left. -/
def pack (labels : LabelTable) : List Field → List Text → Int → Int → Except Fault Int
  | [], _, code, room => Bits.shiftLeft code room
  | field :: fields, operands, code, room =>
    if field.takesOperand then
      match operands with
      | [] => .error .operandsExhausted
      | token :: operands => do
        let size ← Bits.width field.size
        let value ← field.value labels token
        pack labels fields operands (Bits.append code size value) (room - field.size)
    else do
      let size ← Bits.width field.size
      let value ← field.value labels []
      pack labels fields operands (Bits.append code size value) (room - field.size)

/-- The word of a base instruction. -/
def BaseInstruction.encode (b : BaseInstruction) (labels : LabelTable) (operands : List Text) :
    Except Fault Int :=
  pack labels b.fields operands b.opcode (wordSize - opcodeSize)

/-- The token that a slot stands for. -/
def Slot.fill (operands : List Text) : Slot → Except Fault Text
  | operand index =>
    match operands[index]? with
    | some token => .ok token
    | none => .error .operandMissing
  | fixed token => .ok token

/-- The operands of the base instruction that a shorthand stands for. -/
def Shorthand.expand (s : Shorthand) (operands : List Text) : Except Fault (List Text) :=
  s.expansion.mapM (Slot.fill operands)

/-- The word of a shorthand. -/
def Shorthand.encode (s : Shorthand) (labels : LabelTable) (operands : List Text) :
    Except Fault Int := do
  s.base.encode labels (← s.expand operands)

/-- An instruction of either kind. -/
inductive Instruction where
  | base (instruction : BaseInstruction)
  | shorthand (instruction : Shorthand)
  deriving DecidableEq, Repr

namespace Instruction

/-- The name of the instruction. -/
def mnemonic : Instruction → Text
  | base b => b.mnemonic
  | shorthand s => s.mnemonic

/-- The fields that its operands are checked against. -/
def fields : Instruction → List Field
  | base b => b.fields
  | shorthand s => s.fields

/-- Says what is wrong with the operands, `none` if nothing is. -/
def check (i : Instruction) (labels : LabelTable) (operands : List Text) :
    Except Fault (Option Cause) :=
  checkOperands labels i.fields operands

/-- The word of the instruction. -/
def encode (i : Instruction) (labels : LabelTable) (operands : List Text) : Except Fault Int :=
  match i with
  | base b => b.encode labels operands
  | shorthand s => s.encode labels operands

end Instruction

end Rsc
