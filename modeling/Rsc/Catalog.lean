import Rsc.Instruction

/-!
# The instruction catalog

Fourteen base instructions and seven shorthands. Mnemonics are looked up in capitals.
-/

namespace Rsc.Catalog

/-- Three register fields, as the two-operand arithmetic takes them. -/
def threeRegisters : List Field := [.register, .register, .register]

def nop : BaseInstruction := ⟨"NOP".toList, 0, []⟩
def hlt : BaseInstruction := ⟨"HLT".toList, 1, []⟩
def add : BaseInstruction := ⟨"ADD".toList, 2, threeRegisters⟩
def sub : BaseInstruction := ⟨"SUB".toList, 3, threeRegisters⟩
def nor : BaseInstruction := ⟨"NOR".toList, 4, threeRegisters⟩
def and : BaseInstruction := ⟨"AND".toList, 5, threeRegisters⟩
def xor : BaseInstruction := ⟨"XOR".toList, 6, threeRegisters⟩
def rsh : BaseInstruction := ⟨"RSH".toList, 7, [.register, .register]⟩
def ldi : BaseInstruction := ⟨"LDI".toList, 8, [.register, .unsigned 8]⟩
def adi : BaseInstruction := ⟨"ADI".toList, 9, [.register, .signed 8 false]⟩
def jmp : BaseInstruction := ⟨"JMP".toList, 10, [.blank 2, .address]⟩
def brc : BaseInstruction := ⟨"BRC".toList, 11, [.flag, .address]⟩
def red : BaseInstruction := ⟨"RED".toList, 12, [.register, .register, .signed 4 true]⟩
def wrt : BaseInstruction := ⟨"WRT".toList, 13, [.register, .register, .signed 4 true]⟩

/-- Register zero, which reads as zero. -/
def r0 : Slot := .fixed "r0".toList

def mov : Shorthand :=
  ⟨"MOV".toList, [.register, .register], add, [.operand 0, .operand 1, r0]⟩
def inc : Shorthand := ⟨"INC".toList, [.register], adi, [.operand 0, .fixed "1".toList]⟩
def dec : Shorthand := ⟨"DEC".toList, [.register], adi, [.operand 0, .fixed "-1".toList]⟩
def cmp : Shorthand :=
  ⟨"CMP".toList, [.register, .register], sub, [r0, .operand 0, .operand 1]⟩
def lsh : Shorthand :=
  ⟨"LSH".toList, [.register, .register], add, [.operand 0, .operand 1, .operand 1]⟩
def not : Shorthand :=
  ⟨"NOT".toList, [.register, .register], xor,
    [.operand 0, .operand 1, .fixed "0xFF".toList]⟩
def neg : Shorthand :=
  ⟨"NEG".toList, [.register, .register], sub, [.operand 0, r0, .operand 1]⟩

/-- The base instructions in order of their opcodes. -/
def base : List BaseInstruction :=
  [nop, hlt, add, sub, nor, and, xor, rsh, ldi, adi, jmp, brc, red, wrt]

/-- The shorthands. -/
def shorthands : List Shorthand := [mov, inc, dec, cmp, lsh, not, neg]

/-- Every instruction, base instructions first. -/
def all : List Instruction := base.map .base ++ shorthands.map .shorthand

/-- The instruction with a mnemonic, whatever the case of its letters. -/
def lookup (mnemonic : Text) : Option Instruction :=
  all.find? fun i => i.mnemonic == Text.upper mnemonic

end Rsc.Catalog
