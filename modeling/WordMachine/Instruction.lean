import WordMachine.Registers

/-!
# Instructions

An instruction is a two-byte word.  The high nibble of its first byte is the
primary opcode.  Opcode 0 opens the extended group, whose operation is the low
nibble of the first byte; operation 9 of that group opens the stack group,
whose operation is the high nibble of the second byte.  Some operations of the
two groups are followed by a two-byte operand.

`Instruction` keeps the fields of a word side by side.  They overlap in the
word, so a value built by hand may hold fields that no word has.  Each reading
of a field therefore takes only the bits that belong to it.
-/

namespace WordMachine

/-- Primary opcodes, in the order of their encoding. -/
inductive Opcode where
  | extended
  | jump
  | getByte
  | setByte
  | orImmediate
  | or
  | and
  | xor
  | not
  | shiftLeft
  | shiftRight
  | add
  | sub
  | mul
  | div
  | mod
deriving DecidableEq, Repr, Inhabited

inductive ExtendedOp where
  | nop
  | compareEqual
  | compareGreater
  | compareLess
  | loadImmediate
  | jumpImmediate
  | copy
  | swap
  | jumpAlways
  | stack
  /-- An unassigned operation, which does nothing. -/
  | reserved (number : Byte)
deriving DecidableEq, Repr, Inhabited

inductive StackOp where
  | pushImmediate
  | pushRegister
  | popRegister
  | callAddress
  | callRegister
  | ret
  | storeAddress
  | loadAddress
  /-- An unassigned operation, which does nothing. -/
  | reserved (number : Byte)
deriving DecidableEq, Repr, Inhabited

namespace Opcode

def nibble : Opcode → Byte
  | extended => 0
  | jump => 1
  | getByte => 2
  | setByte => 3
  | orImmediate => 4
  | or => 5
  | and => 6
  | xor => 7
  | not => 8
  | shiftLeft => 9
  | shiftRight => 10
  | add => 11
  | sub => 12
  | mul => 13
  | div => 14
  | mod => 15

/-- The opcode of the low nibble; every nibble has one. -/
def ofNibble (field : Byte) : Opcode :=
  match field.lowNibble with
  | 0 => extended
  | 1 => jump
  | 2 => getByte
  | 3 => setByte
  | 4 => orImmediate
  | 5 => or
  | 6 => and
  | 7 => xor
  | 8 => not
  | 9 => shiftLeft
  | 10 => shiftRight
  | 11 => add
  | 12 => sub
  | 13 => mul
  | 14 => div
  | _ => mod

def mnemonic : Opcode → String
  | extended => "EOPS"
  | jump => "JMP"
  | getByte => "GM"
  | setByte => "SM"
  | orImmediate => "OR"
  | or => "ORR"
  | and => "AND"
  | xor => "XOR"
  | not => "NOT"
  | shiftLeft => "SHL"
  | shiftRight => "SHR"
  | add => "ADD"
  | sub => "SUB"
  | mul => "MUL"
  | div => "DIV"
  | mod => "MOD"

end Opcode

namespace ExtendedOp

def nibble : ExtendedOp → Byte
  | nop => 0
  | compareEqual => 1
  | compareGreater => 2
  | compareLess => 3
  | loadImmediate => 4
  | jumpImmediate => 5
  | copy => 6
  | swap => 7
  | jumpAlways => 8
  | stack => 9
  | reserved number => number.lowNibble

def ofNibble (field : Byte) : ExtendedOp :=
  match field.lowNibble with
  | 0 => nop
  | 1 => compareEqual
  | 2 => compareGreater
  | 3 => compareLess
  | 4 => loadImmediate
  | 5 => jumpImmediate
  | 6 => copy
  | 7 => swap
  | 8 => jumpAlways
  | 9 => stack
  | number => reserved number

end ExtendedOp

namespace StackOp

def nibble : StackOp → Byte
  | pushImmediate => 0
  | pushRegister => 1
  | popRegister => 2
  | callAddress => 3
  | callRegister => 4
  | ret => 5
  | storeAddress => 6
  | loadAddress => 7
  | reserved number => number.lowNibble

def ofNibble (field : Byte) : StackOp :=
  match field.lowNibble with
  | 0 => pushImmediate
  | 1 => pushRegister
  | 2 => popRegister
  | 3 => callAddress
  | 4 => callRegister
  | 5 => ret
  | 6 => storeAddress
  | 7 => loadAddress
  | number => reserved number

end StackOp

structure Instruction where
  opcode : Opcode
  /-- The low nibble of the first byte: a register, or the extended operation. -/
  regA : Byte
  /-- The high nibble of the second byte: a register, or the stack operation. -/
  regB : Byte
  /-- The low nibble of the first byte followed by the second byte. -/
  imm : Word
  secondByte : Byte
deriving DecidableEq, Repr, Inhabited

namespace Instruction

/-- The register named by the low nibble of the first byte. -/
def a (instr : Instruction) : Register := .ofField instr.regA

/-- The register named by the high nibble of the second byte. -/
def b (instr : Instruction) : Register := .ofField instr.regB

def lowField (instr : Instruction) : Byte := instr.secondByte.lowNibble

/-- The register named by the low nibble of the second byte. -/
def low (instr : Instruction) : Register := .ofField instr.lowField

/-- Has a meaning for opcode 0 only. -/
def extendedOp (instr : Instruction) : ExtendedOp := .ofNibble instr.regA

/-- Has a meaning for the stack group only. -/
def stackOp (instr : Instruction) : StackOp := .ofNibble instr.regB

def operandLength (instr : Instruction) : Word :=
  match instr.opcode with
  | .extended =>
    match instr.extendedOp with
    | .loadImmediate | .jumpImmediate | .jumpAlways => 2
    | .stack =>
      match instr.stackOp with
      | .pushImmediate | .callAddress | .storeAddress | .loadAddress => 2
      | _ => 0
    | _ => 0
  | _ => 0

/-- DIV and MOD have no result when the divisor is zero. -/
def dividesByZero (instr : Instruction) (regs : Registers) : Bool :=
  (instr.opcode == .div || instr.opcode == .mod) && regs.get instr.b == 0

end Instruction

end WordMachine
