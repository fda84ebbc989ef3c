import WordMachine.Instruction

/-!
# Instruction words

`decode` takes the fields of a two-byte word apart and `Instruction.bytes`
puts them together again; every word is an instruction.  The encoders build the
words of each group from operation and registers, of which they use the low
nibbles.
-/

namespace WordMachine

abbrev InstructionWord := Byte × Byte

namespace Instruction

def decode (first second : Byte) : Instruction where
  opcode := .ofNibble first.highNibble
  regA := first.lowNibble
  regB := second.highNibble
  imm := Word.ofBytes second first.lowNibble
  secondByte := second

def bytes (instr : Instruction) : InstructionWord :=
  (Byte.ofNibbles instr.opcode.nibble instr.regA, instr.secondByte)

end Instruction

namespace InstructionWord

def primary (op : Opcode) (a b : Byte) : InstructionWord :=
  (Byte.ofNibbles op.nibble a, Byte.ofNibbles b 0)

/-- `OR` of a register with the byte `imm`. -/
def orImmediate (r imm : Byte) : InstructionWord :=
  (Byte.ofNibbles Opcode.orImmediate.nibble r, imm)

def extended (op : ExtendedOp) (b low : Byte) : InstructionWord :=
  (op.nibble, Byte.ofNibbles b low)

def stack (op : StackOp) (r : Byte) : InstructionWord :=
  extended .stack op.nibble r

end InstructionWord

end WordMachine
