import WordMachine.Bus.Transaction
import WordMachine.Instruction.Encoding

/-!
# Effects of instructions

`Instruction.effect` is what an instruction does after its word has been
fetched, with the program counter already behind the word: a transaction that
makes the accesses of the instruction and yields the new registers.  All
register changes are in the yielded value, so a failing access leaves no
register half done.

An operand is read at the program counter, which moves past it only when the
instruction is complete.  The stack grows upward: a push writes at the stack
pointer and then adds two, a pop reads two below it and then subtracts two.
-/

namespace WordMachine.Instruction

open Transaction

/-- The operand of the instruction whose word has just been fetched. -/
def operand (regs : Registers) : Transaction Word :=
  readWord regs.pc

def stackEffect (instr : Instruction) (regs : Registers) : Transaction Registers :=
  let r := instr.low
  let sp := regs.sp
  match instr.stackOp with
  | .pushImmediate => do
    let value ← operand regs
    writeWord sp value
    return (regs.advancePc 2).setSp (sp + 2)
  | .pushRegister => do
    writeWord sp (regs.get r)
    return regs.setSp (sp + 2)
  | .popRegister => do
    let value ← readWord (sp - 2)
    let regs := regs.set r value
    return regs.setSp (regs.sp - 2)
  | .callAddress => do
    let target ← operand regs
    writeWord sp (regs.pc + 2)
    return (regs.setPc target).setSp (sp + 2)
  | .callRegister => do
    writeWord sp regs.pc
    return (regs.setPc (regs.get r)).setSp (sp + 2)
  | .ret => do
    let target ← readWord (sp - 2)
    return (regs.setPc target).setSp (sp - 2)
  | .storeAddress => do
    let addr ← operand regs
    writeWord addr (regs.get r)
    return regs.advancePc 2
  | .loadAddress => do
    let addr ← operand regs
    let value ← readWord addr
    return (regs.set r value).advancePc 2
  | .reserved _ => return regs

def extendedEffect (instr : Instruction) (regs : Registers) : Transaction Registers :=
  let x := regs.get instr.b
  let y := regs.get instr.low
  match instr.extendedOp with
  | .nop => return regs
  | .compareEqual => return regs.setCondition (x == y)
  | .compareGreater => return regs.setCondition (x > y)
  | .compareLess => return regs.setCondition (x < y)
  | .loadImmediate => do
    let value ← operand regs
    return (regs.set instr.b value).advancePc 2
  | .jumpImmediate => do
    let target ← operand regs
    return if regs.conditionTaken then regs.setPc target else regs.advancePc 2
  | .copy => return regs.set instr.b y
  | .swap => return regs.swap instr.b instr.low
  | .jumpAlways => do
    let target ← operand regs
    return regs.setPc target
  | .stack => instr.stackEffect regs
  | .reserved _ => return regs

def effect (instr : Instruction) (regs : Registers) : Transaction Registers :=
  let x := regs.get instr.a
  let y := regs.get instr.b
  match instr.opcode with
  | .extended => instr.extendedEffect regs
  | .jump => return if regs.conditionTaken then regs.setPc x else regs
  | .getByte => do
    let byte ← readByte regs.index
    return regs.set instr.a byte.toUInt16
  | .setByte => do
    writeByte regs.index x.lowByte
    return regs
  | .orImmediate => return regs.set instr.a (x ||| instr.imm % 256)
  | .or => return regs.set instr.a (x ||| y)
  | .and => return regs.set instr.a (x &&& y)
  | .xor => return regs.set instr.a (x ^^^ y)
  | .not => return regs.set instr.a (~~~x)
  | .shiftLeft => return regs.set instr.a (x.shiftLeft y)
  | .shiftRight => return regs.set instr.a (x.shiftRight y)
  | .add => return regs.set instr.a (x + y)
  | .sub => return regs.set instr.a (x - y)
  | .mul => return regs.set instr.a (x * y)
  | .div => return regs.set instr.a (x / y)
  | .mod => return regs.set instr.a (x % y)

def fetch (pc : Address) : Transaction Instruction := do
  let first ← readByte pc
  let second ← readByte (pc + 1)
  return decode first second

end WordMachine.Instruction
