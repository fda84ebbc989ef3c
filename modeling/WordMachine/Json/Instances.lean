import WordMachine.Json.Form
import WordMachine.Machine

/-!
# The JSON forms of the machine's types

Unassigned operations are written with their number, as in `{"Reserved": 12}`.
Numbers are read within the range of their field, and fields of an instruction
need not agree with each other.
-/

namespace WordMachine

open Json

def Opcode.all : List Opcode :=
  [.extended, .jump, .getByte, .setByte, .orImmediate, .or, .and, .xor,
    .not, .shiftLeft, .shiftRight, .add, .sub, .mul, .div, .mod]

def Opcode.name : Opcode → String
  | extended => "Eops"
  | jump => "Jmp"
  | getByte => "Gm"
  | setByte => "Sm"
  | orImmediate => "Or"
  | or => "Orr"
  | and => "And"
  | xor => "Xor"
  | not => "Not"
  | shiftLeft => "Shl"
  | shiftRight => "Shr"
  | add => "Add"
  | sub => "Sub"
  | mul => "Mul"
  | div => "Div"
  | mod => "Mod"

instance : JsonForm Opcode where
  toJson op := .str op.name
  ofJson? := enumeration? Opcode.all Opcode.name

/-- The constants of an enumeration in which every number that is not assigned has one of
its own. -/
structure Numbering (α : Type) where
  assigned : List α
  name : α → String
  reserved : (number : Byte) → α
  /-- The number of a constant that is not assigned. -/
  number? : α → Option Byte

namespace Numbering

variable {α : Type} (numbering : Numbering α)

def write (constant : α) : Json :=
  match numbering.number? constant with
  | some number => .obj [("Reserved", toJson number)]
  | none => .str (numbering.name constant)

def read? : Json → Option α
  | .obj [("Reserved", number)] => (ofJson? number).map numbering.reserved
  | value => value.enumeration? numbering.assigned numbering.name

end Numbering

def ExtendedOp.name : ExtendedOp → String
  | nop => "Nop"
  | compareEqual => "CmpEq"
  | compareGreater => "CmpGt"
  | compareLess => "CmpLt"
  | loadImmediate => "LoadImm"
  | jumpImmediate => "JmpImm"
  | copy => "Copy"
  | swap => "Swap"
  | jumpAlways => "Ujmp"
  | stack => "StackMem"
  | reserved _ => "Reserved"

def ExtendedOp.numbering : Numbering ExtendedOp where
  assigned :=
    [.nop, .compareEqual, .compareGreater, .compareLess, .loadImmediate,
      .jumpImmediate, .copy, .swap, .jumpAlways, .stack]
  name := ExtendedOp.name
  reserved := .reserved
  number?
    | .reserved number => some number
    | _ => none

instance : JsonForm ExtendedOp where
  toJson := ExtendedOp.numbering.write
  ofJson? := ExtendedOp.numbering.read?

def StackOp.name : StackOp → String
  | pushImmediate => "PushImm"
  | pushRegister => "PushReg"
  | popRegister => "PopReg"
  | callAddress => "CallAddr"
  | callRegister => "CallReg"
  | ret => "Ret"
  | storeAddress => "StoreAddr"
  | loadAddress => "LoadAddr"
  | reserved _ => "Reserved"

def StackOp.numbering : Numbering StackOp where
  assigned :=
    [.pushImmediate, .pushRegister, .popRegister, .callAddress, .callRegister,
      .ret, .storeAddress, .loadAddress]
  name := StackOp.name
  reserved := .reserved
  number?
    | .reserved number => some number
    | _ => none

instance : JsonForm StackOp where
  toJson := StackOp.numbering.write
  ofJson? := StackOp.numbering.read?

instance : JsonForm Instruction where
  toJson instr :=
    .obj [
      ("opcode", toJson instr.opcode),
      ("reg_a", toJson instr.regA),
      ("reg_b", toJson instr.regB),
      ("imm", toJson instr.imm),
      ("second_byte", toJson instr.secondByte)]
  ofJson? value := do
    match ← value.fields? ["opcode", "reg_a", "reg_b", "imm", "second_byte"] with
    | [opcode, regA, regB, imm, secondByte] =>
      let opcode ← required? opcode
      let regA ← required? regA
      let regB ← required? regB
      let imm ← required? imm
      let secondByte ← required? secondByte
      return { opcode, regA, regB, imm, secondByte }
    | _ => none

instance : JsonForm Registers where
  toJson regs := .obj [("regs", toJson regs.toList)]
  ofJson? value := do
    match ← value.fields? ["regs"] with
    | [values] =>
      let values ← required? values
      Registers.ofList? values
    | _ => none

instance : JsonForm CpuState where
  toJson state := .str state.name
  ofJson? := enumeration? [.ready, .haltedInvalid] CpuState.name

instance : JsonForm ErrorCode where
  toJson code := .str code.name
  ofJson? :=
    enumeration? [.addressInvalid, .instructionInvalid, .unknownError, .arithmeticFault]
      ErrorCode.name

instance : JsonForm StopReason where
  toJson reason := .str reason.name
  ofJson? := enumeration? [.exitStrobe, .instructionLimit] StopReason.name

instance : JsonForm MachineConfig where
  toJson config :=
    .obj [
      ("trace", toJson config.trace),
      ("instruction_limit", toJson config.instructionLimit)]
  ofJson? value := do
    match ← value.fields? ["trace", "instruction_limit"] with
    | [trace, instructionLimit] =>
      let trace ← required? trace
      let instructionLimit ← optional? instructionLimit
      return { trace, instructionLimit }
    | _ => none

instance : JsonForm RunSummary where
  toJson summary :=
    .obj [
      ("instructions", toJson summary.instructions),
      ("stop", toJson summary.stop),
      ("registers", toJson summary.registers)]
  ofJson? value := do
    match ← value.fields? ["instructions", "stop", "registers"] with
    | [instructions, stop, registers] =>
      let instructions ← required? instructions
      let stop ← required? stop
      let registers ← required? registers
      return { instructions, stop, registers }
    | _ => none

end WordMachine
