import WordMachine.Instruction.Effect

/-!
# The processor

A processor is a register file and the bus that it drives.  `Cpu.step`
executes one instruction.  It fetches the word at the program counter, moves
the program counter behind it and plays the effect of the instruction on the
bus.  A step that fails while fetching leaves the registers alone, and one that
fails later only keeps the moved program counter.

The address 0xFFFF is a sentinel: a processor whose program counter rests there
is halted, and stepping it fails without an access.

`Cpu.run` repeats steps within a budget and stops at the first failure.
-/

namespace WordMachine

inductive CpuError where
  | bus (error : BusError)
  /-- The program counter rests on the sentinel. -/
  | instructionInvalid (pc : Address)
  /-- A division instruction met a zero divisor. -/
  | arithmeticFault (op : Opcode)
deriving DecidableEq, Repr

inductive ErrorCode where
  | addressInvalid
  | instructionInvalid
  | unknownError
  | arithmeticFault
deriving DecidableEq, Repr, Inhabited

def ErrorCode.name : ErrorCode → String
  | addressInvalid => "AddressInvalid"
  | instructionInvalid => "InstructionInvalid"
  | unknownError => "UnknownError"
  | arithmeticFault => "ArithmeticFault"

def ErrorCode.text : ErrorCode → String
  | addressInvalid => "Address invalid"
  | instructionInvalid => "Instruction invalid"
  | unknownError => "Unknown error"
  | arithmeticFault => "Arithmetic fault"

namespace CpuError

def code : CpuError → ErrorCode
  | bus (.addressInvalid _) => .addressInvalid
  | bus (.unknown _) => .unknownError
  | instructionInvalid _ => .instructionInvalid
  | arithmeticFault _ => .arithmeticFault

def message : CpuError → String
  | bus error => error.message
  | instructionInvalid pc =>
    "instruction invalid: nothing can be fetched at " ++ pc.hexLiteral
  | arithmeticFault op => "arithmetic fault: " ++ op.mnemonic ++ " by zero"

end CpuError

inductive CpuState where
  | ready
  | haltedInvalid
deriving DecidableEq, Repr, Inhabited

def CpuState.name : CpuState → String
  | ready => "Ready"
  | haltedInvalid => "HaltedInvalid"

inductive CpuEvent where
  | access (access : Access)
  /-- The word at `pc` has been fetched and is about to be executed. -/
  | decoded (pc : Address) (instr : Instruction)
deriving DecidableEq, Repr

structure Cpu (σ : Type) where
  regs : Registers
  bus : σ

namespace Cpu

/-- No instruction can be fetched from the last address. -/
def sentinel : Address := 0xFFFF

variable {σ : Type}

def state (cpu : Cpu σ) : CpuState :=
  if cpu.regs.pc = sentinel then .haltedInvalid else .ready

def summary (cpu : Cpu σ) : String :=
  "Cpu \x7b state: " ++ cpu.state.name ++ ", regs: " ++ cpu.regs.dump ++ " \x7d"

structure Step (σ : Type) where
  result : Except CpuError Instruction
  cpu : Cpu σ
  events : List CpuEvent

/-- What a run of several steps leaves behind; its result counts the steps. -/
structure Run (σ : Type) where
  result : Except CpuError Nat
  cpu : Cpu σ
  events : Array CpuEvent

variable [Bus σ]

/-- Executes `instr`, with the program counter already behind its word. -/
def execute (instr : Instruction) : Cpu σ → Step σ
  | ⟨regs, bus⟩ =>
    if instr.dividesByZero regs then
      { result := .error (.arithmeticFault instr.opcode), cpu := ⟨regs, bus⟩, events := [] }
    else
      match (instr.effect regs).run bus with
      | ⟨.ok regs, bus, accesses⟩ =>
        { result := .ok instr, cpu := ⟨regs, bus⟩, events := accesses.map .access }
      | ⟨.error error, bus, accesses⟩ =>
        { result := .error (.bus error), cpu := ⟨regs, bus⟩, events := accesses.map .access }

def step : Cpu σ → Step σ
  | ⟨regs, bus⟩ =>
    let pc := regs.pc
    if pc = sentinel then
      { result := .error (.instructionInvalid pc), cpu := ⟨regs, bus⟩, events := [] }
    else
      match (Instruction.fetch pc).run bus with
      | ⟨.error error, bus, accesses⟩ =>
        { result := .error (.bus error), cpu := ⟨regs, bus⟩, events := accesses.map .access }
      | ⟨.ok instr, bus, accesses⟩ =>
        let executed := execute instr ⟨regs.advancePc 2, bus⟩
        { executed with
          events := accesses.map .access ++ .decoded pc instr :: executed.events }

def runFrom (count : Nat) (events : Array CpuEvent) : (budget : Nat) → Cpu σ → Run σ
  | 0, cpu => { result := .ok count, cpu, events }
  | budget + 1, cpu =>
    match cpu.step with
    | ⟨.ok _, cpu, seen⟩ => runFrom (count + 1) (events ++ seen) budget cpu
    | ⟨.error error, cpu, seen⟩ => { result := .error error, cpu, events := events ++ seen }

def run (budget : Nat) (cpu : Cpu σ) : Run σ :=
  runFrom 0 #[] budget cpu

end Cpu

end WordMachine
