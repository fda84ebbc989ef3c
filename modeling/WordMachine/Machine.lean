import WordMachine.Machine.Board

/-!
# The machine

A machine is a processor on the board of the reference system, together with
the rules for running it.  `Machine.turn` is one round of a run: it stops the
run if the program has asked for it or the instruction limit has been reached,
otherwise executes one instruction, and ends the run with an error if the
instruction failed or left the program counter in RAM.  The limit is looked at
before an instruction and the program counter after it, so where both would end
the run the program counter wins.

A program may run forever.  `Machine.run` therefore makes at most a given
number of rounds; `none` as its result says that the run has not ended in them.
`Machine.runFed` is the same for a machine that is given its input while it runs.

Each event of a run has the lines that it has written into the journal: those of an
access come from the board, and only if the board is traced.
-/

namespace WordMachine

structure MachineConfig where
  /-- Write every bus access into the journal. -/
  trace : Bool
  instructionLimit : Option UInt64
deriving DecidableEq, Repr

namespace MachineConfig

def initial : MachineConfig := ⟨false, none⟩

instance : Inhabited MachineConfig := ⟨initial⟩

def withTrace (config : MachineConfig) (trace : Bool) : MachineConfig :=
  { config with trace }

def withInstructionLimit (config : MachineConfig) (limit : Option UInt64) : MachineConfig :=
  { config with instructionLimit := limit }

end MachineConfig

inductive StopReason where
  | exitStrobe
  | instructionLimit
deriving DecidableEq, Repr, Inhabited

def StopReason.name : StopReason → String
  | exitStrobe => "ExitStrobe"
  | instructionLimit => "InstructionLimit"

structure RunSummary where
  instructions : UInt64
  stop : StopReason
  registers : Registers
deriving DecidableEq, Repr, Inhabited

inductive RunError where
  /-- The instruction that starts at `pc` failed. -/
  | step (pc : Address) (source : CpuError)
  /-- An instruction left the program counter in RAM. -/
  | executeFromRam (pc : Address)
deriving DecidableEq, Repr

namespace RunError

def code? : RunError → Option ErrorCode
  | step _ source => some source.code
  | executeFromRam _ => none

def message : RunError → String
  | step pc source =>
    "received error code at " ++ pc.hexLiteral ++ ", '" ++ source.code.text ++ "': " ++
      source.message
  | executeFromRam pc => "attempted to execute code from RAM (pc " ++ pc.hexLiteral ++ ")"

end RunError

inductive MachineEvent where
  /-- The processor has written `lines` into the journal, or the board for it. -/
  | cpu (event : CpuEvent) (lines : List JournalLine)
  | stepFailed (pc : Address) (error : CpuError)
  | stopped (instructions : UInt64) (reason : StopReason)
deriving DecidableEq, Repr

namespace MachineEvent

/-- The events of the processor on a board that has made an entry for each access. -/
def ofCpuEvents : List CpuEvent → (entries : List (List JournalLine)) → List MachineEvent
  | [], _ => []
  | .access made :: events, entries =>
    .cpu (.access made) (entries.headD []) :: ofCpuEvents events entries.tail
  | .decoded pc instr :: events, entries =>
    .cpu (.decoded pc instr) [.ofInstruction pc instr] :: ofCpuEvents events entries

def lines : MachineEvent → List JournalLine
  | cpu _ lines => lines
  | stepFailed pc error => [⟨.debug, "step failed at " ++ pc.hex ++ ": " ++ error.message⟩]
  | stopped instructions reason =>
    [⟨.debug, "stopped after " ++ toString instructions.toNat ++ " instructions: " ++ reason.name⟩]

def journal (events : List MachineEvent) : List JournalLine :=
  events.flatMap lines

end MachineEvent

structure Machine where
  cpu : Cpu Board
  config : MachineConfig
  /-- How many instructions the runs of this machine have completed. -/
  executed : UInt64

namespace Machine

def ofRom (rom : RomImage) (input : List InputItem) (output : Sink) (config : MachineConfig) :
    Machine where
  cpu := { regs := .startingAt RomImage.base, bus := .ofRom rom input output config.trace }
  config
  executed := 0

/-- The reason to stop before the next instruction; the exit strobe goes first. -/
def stopReason? (machine : Machine) : Option StopReason :=
  if machine.cpu.bus.exitRequested then some .exitStrobe
  else
    match machine.config.instructionLimit with
    | some limit => if limit ≤ machine.executed then some .instructionLimit else none
    | none => none

def summary (machine : Machine) (stop : StopReason) : RunSummary where
  instructions := machine.executed
  stop
  registers := machine.cpu.regs

/-- What one round of a run leaves behind; the run goes on if there is no result. -/
structure Turn where
  result : Option (Except RunError RunSummary)
  machine : Machine
  events : List MachineEvent

/-- One step of the processor, whose board enters each access in the journal. -/
def stepBoard : Cpu Board → Except CpuError Instruction × Cpu Board × List MachineEvent
  | ⟨regs, board⟩ =>
    let ⟨result, ⟨regs, ⟨board, entries⟩⟩, events⟩ := Cpu.step ⟨regs, JournaledBoard.ofBoard board⟩
    (result, ⟨regs, board⟩, MachineEvent.ofCpuEvents events entries.toList)

def turn (machine : Machine) : Turn :=
  match machine.stopReason? with
  | some reason =>
    { result := some (.ok (machine.summary reason))
      machine
      events := [.stopped machine.executed reason] }
  | none =>
    let ⟨cpu, config, executed⟩ := machine
    let pc := cpu.regs.pc
    match stepBoard cpu with
    | ⟨.error error, cpu, events⟩ =>
      { result := some (.error (.step pc error))
        machine := ⟨cpu, config, executed⟩
        events := events ++ [.stepFailed pc error] }
    | ⟨.ok _, cpu, events⟩ =>
      let next := cpu.regs.pc
      { result := if RomImage.ramBase ≤ next then some (.error (.executeFromRam next)) else none
        machine := ⟨cpu, config, executed + 1⟩
        events }

/-- What a run leaves behind; it has no result if it has not ended. -/
structure RunResult where
  result : Option (Except RunError RunSummary)
  machine : Machine
  events : Array MachineEvent

def runFrom (events : Array MachineEvent) : (rounds : Nat) → Machine → RunResult
  | 0, machine => { result := none, machine, events }
  | rounds + 1, machine =>
    match machine.turn with
    | ⟨none, machine, seen⟩ => runFrom (events ++ seen) rounds machine
    | ⟨some result, machine, seen⟩ => { result := some result, machine, events := events ++ seen }

def run (rounds : Nat) (machine : Machine) : RunResult :=
  runFrom #[] rounds machine

/-- More input, behind what the machine still has of it. -/
def feed (items : List InputItem) : Machine → Machine
  | ⟨⟨regs, board⟩, config, executed⟩ =>
    ⟨⟨regs, { board with input := board.input ++ items }⟩, config, executed⟩

/-- The console has had no byte for a read of this round. -/
def Turn.lacksInput (turn : Turn) : Bool :=
  turn.events.any fun event =>
    match event with
    | .cpu (.access (.readFailed addr _)) _ => addr == Board.consoleInput
    | _ => false

/-- A round of a machine whose input waits elsewhere: as long as the round lacks input it
is made again, with one byte more.  The bytes that it does not need stay where they are. -/
def turnFed (machine : Machine) : (waiting : List Byte) → Turn × List Byte
  | [] => (machine.turn, [])
  | byte :: waiting =>
    let turn := machine.turn
    if turn.lacksInput then (machine.feed [.byte byte]).turnFed waiting
    else (turn, byte :: waiting)

def runFedFrom (events : Array MachineEvent) :
    (rounds : Nat) → (waiting : List Byte) → Machine → RunResult × List Byte
  | 0, waiting, machine => ({ result := none, machine, events }, waiting)
  | rounds + 1, waiting, machine =>
    match machine.turnFed waiting with
    | (⟨none, machine, seen⟩, waiting) => runFedFrom (events ++ seen) rounds waiting machine
    | (⟨some result, machine, seen⟩, waiting) =>
      ({ result := some result, machine, events := events ++ seen }, waiting)

/-- A run that is given its input byte by byte, when it asks for it. -/
def runFed (rounds : Nat) (waiting : List Byte) (machine : Machine) : RunResult × List Byte :=
  runFedFrom #[] rounds waiting machine

/-- Plays a transaction of the host on the bus of the machine. -/
def transact {α : Type} (t : Transaction α) :
    Machine → Except BusError α × Machine × List MachineEvent
  | ⟨⟨regs, board⟩, config, executed⟩ =>
    let ⟨result, ⟨board, entries⟩, accesses⟩ := t.run (JournaledBoard.ofBoard board)
    (result, ⟨⟨regs, board⟩, config, executed⟩,
      MachineEvent.ofCpuEvents (accesses.map .access) entries.toList)

/-- Steps the processor outside a run: nothing is counted and nothing guarded. -/
def stepCpu : Machine → Except CpuError Instruction × Machine × List MachineEvent
  | ⟨cpu, config, executed⟩ =>
    let (result, cpu, events) := stepBoard cpu
    (result, ⟨cpu, config, executed⟩, events)

def setRegister (r : Register) (value : Word) : Machine → Machine
  | ⟨⟨regs, bus⟩, config, executed⟩ => ⟨⟨regs.set r value, bus⟩, config, executed⟩

end Machine

end WordMachine
