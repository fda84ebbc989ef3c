import WordMachine.Machine

/-!
# The host

The host holds a machine and works on it from outside.  It lets the machine run,
steps its processor, sets registers, makes accesses on the bus, and looks at bytes
without an access.  Each operation has an answer and leaves a machine behind.

The host does not mind what an operation answers: after one that has failed it goes
on with the next.
-/

namespace WordMachine

/-- What the host asks of a bus. -/
inductive BusOperation where
  | read (addr : Address)
  | write (addr : Address) (byte : Byte)
  | readWord (addr : Address)
  | writeWord (addr : Address) (word : Word)
deriving DecidableEq, Repr

/-- What an operation on a bus yields if none of its accesses fails. -/
inductive BusValue where
  | byte (byte : Byte)
  | word (word : Word)
  | written
deriving DecidableEq, Repr

namespace BusOperation

def transaction : BusOperation → Transaction BusValue
  | read addr => do
    let byte ← Transaction.readByte addr
    return .byte byte
  | write addr byte => do
    Transaction.writeByte addr byte
    return .written
  | readWord addr => do
    let word ← Transaction.readWord addr
    return .word word
  | writeWord addr word => do
    Transaction.writeWord addr word
    return .written

/-- Every access that a sequence of operations attempts, and the state behind the
bus after it. -/
def performAll {σ : Type} [Bus σ] : List BusOperation → σ → List Access × σ
  | [], bus => ([], bus)
  | operation :: rest, bus =>
    let ⟨_, bus, made⟩ := operation.transaction.run bus
    let (later, bus) := performAll rest bus
    (made ++ later, bus)

end BusOperation

inductive HostOperation where
  /-- A run of so many rounds, or fewer if it ends before. -/
  | run (rounds : Nat)
  | step
  | setRegister (r : Register) (value : Word)
  | bus (operation : BusOperation)
  | peek (addr : Address)
deriving DecidableEq, Repr

inductive HostAnswer where
  | run (result : Option (Except RunError RunSummary))
  | step (result : Except CpuError Instruction)
  | registerSet
  | bus (result : Except BusError BusValue)
  | peek (byte : Byte)

/-- What the operations of a host leave behind. -/
structure Session where
  answers : List HostAnswer
  machine : Machine
  events : List MachineEvent

namespace HostOperation

def perform : HostOperation → Machine → HostAnswer × Machine × List MachineEvent
  | run rounds, machine =>
    let ⟨result, machine, events⟩ := machine.run rounds
    (.run result, machine, events.toList)
  | step, machine =>
    let (result, machine, events) := machine.stepCpu
    (.step result, machine, events)
  | setRegister r value, machine => (.registerSet, machine.setRegister r value, [])
  | bus operation, machine =>
    let (result, machine, events) := machine.transact operation.transaction
    (.bus result, machine, events)
  | peek addr, machine => (.peek (machine.cpu.bus.peek addr), machine, [])

def performAll : List HostOperation → Machine → Session
  | [], machine => ⟨[], machine, []⟩
  | operation :: rest, machine =>
    let (answer, machine, events) := operation.perform machine
    let ⟨answers, machine, later⟩ := performAll rest machine
    ⟨answer :: answers, machine, events ++ later⟩

end HostOperation

end WordMachine
