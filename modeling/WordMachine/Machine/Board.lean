import WordMachine.Bus.Memory
import WordMachine.Machine.Console
import WordMachine.Machine.Store

/-!
# The board

TIOS, the reference system, gives the first three addresses to devices and all
others to memory:

* 0, the exit strobe: any byte written there asks the machine to stop;
* 1, console input: reading takes one byte from the host;
* 2, console output: writing sends one byte to the host;
* from 3 on 32768 bytes for the ROM image, then RAM up to the last address.

A device that works in one direction refuses the other one.  The ROM is not
write protected.  Accesses to memory never fail.

A board that is traced tells of each access in lines of the journal: the request, and
for a read of memory the byte that answers it.  A `JournaledBoard` keeps these lines.
-/

namespace WordMachine

structure Board where
  store : Store
  exitRequested : Bool
  input : List InputItem
  output : Sink
  /-- Tell the journal of every access. -/
  trace : Bool

namespace Board

def exitStrobe : Address := 0

def consoleInput : Address := 1

def consoleOutput : Address := 2

def ofRom (rom : RomImage) (input : List InputItem) (output : Sink) (trace : Bool) :
    Board where
  store := .ofRom rom
  exitRequested := false
  input
  output
  trace

/-- The byte at an address as the host sees it, with the devices as zero. -/
def peek (board : Board) (addr : Address) : Byte :=
  if haddr : addr < RomImage.base then 0
  else board.store.get addr (UInt16.not_lt.mp haddr)

def consoleFailure (error : ConsoleError) : BusError := .unknown error.message

/-- The three devices are all that lies below the store. -/
theorem base_le_of_ne_device
    {addr : Address} (hexit : addr ≠ exitStrobe) (hinput : addr ≠ consoleInput)
    (houtput : addr ≠ consoleOutput) : RomImage.base ≤ addr := by
  have hbase : RomImage.base.toNat = 3 := rfl
  have hexit' : exitStrobe.toNat = 0 := rfl
  have hinput' : consoleInput.toNat = 1 := rfl
  have houtput' : consoleOutput.toNat = 2 := rfl
  rw [UInt16.le_iff_toNat_le]
  rw [Ne, ← UInt16.toNat_inj] at hexit hinput houtput
  omega

/-- What becomes of an access. -/
structure Response (α : Type) where
  answer : Except BusError α
  board : Board
  /-- What the access has written into the journal. -/
  lines : List JournalLine

def readLine (addr : Address) : JournalLine := ⟨.debug, "[READ_REQ] addr:" ++ addr.hex⟩

def loadedLine (byte : Byte) : JournalLine := ⟨.debug, "[READ_REQ] byte:" ++ byte.hex⟩

def writeLine (addr : Address) (byte : Byte) : JournalLine :=
  ⟨.debug, "[WRITE_REQ] addr:" ++ addr.hex ++ " byte:" ++ byte.hex⟩

def read (addr : Address) : Board → Response Byte
  | ⟨store, exitRequested, input, output, trace⟩ =>
    let lines := if trace then [readLine addr] else []
    if hone : addr = exitStrobe ∨ addr = consoleOutput then
      { answer := .error (.addressInvalid addr)
        board := ⟨store, exitRequested, input, output, trace⟩
        lines }
    else if hinput : addr = consoleInput then
      let (answer, input) := InputItem.receive input
      { answer := answer.mapError consoleFailure
        board := ⟨store, exitRequested, input, output, trace⟩
        lines }
    else
      have haddr : RomImage.base ≤ addr :=
        base_le_of_ne_device (not_or.mp hone).1 hinput (not_or.mp hone).2
      let byte := store.get addr haddr
      { answer := .ok byte
        board := ⟨store, exitRequested, input, output, trace⟩
        lines := if trace then lines ++ [loadedLine byte] else lines }

def write (addr : Address) (byte : Byte) : Board → Response Unit
  | ⟨store, exitRequested, input, output, trace⟩ =>
    let lines := if trace then [writeLine addr byte] else []
    if hexit : addr = exitStrobe then
      { answer := .ok ()
        board := ⟨store, true, input, output, trace⟩
        lines }
    else if hinput : addr = consoleInput then
      { answer := .error (.addressInvalid addr)
        board := ⟨store, exitRequested, input, output, trace⟩
        lines }
    else if houtput : addr = consoleOutput then
      let (answer, output) := output.send byte
      { answer := answer.mapError consoleFailure
        board := ⟨store, exitRequested, input, output, trace⟩
        lines }
    else
      have haddr : RomImage.base ≤ addr := base_le_of_ne_device hexit hinput houtput
      { answer := .ok ()
        board := ⟨store.set addr haddr byte, exitRequested, input, output, trace⟩
        lines }

/-- The board alone, without the lines of its accesses. -/
instance : Bus Board where
  read addr board :=
    let ⟨answer, board, _⟩ := board.read addr
    (answer, board)
  write addr byte board :=
    let ⟨answer, board, _⟩ := board.write addr byte
    (answer, board)

end Board

/-- A board together with what the accesses to it have written into the journal. -/
structure JournaledBoard where
  board : Board
  /-- One entry for each access, in order. -/
  entries : Array (List JournalLine)

namespace JournaledBoard

def ofBoard (board : Board) : JournaledBoard := ⟨board, #[]⟩

instance : Bus JournaledBoard where
  read addr := fun ⟨board, entries⟩ =>
    let ⟨answer, board, lines⟩ := board.read addr
    (answer, ⟨board, entries.push lines⟩)
  write addr byte := fun ⟨board, entries⟩ =>
    let ⟨answer, board, lines⟩ := board.write addr byte
    (answer, ⟨board, entries.push lines⟩)

end JournaledBoard

end WordMachine
