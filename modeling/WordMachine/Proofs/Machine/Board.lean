import WordMachine.Machine.Board
import WordMachine.Proofs.Bus.Requests

/-!
# What the board does with a request

`Board.Serves` has one case for each thing that can become of a request: each device
serves one direction and refuses the other, the two console devices may fail, and the
store always answers.  The cases say what the access is and what is left of the board;
whatever a case does not name stays as it was.

`Board.serves_perform` says that these are all the cases, and `Board.Serves.perform_eq`
that they leave no choice.  What a single access keeps on the board follows from them, and
what many accesses keep by induction on the requests.
-/

namespace WordMachine.Board

/-- The board makes this access of the request, and is then the last board. -/
inductive Serves (board : Board) : Request → Access → Board → Prop where
  | readRefused {addr : Address} (hport : addr = exitStrobe ∨ addr = consoleOutput) :
      Serves board (.read addr) (.readFailed addr (.addressInvalid addr)) board
  | received {byte : Byte} {input : List InputItem}
      (hreceive : InputItem.receive board.input = (.ok byte, input)) :
      Serves board (.read consoleInput) (.read consoleInput byte) { board with input }
  | notReceived {error : ConsoleError} {input : List InputItem}
      (hreceive : InputItem.receive board.input = (.error error, input)) :
      Serves board (.read consoleInput) (.readFailed consoleInput (consoleFailure error))
        { board with input }
  | loaded {addr : Address} (haddr : RomImage.base ≤ addr) :
      Serves board (.read addr) (.read addr (board.store.get addr haddr)) board
  | exit (byte : Byte) :
      Serves board (.write exitStrobe byte) (.write exitStrobe byte)
        { board with exitRequested := true }
  | writeRefused (byte : Byte) :
      Serves board (.write consoleInput byte)
        (.writeFailed consoleInput byte (.addressInvalid consoleInput)) board
  | sent {byte : Byte} {output : Sink} (hsend : board.output.send byte = (.ok (), output)) :
      Serves board (.write consoleOutput byte) (.write consoleOutput byte)
        { board with output }
  | notSent {byte : Byte} {error : ConsoleError} {output : Sink}
      (hsend : board.output.send byte = (.error error, output)) :
      Serves board (.write consoleOutput byte)
        (.writeFailed consoleOutput byte (consoleFailure error)) { board with output }
  | stored {addr : Address} (haddr : RomImage.base ≤ addr) (byte : Byte) :
      Serves board (.write addr byte) (.write addr byte)
        { board with store := board.store.set addr haddr byte }

variable {addr : Address}

theorem ne_device_of_base_le (haddr : RomImage.base ≤ addr) :
    addr ≠ exitStrobe ∧ addr ≠ consoleInput ∧ addr ≠ consoleOutput := by
  have hnat : 3 ≤ addr.toNat := UInt16.le_iff_toNat_le.mp haddr
  refine ⟨?_, ?_, ?_⟩ <;>
    · rintro rfl
      exact absurd hnat (by decide)

theorem read_refused
    (hport : addr = exitStrobe ∨ addr = consoleOutput) (board : Board) :
    Bus.read addr board = (.error (.addressInvalid addr), board) := by
  simp only [Bus.read, read, dif_pos hport]

theorem read_consoleInput (board : Board) :
    Bus.read consoleInput board =
      ((InputItem.receive board.input).1.mapError consoleFailure,
        { board with input := (InputItem.receive board.input).2 }) := rfl

theorem write_consoleOutput (byte : Byte) (board : Board) :
    Bus.write consoleOutput byte board =
      ((board.output.send byte).1.mapError consoleFailure,
        { board with output := (board.output.send byte).2 }) := rfl

theorem read_of_base_le (haddr : RomImage.base ≤ addr) (board : Board) :
    Bus.read addr board = (.ok (board.store.get addr haddr), board) := by
  rcases ne_device_of_base_le haddr with ⟨hexit, hinput, houtput⟩
  simp only [Bus.read, read, hexit, hinput, houtput, or_self, dite_false]

theorem write_of_base_le (haddr : RomImage.base ≤ addr) (byte : Byte) (board : Board) :
    Bus.write addr byte board =
      (.ok (), { board with store := board.store.set addr haddr byte }) := by
  rcases ne_device_of_base_le haddr with ⟨hexit, hinput, houtput⟩
  simp only [Bus.write, write, hexit, hinput, houtput, dite_false]

theorem peek_of_base_le (haddr : RomImage.base ≤ addr) (board : Board) :
    board.peek addr = board.store.get addr haddr := by
  unfold peek
  rw [dif_neg (UInt16.not_lt.mpr haddr)]

theorem peek_of_lt_base (haddr : addr < RomImage.base) (board : Board) :
    board.peek addr = 0 := by
  unfold peek
  rw [dif_pos haddr]

theorem serves_read (addr : Address) (board : Board) :
    board.Serves (.read addr) ((Request.read addr).perform board).1
      ((Request.read addr).perform board).2 := by
  by_cases hport : addr = exitStrobe ∨ addr = consoleOutput
  · simp only [Request.perform, read_refused hport]
    exact .readRefused hport
  · by_cases hinput : addr = consoleInput
    · subst hinput
      cases hreceive : InputItem.receive board.input with
      | mk answer input =>
          cases answer with
          | ok byte =>
              simp only [Request.perform, read_consoleInput, hreceive]
              exact .received hreceive
          | error error =>
              simp only [Request.perform, read_consoleInput, hreceive]
              exact .notReceived hreceive
    · have haddr : RomImage.base ≤ addr :=
        base_le_of_ne_device (not_or.mp hport).1 hinput (not_or.mp hport).2
      simp only [Request.perform, read_of_base_le haddr]
      exact .loaded haddr

theorem serves_write (addr : Address) (byte : Byte) (board : Board) :
    board.Serves (.write addr byte) ((Request.write addr byte).perform board).1
      ((Request.write addr byte).perform board).2 := by
  by_cases hexit : addr = exitStrobe
  · subst hexit
    exact .exit byte
  · by_cases hinput : addr = consoleInput
    · subst hinput
      exact .writeRefused byte
    · by_cases houtput : addr = consoleOutput
      · subst houtput
        cases hsend : board.output.send byte with
        | mk answer output =>
            cases answer with
            | ok _ =>
                simp only [Request.perform, write_consoleOutput, hsend]
                exact .sent hsend
            | error error =>
                simp only [Request.perform, write_consoleOutput, hsend]
                exact .notSent hsend
      · have haddr : RomImage.base ≤ addr := base_le_of_ne_device hexit hinput houtput
        simp only [Request.perform, write_of_base_le haddr]
        exact .stored haddr byte

theorem serves_perform (request : Request) (board : Board) :
    board.Serves request (request.perform board).1 (request.perform board).2 := by
  cases request with
  | read addr => exact serves_read addr board
  | write addr byte => exact serves_write addr byte board

/-- A request on a board has one access and leaves one board. -/
theorem Serves.perform_eq
    {board after : Board} {request : Request} {access : Access}
    (h : board.Serves request access after) : request.perform board = (access, after) := by
  cases h with
  | readRefused hport => simp only [Request.perform, read_refused hport]
  | received hreceive =>
      simp only [Request.perform, read_consoleInput, hreceive]
      rfl
  | notReceived hreceive =>
      simp only [Request.perform, read_consoleInput, hreceive]
      rfl
  | loaded haddr => simp only [Request.perform, read_of_base_le haddr]
  | exit byte => rfl
  | writeRefused byte => rfl
  | sent hsend =>
      simp only [Request.perform, write_consoleOutput, hsend]
      rfl
  | notSent hsend =>
      simp only [Request.perform, write_consoleOutput, hsend]
      rfl
  | stored haddr byte => simp only [Request.perform, write_of_base_le haddr]

end WordMachine.Board
