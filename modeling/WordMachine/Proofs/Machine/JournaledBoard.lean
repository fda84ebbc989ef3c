import WordMachine.Machine
import WordMachine.Proofs.Cpu.Events
import WordMachine.Proofs.Machine.Board

/-!
# The entries of the board

`Access.lines` says what a traced board enters into the journal for an access: its
request in a line, and behind it the byte that answers it, if it comes from memory.  A board
that is not traced enters nothing.  `Board.lines_read` and `Board.lines_write` find these
lines in what the board itself yields.

A `JournaledBoard` answers like the board that it holds, request by request, and makes one
entry for each (`JournaledBoard.performAll_mk`).  So the processor does on it what it does on
the board alone, and its events have the lines of their accesses (`Machine.stepBoard_eq`).
-/

namespace WordMachine

/-! ## The lines of an access -/

def Request.line : Request → JournalLine
  | read addr => ⟨.debug, "[READ_REQ] addr:" ++ addr.hex⟩
  | write addr byte => ⟨.debug, "[WRITE_REQ] addr:" ++ addr.hex ++ " byte:" ++ byte.hex⟩

namespace Access

/-- What the journal tells of the answer: the byte, if it comes from memory. -/
def answerLines : Access → List JournalLine
  | read addr byte =>
      if RomImage.base ≤ addr then [⟨.debug, "[READ_REQ] byte:" ++ byte.hex⟩] else []
  | _ => []

def lines (access : Access) : List JournalLine :=
  access.request.line :: access.answerLines

/-- The lines of the access on a board that is traced, or is not. -/
def linesIf (trace : Bool) (access : Access) : List JournalLine :=
  if trace then access.lines else []

end Access

namespace MachineEvent

/-- The event of a processor whose board is traced, or is not. -/
def ofCpu (trace : Bool) (event : CpuEvent) : MachineEvent :=
  .cpu event (event.lines (Access.linesIf trace))

theorem ofCpuEvents_eq (trace : Bool) (events : List CpuEvent) :
    ofCpuEvents events ((CpuEvent.accesses events).map (Access.linesIf trace)) =
      events.map (ofCpu trace) := by
  induction events with
  | nil => rfl
  | cons event rest ih =>
      cases event with
      | access made => exact congrArg (ofCpu trace (.access made) :: ·) ih
      | decoded pc instr => exact congrArg (ofCpu trace (.decoded pc instr) :: ·) ih

end MachineEvent

/-! ## The board -/

namespace Board

theorem lines_read (addr : Address) (board : Board) :
    (board.read addr).lines = ((Request.read addr).perform board).1.linesIf board.trace := by
  by_cases hport : addr = exitStrobe ∨ addr = consoleOutput
  · simp only [Request.perform, read_refused hport, read, dif_pos hport]
    rfl
  · by_cases hinput : addr = consoleInput
    · subst hinput
      simp only [Request.perform, read_consoleInput]
      cases (InputItem.receive board.input).1 with
      | error error => rfl
      | ok byte => rfl
    · have haddr : RomImage.base ≤ addr :=
        base_le_of_ne_device (not_or.mp hport).1 hinput (not_or.mp hport).2
      simp only [Request.perform, read_of_base_le haddr, read, dif_neg hport, dif_neg hinput,
        Access.linesIf, Access.lines, Access.answerLines, if_pos haddr]
      cases board.trace with
      | false => rfl
      | true => rfl

theorem lines_write (addr : Address) (byte : Byte) (board : Board) :
    (board.write addr byte).lines =
      ((Request.write addr byte).perform board).1.linesIf board.trace := by
  by_cases hexit : addr = exitStrobe
  · subst hexit
    rfl
  · by_cases hinput : addr = consoleInput
    · subst hinput
      rfl
    · by_cases houtput : addr = consoleOutput
      · subst houtput
        simp only [Request.perform, write_consoleOutput]
        cases (board.output.send byte).1 with
        | error error => rfl
        | ok _ => rfl
      · have haddr : RomImage.base ≤ addr := base_le_of_ne_device hexit hinput houtput
        simp only [Request.perform, write_of_base_le haddr, write, dif_neg hexit, dif_neg hinput,
          dif_neg houtput]
        rfl

theorem Serves.trace_eq
    {board after : Board} {request : Request} {access : Access}
    (h : board.Serves request access after) : after.trace = board.trace := by
  cases h <;> rfl

theorem trace_perform (request : Request) (board : Board) :
    (request.perform board).2.trace = board.trace :=
  (serves_perform request board).trace_eq

theorem trace_performAll (requests : List Request) (board : Board) :
    (Request.performAll requests board).2.trace = board.trace := by
  induction requests generalizing board with
  | nil => rfl
  | cons request rest ih =>
      rw [Request.performAll]
      exact (ih _).trans (trace_perform request board)

end Board

/-! ## The board with its entries -/

namespace JournaledBoard

theorem perform_mk (request : Request) (board : Board) (entries : Array (List JournalLine)) :
    request.perform (⟨board, entries⟩ : JournaledBoard) =
      ((request.perform board).1, ⟨(request.perform board).2,
        entries.push ((request.perform board).1.linesIf board.trace)⟩) := by
  cases request with
  | read addr =>
      rw [← Board.lines_read]
      simp only [Request.perform, Bus.read]
      rcases board.read addr with ⟨error | byte, after, lines⟩
      · rfl
      · rfl
  | write addr byte =>
      rw [← Board.lines_write]
      simp only [Request.perform, Bus.write]
      rcases board.write addr byte with ⟨error | _, after, lines⟩
      · rfl
      · rfl

theorem performAll_mk
    (requests : List Request) (board : Board) (entries : Array (List JournalLine)) :
    let done := Request.performAll requests board
    Request.performAll requests (⟨board, entries⟩ : JournaledBoard) =
      (done.1, ⟨done.2, entries ++ done.1.map (Access.linesIf board.trace)⟩) := by
  intro done
  induction requests generalizing board entries with
  | nil => simp [done, Request.performAll]
  | cons request rest ih =>
      have hrest := ih (request.perform board).2
        (entries.push ((request.perform board).1.linesIf board.trace))
      rw [Board.trace_perform] at hrest
      simp only [done, Request.performAll, perform_mk, hrest, List.map_cons,
        Array.appendList_cons]

theorem performAll_ofBoard (requests : List Request) (board : Board) :
    let done := Request.performAll requests board
    Request.performAll requests (ofBoard board) =
      (done.1, ⟨done.2, (done.1.map (Access.linesIf board.trace)).toArray⟩) := by
  intro done
  rw [ofBoard, performAll_mk]
  simp [done]

end JournaledBoard

theorem Transaction.run_ofBoard {α : Type} (t : Transaction α) (board : Board) :
    t.run (JournaledBoard.ofBoard board) =
      ⟨(t.run board).result,
        ⟨(t.run board).bus, ((t.run board).accesses.map (Access.linesIf board.trace)).toArray⟩,
        (t.run board).accesses⟩ := by
  apply run_of_same_answers
  rw [JournaledBoard.performAll_ofBoard, performAll_run]

theorem Cpu.step_ofBoard (cpu : Cpu Board) :
    step ⟨cpu.regs, JournaledBoard.ofBoard cpu.bus⟩ =
      ⟨cpu.step.result, ⟨cpu.step.cpu.regs,
        ⟨cpu.step.cpu.bus, (cpu.step.accesses.map (Access.linesIf cpu.bus.trace)).toArray⟩⟩,
        cpu.step.events⟩ := by
  apply step_of_same_answers
  · rfl
  · rw [JournaledBoard.performAll_ofBoard, performAll_step]

namespace Machine

open MachineEvent

/-- A step of the processor with a journal is the step without one. -/
theorem stepBoard_eq (cpu : Cpu Board) :
    stepBoard cpu =
      (cpu.step.result, cpu.step.cpu, cpu.step.events.map (ofCpu cpu.bus.trace)) := by
  simp only [stepBoard, Cpu.step_ofBoard]
  rw [← ofCpuEvents_eq]
  rfl

theorem transact_eq {α : Type} (t : Transaction α) (machine : Machine) :
    let outcome := t.run machine.cpu.bus
    machine.transact t =
      (outcome.result, ⟨⟨machine.cpu.regs, outcome.bus⟩, machine.config, machine.executed⟩,
        (outcome.accesses.map .access).map (ofCpu machine.cpu.bus.trace)) := by
  intro outcome
  simp only [transact, Transaction.run_ofBoard]
  rw [← ofCpuEvents_eq, CpuEvent.accesses_map_access]

end Machine

end WordMachine
