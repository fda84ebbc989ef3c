import WordMachine.Machine.Host
import WordMachine.Proofs.Machine.Rounds
import WordMachine.Proofs.Machine.Sessions

/-!
# Tracing changes the journal and nothing else

A traced board takes branches that another one does not take, at every access.
`Machine.withTrace` sets the flag of a machine, and everything that can happen to the
machine commutes with it: a request on the board (`Board.perform_withTrace`), a step of the
processor (`Cpu.step_withTrace`), a round (`turn_withTrace`), a run (`run_withTrace`), the
operations of a host (`performAll_withTrace`).  The events come out with other lines, and
are otherwise the same (`MachineEvent.retraced`).

All that tracing adds to the journal are the lines of the accesses.  These tell of a request
on the bus, and no other line does (`MachineEvent.untraced_lines`).
-/

namespace WordMachine

/-! ## A board with its flag set -/

namespace Board

/-- The same board, traced or not. -/
def withTrace (trace : Bool) (board : Board) : Board :=
  { board with trace }

variable {board : Board} {request : Request} (trace : Bool)

theorem Serves.withTrace
    {access : Access} {after : Board} (h : board.Serves request access after) :
    (board.withTrace trace).Serves request access (after.withTrace trace) := by
  -- It is the same case on both boards, since none of them looks at the flag.
  cases h <;> constructor <;> assumption

theorem perform_withTrace (request : Request) (board : Board) :
    request.perform (board.withTrace trace) =
      ((request.perform board).1, (request.perform board).2.withTrace trace) :=
  ((serves_perform request board).withTrace trace).perform_eq

theorem performAll_withTrace (requests : List Request) (board : Board) :
    Request.performAll requests (board.withTrace trace) =
      ((Request.performAll requests board).1,
        (Request.performAll requests board).2.withTrace trace) := by
  induction requests generalizing board with
  | nil => rfl
  | cons request rest ih => simp only [Request.performAll, perform_withTrace, ih]

end Board

theorem Transaction.run_withTrace
    {α : Type} (trace : Bool) (t : Transaction α) (board : Board) :
    t.run (board.withTrace trace) =
      ⟨(t.run board).result, (t.run board).bus.withTrace trace, (t.run board).accesses⟩ := by
  apply run_of_same_answers
  rw [Board.performAll_withTrace, performAll_run]

theorem Cpu.step_withTrace (trace : Bool) (cpu : Cpu Board) :
    step ⟨cpu.regs, cpu.bus.withTrace trace⟩ =
      ⟨cpu.step.result, ⟨cpu.step.cpu.regs, cpu.step.cpu.bus.withTrace trace⟩,
        cpu.step.events⟩ := by
  apply step_of_same_answers
  · rfl
  · rw [Board.performAll_withTrace, performAll_step]

/-! ## A machine with its flag set -/

namespace MachineEvent

/-- The event with the lines that it has if the board is traced, or is not. -/
def retraced (trace : Bool) : MachineEvent → MachineEvent
  | cpu event _ => ofCpu trace event
  | stepFailed pc error => .stepFailed pc error
  | stopped instructions reason => .stopped instructions reason

theorem map_retraced (trace trace' : Bool) (events : List CpuEvent) :
    (events.map (ofCpu trace')).map (retraced trace) = events.map (ofCpu trace) := by
  rw [List.map_map]
  rfl

end MachineEvent

namespace Machine

open MachineEvent

/-- The same machine, traced or not. -/
def withTrace (trace : Bool) (machine : Machine) : Machine :=
  ⟨⟨machine.cpu.regs, machine.cpu.bus.withTrace trace⟩, machine.config.withTrace trace,
    machine.executed⟩

variable {machine : Machine} (trace : Bool)

theorem turn_withTrace (machine : Machine) :
    (machine.withTrace trace).turn =
      ⟨machine.turn.result, machine.turn.machine.withTrace trace,
        machine.turn.events.map (retraced trace)⟩ := by
  have hstop : (machine.withTrace trace).stopReason? = machine.stopReason? := rfl
  unfold turn
  rw [hstop]
  cases machine.stopReason? with
  | some reason => rfl
  | none =>
      simp only [withTrace, stepBoard_eq, Cpu.step_withTrace]
      rcases machine.cpu.step with ⟨error | instr, cpu, events⟩
      · simp only [List.map_append, map_retraced]
        rfl
      · simp only [map_retraced]
        rfl

theorem run_withTrace (machine : Machine) (rounds : Nat) :
    (machine.withTrace trace).run rounds =
      ⟨(machine.run rounds).result, (machine.run rounds).machine.withTrace trace,
        (machine.run rounds).events.map (retraced trace)⟩ := by
  induction rounds with
  | zero => simp [run, runFrom]
  | succ rounds ih =>
      have hresult : ((machine.withTrace trace).run rounds).result =
          (machine.run rounds).result := by
        rw [ih]
      cases hrun : (machine.run rounds).result with
      | some result => rw [run_succ_of_ended hrun, run_succ_of_ended (hresult.trans hrun), ih]
      | none =>
          rw [run_succ_of_open hrun, run_succ_of_open (hresult.trans hrun), ih, turn_withTrace]
          simp only [RunResult.mk.injEq, true_and]
          apply Array.toList_inj.mp
          simp

theorem stepCpu_withTrace (machine : Machine) :
    (machine.withTrace trace).stepCpu =
      (machine.stepCpu.1, machine.stepCpu.2.1.withTrace trace,
        machine.stepCpu.2.2.map (retraced trace)) := by
  simp only [stepCpu, withTrace, stepBoard_eq, Cpu.step_withTrace, map_retraced]
  rfl

theorem transact_withTrace {α : Type} (t : Transaction α) (machine : Machine) :
    (machine.withTrace trace).transact t =
      ((machine.transact t).1, (machine.transact t).2.1.withTrace trace,
        (machine.transact t).2.2.map (retraced trace)) := by
  simp only [transact_eq, map_retraced]
  simp only [withTrace, Transaction.run_withTrace]
  rfl

end Machine

namespace HostOperation

open MachineEvent

variable (trace : Bool)

theorem perform_withTrace (operation : HostOperation) (machine : Machine) :
    operation.perform (machine.withTrace trace) =
      ((operation.perform machine).1, (operation.perform machine).2.1.withTrace trace,
        (operation.perform machine).2.2.map (retraced trace)) := by
  cases operation with
  | run rounds => simp only [perform, Machine.run_withTrace, Array.toList_map]
  | step => simp only [perform, Machine.stepCpu_withTrace]
  | setRegister r value => rfl
  | bus operation => simp only [perform, Machine.transact_withTrace]
  | peek addr => rfl

theorem performAll_withTrace (operations : List HostOperation) (machine : Machine) :
    performAll operations (machine.withTrace trace) =
      ⟨(performAll operations machine).answers,
        (performAll operations machine).machine.withTrace trace,
        (performAll operations machine).events.map (retraced trace)⟩ := by
  induction operations generalizing machine with
  | nil => rfl
  | cons operation rest ih =>
      simp only [performAll, perform_withTrace, ih, List.map_append]

end HostOperation

/-! ## The lines of the accesses -/

namespace JournalLine

/-- The line tells of a request on the bus. -/
def tellsRequest (line : JournalLine) : Bool :=
  "[READ_REQ]".toList.isPrefixOf line.message.toList ||
    "[WRITE_REQ]".toList.isPrefixOf line.message.toList

/-- Both kinds of requests are told in lines that open with a bracket. -/
theorem not_tellsRequest_of_head
    {line : JournalLine} (hhead : line.message.toList.head? ≠ some '[') :
    line.tellsRequest = false := by
  unfold tellsRequest
  cases hmessage : line.message.toList with
  | nil => simp
  | cons c rest =>
      rw [hmessage, List.head?_cons, Ne, Option.some.injEq] at hhead
      simp [List.isPrefixOf, Ne.symm hhead]

theorem not_tellsRequest_ofInstruction (pc : Address) (instr : Instruction) :
    (ofInstruction pc instr).tellsRequest = false := by
  have hdigit : ∀ value < 16, Hexadecimal.digit value ≠ '[' := by decide
  have hhead : (ofInstruction pc instr).message.toList.head? =
      some (Hexadecimal.digit (pc.toNat / 16 / 16 / 16 % 16)) := by
    simp [ofInstruction, Word.hex, Hexadecimal.digits]
  apply not_tellsRequest_of_head
  rw [hhead, Ne, Option.some.injEq]
  exact hdigit _ (Nat.mod_lt _ (by decide))

end JournalLine

open JournalLine

theorem Access.tellsRequest_of_mem_lines
    {access : Access} {line : JournalLine} (hmem : line ∈ access.lines) :
    line.tellsRequest = true := by
  rw [lines, List.mem_cons] at hmem
  rcases hmem with rfl | hmem
  · cases access <;> simp [request, Request.line, tellsRequest]
  · unfold answerLines at hmem
    split at hmem
    next addr byte =>
      split at hmem
      next =>
        rw [List.mem_singleton.mp hmem]
        simp [tellsRequest]
      next => contradiction
    next => contradiction

namespace MachineEvent

/-- Without the lines that tell of requests, an event has the lines that it has without
tracing. -/
theorem untraced_lines (event : MachineEvent) :
    (event.retraced true).lines.filter (fun line => !line.tellsRequest) =
      (event.retraced false).lines := by
  cases event with
  | cpu event lines =>
      cases event with
      | access made =>
          change made.lines.filter _ = []
          apply List.filter_eq_nil_iff.mpr
          intro line hmem
          simp [Access.tellsRequest_of_mem_lines hmem]
      | decoded pc instr =>
          change [ofInstruction pc instr].filter _ = [ofInstruction pc instr]
          simp [not_tellsRequest_ofInstruction]
  | stepFailed pc error =>
      apply List.filter_eq_self.mpr
      intro line hmem
      rw [List.mem_singleton.mp hmem, not_tellsRequest_of_head (by simp)]
      rfl
  | stopped instructions reason =>
      apply List.filter_eq_self.mpr
      intro line hmem
      rw [List.mem_singleton.mp hmem, not_tellsRequest_of_head (by simp)]
      rfl

theorem untraced_journal (events : List MachineEvent) :
    (journal (events.map (retraced true))).filter (fun line => !line.tellsRequest) =
      journal (events.map (retraced false)) := by
  simp only [journal, List.filter_flatMap, List.flatMap_map, untraced_lines]

end MachineEvent

/-- Tracing never changes behaviour.  Whatever a host does with two machines that differ
in nothing but whether they are traced, each operation answers the same, and the machines
go on differing in nothing else.  The journal of the one that is not traced is that of
the other without the lines that tell of requests on the bus. -/
theorem tracing_inert
    (rom : RomImage) (input : List InputItem) (output : Sink) (config : MachineConfig)
    (operations : List HostOperation) :
    let session := fun trace =>
      HostOperation.performAll operations (.ofRom rom input output (config.withTrace trace))
    let traced := session true
    let untraced := session false
    untraced.answers = traced.answers ∧
      untraced.machine.cpu.regs = traced.machine.cpu.regs ∧
      untraced.machine.cpu.bus = { traced.machine.cpu.bus with trace := false } ∧
      untraced.machine.executed = traced.machine.executed ∧
      MachineEvent.journal untraced.events =
        (MachineEvent.journal traced.events).filter fun line => !line.tellsRequest := by
  intro session traced untraced
  let machine := Machine.ofRom rom input output config
  have htraced : traced = _ := HostOperation.performAll_withTrace true operations machine
  have huntraced : untraced = _ := HostOperation.performAll_withTrace false operations machine
  rw [htraced, huntraced]
  exact ⟨rfl, rfl, rfl, rfl, (MachineEvent.untraced_journal _).symm⟩

end WordMachine
