import Mathlib.Data.List.Basic
import WordMachine.Proofs.Bus.Recording
import WordMachine.Proofs.Cpu.Failures
import WordMachine.Proofs.Instruction.Encoding
import WordMachine.Proofs.Machine.Sessions
import WordMachine.Proofs.Machine.Steps

/-!
# What the journal of a traced run tells

The journal of a run is compared here with what has really happened: the accesses that
have reached the bus, as a recording of each step has them, and the result of the run.

`Cpu.lines` are the lines of one step.  Each access of the step has its request in a line,
and a read of memory the byte that answers it in the next one.  The instruction stands
behind the accesses of its fetch, if both bytes of its word have been read.  The lines of
a run are those of its steps, and behind them the line that says how the run has ended
(`journal_run`).

The four kinds of lines can be told apart by how they begin, so that a reader of the
journal finds each kind by itself: the requests are those of all accesses, in order.
-/

namespace WordMachine

/-! ## The lines of a step -/

namespace Cpu

/-- The line of the instruction, if both bytes of its word have been read. -/
def instructionLines (pc : Address) : List Access → List JournalLine
  | .read _ first :: .read _ second :: _ =>
      [⟨.trace, pc.hex ++ ": " ++ first.hex ++ " " ++ second.hex ++ " " ++
        (Opcode.ofNibble first.highNibble).mnemonic⟩]
  | _ => []

/-- The lines of the step of `cpu`.  The first two of its accesses are its fetch. -/
def lines (cpu : Cpu Board) : List JournalLine :=
  (cpu.attempted.take 2).flatMap Access.lines ++
    instructionLines cpu.regs.pc cpu.attempted ++
      (cpu.attempted.drop 2).flatMap Access.lines

end Cpu

/-- The line that the end of a run adds. -/
def Machine.closingLines : Option (Except RunError RunSummary) → List JournalLine
  | some (.ok summary) =>
      [⟨.debug, "stopped after " ++ toString summary.instructions.toNat ++
        " instructions: " ++ summary.stop.name⟩]
  | some (.error (.step pc error)) =>
      [⟨.debug, "step failed at " ++ pc.hex ++ ": " ++ error.message⟩]
  | some (.error (.executeFromRam _)) => []
  | none => []

/-! ## Kinds of lines -/

inductive LineKind where
  | request
  | answer
  | instruction
  | ending
deriving DecidableEq, Repr

namespace JournalLine

def opensWith (line : JournalLine) (text : String) : Bool :=
  text.toList.isPrefixOf line.message.toList

/-- What the line tells of, as its severity and its beginning show. -/
def kind? (line : JournalLine) : Option LineKind :=
  if line.severity = .trace then some .instruction
  else if line.opensWith "[READ_REQ] addr:" || line.opensWith "[WRITE_REQ] addr:" then
    some .request
  else if line.opensWith "[READ_REQ] byte:" then some .answer
  else if line.opensWith "step failed at " || line.opensWith "stopped after " then some .ending
  else none

def ofKind (kind : LineKind) (lines : List JournalLine) : List JournalLine :=
  lines.filter fun line => line.kind? = some kind

end JournalLine

section Kinds

open JournalLine

variable {kind kind' : LineKind} {lines : List JournalLine} {line : JournalLine}

theorem JournalLine.ofKind_append (kind : LineKind) (lines lines' : List JournalLine) :
    ofKind kind (lines ++ lines') = ofKind kind lines ++ ofKind kind lines' :=
  List.filter_append lines lines'

theorem JournalLine.ofKind_flatMap {α : Type} (kind : LineKind) (items : List α)
    (f : α → List JournalLine) :
    ofKind kind (items.flatMap f) = items.flatMap fun item => ofKind kind (f item) :=
  List.filter_flatMap

theorem JournalLine.ofKind_same (hkind : ∀ line ∈ lines, line.kind? = some kind) :
    ofKind kind lines = lines := by
  apply List.filter_eq_self.mpr
  intro line hmem
  exact decide_eq_true (hkind line hmem)

theorem JournalLine.ofKind_other
    (hkind : ∀ line ∈ lines, line.kind? = some kind) (hne : kind ≠ kind') :
    ofKind kind' lines = [] := by
  apply List.filter_eq_nil_iff.mpr
  intro line hmem hother
  rw [hkind line hmem] at hother
  exact hne (Option.some.inj (of_decide_eq_true hother))

theorem Request.kind_line (request : Request) : request.line.kind? = some .request := by
  cases request with
  | read addr => simp [line, kind?, opensWith]
  | write addr byte => simp [line, kind?, opensWith]

theorem Access.kind_of_mem_answerLines
    {access : Access} (hmem : line ∈ access.answerLines) : line.kind? = some .answer := by
  unfold answerLines at hmem
  split at hmem
  next addr byte =>
    split at hmem
    next =>
      rw [List.mem_singleton] at hmem
      subst hmem
      simp [kind?, opensWith]
    next => contradiction
  next => contradiction

theorem Cpu.kind_of_mem_instructionLines
    {pc : Address} {made : List Access} (hmem : line ∈ instructionLines pc made) :
    line.kind? = some .instruction := by
  unfold instructionLines at hmem
  split at hmem
  next =>
    rw [List.mem_singleton] at hmem
    subst hmem
    rfl
  next => contradiction

theorem Machine.kind_of_mem_closingLines
    {result : Option (Except RunError RunSummary)} (hmem : line ∈ closingLines result) :
    line.kind? = some .ending := by
  unfold closingLines at hmem
  split at hmem
  next summary =>
    rw [List.mem_singleton] at hmem
    subst hmem
    simp [kind?, opensWith]
  next pc error =>
    rw [List.mem_singleton] at hmem
    subst hmem
    simp [kind?, opensWith]
  next => contradiction
  next => contradiction

theorem Access.ofKind_lines (access : Access) :
    ofKind .request access.lines = [access.request.line] ∧
      ofKind .answer access.lines = access.answerLines ∧
      ofKind .instruction access.lines = [] ∧ ofKind .ending access.lines = [] := by
  have hrequest : ∀ line ∈ [access.request.line], line.kind? = some .request := by
    intro line hmem
    rw [List.mem_singleton.mp hmem, Request.kind_line]
  have hanswer : ∀ line ∈ access.answerLines, line.kind? = some .answer :=
    fun line hmem => kind_of_mem_answerLines hmem
  have hsplit : access.lines = [access.request.line] ++ access.answerLines := rfl
  simp only [hsplit, ofKind_append]
  refine ⟨?_, ?_, ?_, ?_⟩
  · rw [ofKind_same hrequest, ofKind_other hanswer (by decide), List.append_nil]
  · rw [ofKind_other hrequest (by decide), ofKind_same hanswer, List.nil_append]
  · rw [ofKind_other hrequest (by decide), ofKind_other hanswer (by decide), List.append_nil]
  · rw [ofKind_other hrequest (by decide), ofKind_other hanswer (by decide), List.append_nil]

theorem Access.ofKind_flatMap_lines (made : List Access) :
    ofKind .request (made.flatMap Access.lines) = made.map (fun access => access.request.line) ∧
      ofKind .answer (made.flatMap Access.lines) = made.flatMap answerLines ∧
      ofKind .instruction (made.flatMap Access.lines) = [] ∧
      ofKind .ending (made.flatMap Access.lines) = [] := by
  have hempty : made.flatMap (fun _ => ([] : List JournalLine)) = [] :=
    List.flatMap_eq_nil_iff.mpr fun _ _ => rfl
  simp only [ofKind_flatMap, Access.ofKind_lines, hempty, List.map_eq_flatMap, and_self]

end Kinds

/-! ## The journal of a run -/

theorem JournalLine.ofInstruction_decode (pc : Address) (first second : Byte) :
    ofInstruction pc (.decode first second) =
      ⟨.trace, pc.hex ++ ": " ++ first.hex ++ " " ++ second.hex ++ " " ++
        (Opcode.ofNibble first.highNibble).mnemonic⟩ := by
  unfold ofInstruction
  rw [Instruction.bytes_decode]
  rfl

theorem Cpu.flatMap_announced (pc : Address) (made : List Access) :
    (announced pc made).flatMap (CpuEvent.lines Access.lines) = instructionLines pc made := by
  unfold announced
  split
  next first _ second _ =>
    rw [List.flatMap_singleton, CpuEvent.lines, JournalLine.ofInstruction_decode]
    rfl
  next hother =>
    unfold instructionLines
    split
    next => exact absurd rfl (hother _ _ _ _ _)
    next => rfl

theorem Cpu.flatMap_eventsOf (pc : Address) (made : List Access) :
    (eventsOf pc made).flatMap (CpuEvent.lines Access.lines) =
      (made.take 2).flatMap Access.lines ++ instructionLines pc made ++
        (made.drop 2).flatMap Access.lines := by
  have haccesses : ∀ accesses : List Access,
      (accesses.map CpuEvent.access).flatMap (CpuEvent.lines Access.lines) =
        accesses.flatMap Access.lines := by
    intro accesses
    rw [List.flatMap_map]
    rfl
  unfold eventsOf
  rw [List.flatMap_append, List.flatMap_append, haccesses, haccesses, flatMap_announced]

namespace Machine

variable {machine : Machine}

theorem lines_step (cpu : Cpu Board) :
    (cpu.step.events.map (.ofCpu true)).flatMap MachineEvent.lines = cpu.lines := by
  have hlines : (fun event => (MachineEvent.ofCpu true event).lines) =
      CpuEvent.lines Access.lines := rfl
  rw [List.flatMap_map, hlines, Cpu.events_step, Cpu.flatMap_eventsOf,
    ← Cpu.attempted_eq_accesses]
  rfl

theorem lines_closing (result : Option (Except RunError RunSummary)) :
    (closing result).flatMap MachineEvent.lines = closingLines result := by
  unfold closing closingLines
  split <;> rfl

theorem trace_run (machine : Machine) (rounds : Nat) :
    (machine.run rounds).machine.cpu.bus.trace = machine.cpu.bus.trace := by
  have hboard := congrArg Prod.snd (machine.performAll_run rounds)
  simp only at hboard
  rw [← hboard, Board.trace_performAll]

theorem trace_of_mem_stepped
    {cpu : Cpu Board} {rounds : Nat} (hmem : cpu ∈ machine.stepped rounds) :
    cpu.bus.trace = machine.cpu.bus.trace := by
  rcases mem_stepped_iff.mp hmem with ⟨round, -, hstep⟩
  rcases open_of_stepIn? hstep with ⟨-, -, rfl⟩
  exact machine.trace_run round

theorem journal_run (htraced : machine.cpu.bus.trace = true) (rounds : Nat) :
    let after := machine.run rounds
    MachineEvent.journal after.events.toList =
      (machine.stepped rounds).flatMap Cpu.lines ++ closingLines after.result := by
  intro after
  have hsteps : (machine.stepped rounds).flatMap
      (fun cpu => (cpu.step.events.map (.ofCpu cpu.bus.trace)).flatMap MachineEvent.lines) =
        (machine.stepped rounds).flatMap Cpu.lines := by
    apply List.flatMap_congr
    intro cpu hmem
    rw [trace_of_mem_stepped hmem, htraced, lines_step]
  unfold MachineEvent.journal
  rw [events_run, List.flatMap_append, List.flatMap_assoc, lines_closing, hsteps]

end Machine

/-! ## One kind of lines -/

section Reading

open JournalLine

theorem Cpu.ofKind_lines (cpu : Cpu Board) :
    ofKind .request cpu.lines = cpu.attempted.map (fun access => access.request.line) ∧
      ofKind .answer cpu.lines = cpu.attempted.flatMap Access.answerLines ∧
      ofKind .instruction cpu.lines = instructionLines cpu.regs.pc cpu.attempted ∧
      ofKind .ending cpu.lines = [] := by
  have hinstruction : ∀ line ∈ instructionLines cpu.regs.pc cpu.attempted,
      line.kind? = some .instruction := fun line hmem => kind_of_mem_instructionLines hmem
  have hsplit : cpu.attempted.take 2 ++ cpu.attempted.drop 2 = cpu.attempted :=
    List.take_append_drop 2 cpu.attempted
  simp only [lines, ofKind_append, Access.ofKind_flatMap_lines]
  refine ⟨?_, ?_, ?_, ?_⟩
  · rw [ofKind_other hinstruction (by decide), List.append_nil, ← List.map_append, hsplit]
  · rw [ofKind_other hinstruction (by decide), List.append_nil, ← List.flatMap_append, hsplit]
  · rw [ofKind_same hinstruction, List.nil_append, List.append_nil]
  · rw [ofKind_other hinstruction (by decide)]
    rfl

/-- A read of memory is always answered. -/
theorem Board.Serves.exists_read
    {board after : Board} {request : Request} {access : Access} {addr : Address}
    (h : board.Serves request access after) (hrequest : access.request = .read addr)
    (haddr : RomImage.base ≤ addr) : ∃ byte, access = .read addr byte := by
  rcases ne_device_of_base_le haddr with ⟨hexit, hinput, houtput⟩
  cases h with
  | readRefused hport =>
      have heq := Request.read.inj hrequest
      subst heq
      exact absurd hport (not_or.mpr ⟨hexit, houtput⟩)
  | received hreceive => exact absurd (Request.read.inj hrequest).symm hinput
  | notReceived hreceive => exact absurd (Request.read.inj hrequest).symm hinput
  | loaded haddr =>
      have heq := Request.read.inj hrequest
      subst heq
      exact ⟨_, rfl⟩
  | _ => contradiction

theorem Board.exists_read_of_mem_performAll
    {requests : List Request} {board : Board} {access : Access} {addr : Address}
    (hmem : access ∈ (Request.performAll requests board).1)
    (hrequest : access.request = .read addr) (haddr : RomImage.base ≤ addr) :
    ∃ byte, access = .read addr byte := by
  induction requests generalizing board with
  | nil => contradiction
  | cons request rest ih =>
      rw [Request.performAll, List.mem_cons] at hmem
      rcases hmem with rfl | hmem
      · exact (serves_perform request board).exists_read hrequest haddr
      · exact ih hmem

namespace Machine

theorem accesses_closing (result : Option (Except RunError RunSummary)) :
    MachineEvent.accesses (closing result) = [] := by
  unfold closing
  split <;> rfl

/-- The accesses in the events of a run are those that its steps have made. -/
theorem accesses_run (machine : Machine) (rounds : Nat) :
    MachineEvent.accesses (machine.run rounds).events.toList =
      (machine.stepped rounds).flatMap Cpu.attempted := by
  have hstep : ∀ cpu : Cpu Board,
      MachineEvent.accesses (cpu.step.events.map (.ofCpu cpu.bus.trace)) = cpu.attempted := by
    intro cpu
    rw [MachineEvent.accesses_map_ofCpu, Cpu.attempted_eq_accesses]
    rfl
  rw [events_run, MachineEvent.accesses_append, accesses_closing, List.append_nil,
    MachineEvent.accesses, List.filterMap_flatMap]
  congr 1
  funext cpu
  exact hstep cpu

/-- The journal of a traced run is a faithful record of it.  Step by step it has the lines
of the accesses that the step attempts, the fetch first, with the line of the instruction
behind the fetch, and it closes with the line for the result of the run.  So its requests
are those of all accesses of the run, the refused ones among them, its answers are the
bytes that the memory gives, its instructions are the words that the steps have fetched,
and there is one line at most that tells of an end. -/
theorem journal_faithful
    (machine : Machine) (htraced : machine.cpu.bus.trace = true) (rounds : Nat) :
    let after := machine.run rounds
    let journal := MachineEvent.journal after.events.toList
    let steps := machine.stepped rounds
    let attempts := steps.flatMap Cpu.attempted
    journal = steps.flatMap Cpu.lines ++ closingLines after.result ∧
      ofKind .request journal = (attempts.map Access.request).map Request.line ∧
      ofKind .answer journal = attempts.flatMap Access.answerLines ∧
      ofKind .instruction journal =
        steps.flatMap (fun cpu => Cpu.instructionLines cpu.regs.pc cpu.attempted) ∧
      ofKind .ending journal = closingLines after.result ∧
      (∀ access ∈ attempts, ∀ addr, access.request = .read addr → RomImage.base ≤ addr →
        ∃ byte, access = .read addr byte) ∧
      (∀ cpu ∈ steps,
        (cpu.attempted.take 2).map Access.request <+: Request.readWord cpu.regs.pc) ∧
      Request.performAll (attempts.map Access.request) machine.cpu.bus =
        (attempts, after.machine.cpu.bus) := by
  intro after journal steps attempts
  have hjournal : journal = steps.flatMap Cpu.lines ++ closingLines after.result :=
    journal_run htraced rounds
  have hending : ∀ line ∈ closingLines after.result, line.kind? = some .ending :=
    fun line hmem => kind_of_mem_closingLines hmem
  have hboard : Request.performAll (attempts.map Access.request) machine.cpu.bus =
      (attempts, after.machine.cpu.bus) := by
    have hrun := machine.performAll_run rounds
    rw [accesses_run] at hrun
    exact hrun
  have hsteps : ∀ kind ≠ .ending,
      ofKind kind journal = steps.flatMap fun cpu => ofKind kind cpu.lines := by
    intro kind hkind
    rw [hjournal, ofKind_append, ofKind_flatMap, ofKind_other hending hkind.symm,
      List.append_nil]
  have hnone : steps.flatMap (fun cpu => ofKind .ending cpu.lines) = [] :=
    List.flatMap_eq_nil_iff.mpr fun cpu _ => (Cpu.ofKind_lines cpu).2.2.2
  refine ⟨hjournal, ?_, ?_, ?_, ?_, ?_, ?_, hboard⟩
  · rw [hsteps _ (by decide), List.map_map, List.map_flatMap]
    simp only [Cpu.ofKind_lines]
    rfl
  · rw [hsteps _ (by decide), List.flatMap_assoc]
    simp only [Cpu.ofKind_lines]
  · rw [hsteps _ (by decide)]
    simp only [Cpu.ofKind_lines]
  · rw [hjournal, ofKind_append, ofKind_flatMap, ofKind_same hending, hnone, List.nil_append]
  · intro access hmem addr hrequest haddr
    have hmade :
        access ∈ (Request.performAll (attempts.map Access.request) machine.cpu.bus).1 := by
      rw [hboard]
      exact hmem
    exact Board.exists_read_of_mem_performAll hmade hrequest haddr
  · intro cpu hmem
    rw [Cpu.attempted_eq_accesses, List.map_take]
    exact Cpu.fetch_accesses_isPrefix cpu

/-- A machine that loads an immediate and then stores to the console output, which takes
no byte. -/
def storingInVain : Machine :=
  ofRom (.ofBytes [0x04, 0x10, 0x02, 0x00, 0x30, 0x00]) [] (.withReplies fun _ => .refused)
    ⟨true, none⟩

/-- The refused store is the last request of the journal, behind the reads of both words
and of the operand, and the end is the failed step. -/
theorem journal_faithful_not_sent :
    let after := storingInVain.run 3
    let journal := MachineEvent.journal after.events.toList
    let error : CpuError := .bus (Board.consoleFailure (.output "failed to write whole buffer"))
    storingInVain.cpu.bus.trace = true ∧
      ofKind .request journal =
        [Request.line (.read 3), Request.line (.read 4), Request.line (.read 5),
          Request.line (.read 6), Request.line (.read 7), Request.line (.read 8),
          Request.line (.write 2 0x00)] ∧
      ofKind .ending journal = closingLines (some (.error (.step 7 error))) := by
  intro after journal error
  have hrequests : ((storingInVain.stepped 3).flatMap Cpu.attempted).map Access.request =
      [.read 3, .read 4, .read 5, .read 6, .read 7, .read 8, .write 2 0x00] := by rfl
  have hresult : (storingInVain.run 3).result = some (.error (.step 7 error)) := by rfl
  rcases journal_faithful storingInVain rfl 3 with ⟨-, hlines, -, -, hending, -⟩
  rw [hrequests] at hlines
  rw [hresult] at hending
  exact ⟨rfl, hlines, hending⟩

end Machine

end Reading

end WordMachine
