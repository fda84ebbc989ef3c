import WordMachine.Bus.Memory
import WordMachine.Proofs.Cpu.Memory
import WordMachine.Proofs.Instruction.Results

/-!
# The registers behind a step

A step that succeeds leaves the registers as the effect of its instruction does, on any bus.
The instruction reads them with the program counter behind its word already, and what it reads
on the bus are the bytes behind that word, in the order of its accesses (`effect_of_ok`).

`step_continuation` says where the next instruction is, and `step_footprint` which registers
keep their values and how the stack pointer moves.
-/

namespace WordMachine.Cpu

open Instruction

/-- The bytes that a step has read behind the word of its instruction. -/
def Step.bytesBehind {σ : Type} (step : Step σ) : List Byte :=
  (answers step.accesses).tail.tail

variable {σ : Type} [Bus σ] {cpu : Cpu σ} {instr : Instruction}

theorem effect_of_ok (hok : cpu.step.result = .ok instr) :
    let p := cpu.regs.pc
    let source := cpu.regs.setPc (p + 2)
    let bytes := cpu.step.bytesBehind
    cpu.step.cpu.regs = (instr.effect source).value bytes ∧
      cpu.step.accesses.map Access.request =
        Request.readWord p ++ instr.operandRequests p ++
          instr.dataRequests p source (wordAt bytes 0) := by
  intro p source bytes
  have hpc : source.pc = p + 2 := Registers.pc_setPc cpu.regs (p + 2)
  obtain ⟨-, hrequests, hregs⟩ := step_of_ok hok
  constructor
  · exact hregs
  · rw [hrequests, List.append_assoc, ← ofBytes_headD_tail, ← requests_effect hpc]
    rfl

/-- The law of the program counter.  A step goes on behind its instruction and the operand of
it, unless the instruction jumps, calls or returns, or has the program counter as the place
of its result.  A jump whose condition does not hold is no exception, so it can run into the
sentinel as any other instruction can. -/
theorem step_continuation (hok : cpu.step.result = .ok instr) :
    let p := cpu.regs.pc
    let source := cpu.regs.setPc (p + 2)
    let bytes := cpu.step.bytesBehind
    let after := cpu.step.cpu.regs.pc
    cpu.step.accesses.map Access.request =
      Request.readWord p ++ instr.operandRequests p ++
        instr.dataRequests p source (wordAt bytes 0) ∧
    (∀ target, instr.transfer? source bytes = some target → after = target) ∧
    (instr.transfer? source bytes = none →
      (.programCounter ∈ instr.destinations →
        after = instr.result source bytes .programCounter + instr.operandLength) ∧
      (.programCounter ∉ instr.destinations →
        after = p + 2 + instr.operandLength ∧
          (p = 0xFFFD ∧ instr.operandLength = 0 ∨ p = 0xFFFB ∧ instr.operandLength = 2 →
            after = sentinel))) ∧
    (cpu.regs.condition ≠ 0 →
      (instr.opcode = .jump → after = p + 2) ∧
      (instr.opcode = .extended → instr.extendedOp = .jumpImmediate → after = p + 4)) := by
  intro p source bytes after
  have hpc : source.pc = p + 2 := Registers.pc_setPc cpu.regs (p + 2)
  obtain ⟨hregs, hrequests⟩ := effect_of_ok hok
  have hafter : after = instr.continuation source bytes := by
    rw [← pc_effect, ← hregs]
  refine ⟨hrequests, ?_, ?_, ?_⟩
  · intro target htarget
    rw [hafter, continuation, htarget]
  · intro hnone
    rw [continuation, hnone] at hafter
    constructor
    · intro hmem
      rw [hafter, if_pos hmem]
    · intro hmem
      rw [if_neg hmem, hpc] at hafter
      refine ⟨hafter, ?_⟩
      rintro (⟨hp, hlength⟩ | ⟨hp, hlength⟩)
      · rw [hafter, hp, hlength]
        rfl
      · rw [hafter, hp, hlength]
        rfl
  · intro hcondition
    have hsame : source.condition = cpu.regs.condition :=
      Registers.get_set_of_ne cpu.regs (by decide) (p + 2)
    have hsource : source.condition ≠ 0 := by
      rwa [hsame]
    constructor
    · intro hop
      simp [hafter, continuation, transfer?, destinations, operandLength, hop, hsource, hpc]
    · intro hopcode hop
      simp [hafter, continuation, transfer?, destinations, operandLength, hopcode, hop, hsource,
        hpc, UInt16.add_assoc]

/-- A loaded program counter is moved past the operand of the load, and a jump that is not taken
runs into the sentinel. -/
theorem step_continuation_sentinel :
    let loads : Cpu Memory :=
      ⟨Registers.startingAt 3, Memory.zero.load 3 [0x09, 0x7F, 0x07, 0x00, 0xFE, 0xFF]⟩
    let falls : Cpu Memory :=
      ⟨(Registers.startingAt 0xFFFB).set .condition 7, Memory.zero.set 0xFFFB 0x05⟩
    loads.step.cpu.regs.pc = 0 ∧ falls.step.cpu.regs.pc = sentinel := by
  intro loads falls
  have hloads : loads.step.result = .ok (.decode 0x09 0x7F) := by rfl
  have hfalls : falls.step.result = .ok (.decode 0x05 0x00) := by
    have hfetched : falls.bus.instructionAt 0xFFFB = .decode 0x05 0x00 := by
      simp [Memory.instructionAt, falls, Memory.get_set]
    obtain ⟨hresult, -⟩ := @step_memory falls (by decide)
    have hpc : falls.regs.pc = 0xFFFB := rfl
    rw [hresult, hpc, hfetched]
    rfl
  obtain ⟨-, -, hnone, -⟩ := step_continuation hloads
  obtain ⟨-, -, -, hcondition⟩ := step_continuation hfalls
  constructor
  · have hbytes : loads.step.bytesBehind = [0x07, 0x00, 0xFE, 0xFF] := by rfl
    rw [(hnone rfl).1 (by decide), hbytes]
    decide
  · exact (hcondition (by decide)).2 rfl rfl

/-- A step changes the program counter, the destinations of its instruction, and of the other
registers only those that the instruction implies. -/
theorem step_footprint (hok : cpu.step.result = .ok instr) :
    let p := cpu.regs.pc
    let s := cpu.regs.sp
    let after := cpu.step.cpu.regs
    (∀ r, r ≠ .programCounter → r ∉ instr.destinations → r ∉ instr.implied →
      after.get r = cpu.regs.get r) ∧
    (∀ op ∈ [StackOp.pushImmediate, .pushRegister, .callAddress, .callRegister],
      instr.stackOp? = some op → after.sp = s + 2) ∧
    (instr.stackOp? = some .ret → after.sp = s - 2) ∧
    (instr.stackOp? = some .popRegister →
      after.sp =
        (if instr.low = .stackPointer then wordAt cpu.step.bytesBehind 0 else s) - 2 ∧
      cpu.step.accesses.map Access.request =
        Request.readWord p ++ Request.readWord (s - 2)) ∧
    (instr.stackOp? = some .pushRegister → instr.low = .stackPointer →
      cpu.step.accesses.map Access.request =
        Request.readWord p ++ Request.writeWord s s) := by
  intro p s after
  obtain ⟨hregs, hrequests⟩ := effect_of_ok hok
  have hsource : (cpu.regs.setPc (p + 2)).sp = s := Registers.sp_setPc cpu.regs (p + 2)
  have hafter : after = (instr.effect (cpu.regs.setPc (p + 2))).value cpu.step.bytesBehind :=
    hregs
  refine ⟨?_, ?_, ?_, ?_, ?_⟩
  · intro r hpc hdestination himplied
    rw [hafter, get_effect_of_not_mem hpc hdestination himplied]
    exact Registers.get_set_of_ne cpu.regs hpc (p + 2)
  · intro op hpush hop
    rw [hafter, sp_effect_of_push hop hpush, hsource]
  · intro hop
    rw [hafter, sp_effect_of_ret hop, hsource]
  · intro hop
    constructor
    · rw [hafter, sp_effect_of_pop hop, hsource]
    · rcases stackOp?_eq_some_iff.mp hop with ⟨hopcode, hgroup, hpop⟩
      simp [hrequests, operandRequests, operandLength, dataRequests, hopcode, hgroup, hpop, p, s]
  · intro hop hlow
    rcases stackOp?_eq_some_iff.mp hop with ⟨hopcode, hgroup, hpush⟩
    have hpushed : (cpu.regs.setPc (p + 2)).get instr.low = s := by
      rw [hlow]
      exact hsource
    simp [hrequests, operandRequests, operandLength, dataRequests, hopcode, hgroup, hpush,
      hpushed, p, s]

/-- The stack pointer is popped, and the stack pointer is pushed. -/
theorem step_footprint_stack_pointer :
    let pops : Cpu Memory :=
      ⟨(Registers.startingAt 3).setSp 16,
        (Memory.zero.load 3 [0x09, 0x2D]).load 14 [0x00, 0x01]⟩
    let pushes : Cpu Memory :=
      ⟨(Registers.startingAt 3).setSp 16, Memory.zero.load 3 [0x09, 0x1D]⟩
    pops.step.cpu.regs.sp = 0xFE ∧ pops.step.cpu.regs.get .condition = 0 ∧
      pushes.step.cpu.regs.sp = 18 ∧
      pushes.step.accesses.map Access.request =
        [.read 3, .read 4, .write 16 16, .write 17 0] := by
  intro pops pushes
  have hpops : pops.step.result = .ok (.decode 0x09 0x2D) := by rfl
  have hpushes : pushes.step.result = .ok (.decode 0x09 0x1D) := by rfl
  obtain ⟨hframe, -, -, hpopped, -⟩ := step_footprint hpops
  obtain ⟨-, hpushed, -, -, hstored⟩ := step_footprint hpushes
  have hbytes : pops.step.bytesBehind = [0x00, 0x01] := by rfl
  refine ⟨?_, ?_, ?_, ?_⟩
  · rw [(hpopped rfl).1, hbytes]
    decide
  · exact hframe .condition (by decide) (by decide) (by decide)
  · exact hpushed .pushRegister (by decide) rfl
  · rw [hstored rfl rfl]
    decide

end WordMachine.Cpu
