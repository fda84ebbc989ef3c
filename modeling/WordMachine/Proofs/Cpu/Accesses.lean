import Mathlib.Tactic.ByContra
import WordMachine.Bus.FaultPlan
import WordMachine.Bus.Memory
import WordMachine.Proofs.Cpu.Cycle
import WordMachine.Proofs.Instruction.Footprint

/-!
# The accesses of one step

A step first reads the instruction word, then the operand if the word has one,
and then makes the data accesses of the instruction.  Since the effects of the
instructions make these requests and no others, the step makes them up to the
first one that fails.
-/

namespace WordMachine

namespace Cpu

variable {σ : Type} [Bus σ]

/-- The accesses of a step follow the word and the operand that it has read, up
to the first access that fails, and all of them are what the bus answers. -/
theorem step_accesses (cpu : Cpu σ) (hpc : cpu.regs.pc ≠ sentinel) :
    let p := cpu.regs.pc
    let made := cpu.step.accesses
    let bytes := answers made
    let instr := Instruction.decode (bytes.getD 0 0) (bytes.getD 1 0)
    let operand := Word.ofBytes (bytes.getD 2 0) (bytes.getD 3 0)
    let planned :=
      Request.readWord p ++ instr.operandRequests p ++
        instr.dataRequests p (cpu.regs.setPc (p + 2)) operand
    made.map Access.request <+: planned ∧
      ((∀ access ∈ made, access.error? = none) →
        made.map Access.request = planned) ∧
      (∀ failed ∈ made, ∀ error, failed.error? = some error →
        made.getLast? = some failed ∧
          (∀ access ∈ made.dropLast, access.error? = none) ∧
          cpu.step.result = .error (.bus error)) ∧
      Request.performAll (made.map Access.request) cpu.bus =
        (made, cpu.step.cpu.bus) := by
  intro p made bytes instr operand planned
  have hplanned : (Instruction.cycle cpu.regs).requests bytes = planned := by
    have hpc' : (cpu.regs.advancePc 2).pc = p + 2 := Registers.pc_advancePc _ _
    rw [Instruction.requests_cycle, Instruction.requests_effect hpc']
    simp [planned, instr, operand, p, Registers.advancePc, List.headD_eq_head?_getD,
      List.head?_eq_getElem?]
  refine ⟨?_, ?_, ?_, performAll_step cpu⟩
  · rw [← hplanned]
    exact step_requests_isPrefix hpc
  · intro hsucceeded
    rw [← hplanned]
    refine (step_requests_of_no_bus_error hpc ?_).1
    intro error herror
    obtain ⟨before, last, hmade, hlast, -⟩ := exists_failed_last_of_step herror
    have hnone : last.error? = none := hsucceeded last (by simp [made, hmade])
    rw [hnone] at hlast
    contradiction
  · intro failed hmem error hfailed
    obtain ⟨cause, hcause⟩ : ∃ cause, cpu.step.result = .error (.bus cause) := by
      by_contra hnone
      have hsucceeded := (step_requests_of_no_bus_error hpc (not_exists.mp hnone)).2
      rw [hsucceeded failed hmem] at hfailed
      contradiction
    obtain ⟨before, last, hmade, hlast, hbefore⟩ := exists_failed_last_of_step hcause
    have hmade : made = before ++ [last] := hmade
    have heq : failed = last := by
      rw [hmade, List.mem_append, List.mem_singleton] at hmem
      rcases hmem with hmem | heq
      · rw [hbefore failed hmem] at hfailed
        contradiction
      · exact heq
    subst heq
    have hcause' : cause = error := Option.some.inj (hlast.symm.trans hfailed)
    refine ⟨?_, ?_, ?_⟩
    · rw [hmade, List.getLast?_concat]
    · rw [hmade, List.dropLast_concat]
      exact hbefore
    · rw [hcause, hcause']

/-- A push of an operand whose second byte is refused: the plan goes on to the
refused access, and the step to it. -/
theorem step_accesses_push :
    let cpu : Cpu (WithFaults Memory) :=
      ⟨(Registers.startingAt 3).setSp 16,
        ⟨Memory.zero.load 3 [0x09, 0x00, 0x34, 0x12],
          { writes := [(17, .unknown "lost")] }, 0⟩⟩
    cpu.regs.pc ≠ sentinel ∧
      cpu.step.accesses.map Access.request <+:
        [.read 3, .read 4, .read 5, .read 6, .write 16 0x34, .write 17 0x12] ∧
      cpu.step.accesses.getLast? = some (.writeFailed 17 0x12 (.unknown "lost")) ∧
      cpu.step.result = .error (.bus (.unknown "lost")) := by
  intro cpu
  have hpc : cpu.regs.pc ≠ sentinel := by decide
  obtain ⟨hplanned, -, hfailed, -⟩ := step_accesses cpu hpc
  obtain ⟨hlast, -, hresult⟩ :=
    hfailed (.writeFailed 17 0x12 (.unknown "lost")) (by decide) (.unknown "lost") rfl
  exact ⟨hpc, hplanned.trans (by decide), hlast, hresult⟩

end Cpu

end WordMachine
