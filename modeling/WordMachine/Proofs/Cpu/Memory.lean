import WordMachine.Proofs.Bus.Memory
import WordMachine.Proofs.Cpu.Cycle

/-!
# Steps on memory

Memory answers every access, so a transaction on it is a function:
`Transaction.onMemory` gives its value and the memory that it leaves.  A step on
memory is then a function of registers and memory as well, `Cpu.step_memory`: it
is the effect of the instruction at the program counter, unless that divides by
zero.
-/

namespace WordMachine

def Memory.instructionAt (memory : Memory) (addr : Address) : Instruction :=
  .decode (memory.get addr) (memory.get (addr + 1))

namespace Transaction

variable {α β : Type}

def onMemory : Transaction α → Memory → α × Memory
  | done value, memory => (value, memory)
  | read addr next, memory => (next (memory.get addr)).onMemory memory
  | write addr byte next, memory => next.onMemory (memory.set addr byte)

@[simp] theorem onMemory_pure (value : α) (memory : Memory) :
    (pure value : Transaction α).onMemory memory = (value, memory) := rfl

@[simp] theorem onMemory_readWord (addr : Address) (memory : Memory) :
    (readWord addr).onMemory memory = (memory.getWord addr, memory) := rfl

@[simp] theorem onMemory_writeWord (addr : Address) (word : Word) (memory : Memory) :
    (writeWord addr word).onMemory memory = ((), memory.setWord addr word) := rfl

@[simp] theorem onMemory_bind
    (t : Transaction α) (f : α → Transaction β) (memory : Memory) :
    (t >>= f).onMemory memory =
      (f (t.onMemory memory).1).onMemory (t.onMemory memory).2 := by
  change (t.bind f).onMemory memory = _
  induction t generalizing memory with
  | done value => rfl
  | read addr next ih => exact ih (memory.get addr) memory
  | write addr byte next ih => exact ih (memory.set addr byte)

theorem run_memory (t : Transaction α) (memory : Memory) :
    (t.run memory).result = .ok (t.onMemory memory).1 ∧
      (t.run memory).bus = (t.onMemory memory).2 := by
  induction t generalizing memory with
  | done value => exact ⟨rfl, rfl⟩
  | read addr next ih => exact ih (memory.get addr) memory
  | write addr byte next ih => exact ih (memory.set addr byte)

end Transaction

namespace Cpu

open Transaction

theorem onMemory_cycle (regs : Registers) (memory : Memory) :
    let instr := memory.instructionAt regs.pc
    let source := regs.advancePc 2
    let effect := (instr.effect source).onMemory memory
    (Instruction.cycle regs).onMemory memory =
      if instr.dividesByZero source then ((instr, none), memory)
      else ((instr, some effect.1), effect.2) := by
  intro instr source effect
  have hfetch : (Instruction.fetch regs.pc).onMemory memory = (instr, memory) := rfl
  simp only [Instruction.cycle, onMemory_bind, hfetch, onMemory_pure, Instruction.outcome]
  by_cases hzero : instr.dividesByZero source <;> simp [hzero, source, effect]

theorem step_memory {cpu : Cpu Memory} (hpc : cpu.regs.pc ≠ sentinel) :
    let instr := cpu.bus.instructionAt cpu.regs.pc
    let source := cpu.regs.advancePc 2
    let effect := (instr.effect source).onMemory cpu.bus
    cpu.step.result =
        (if instr.dividesByZero source then .error (.arithmeticFault instr.opcode)
        else .ok instr) ∧
      cpu.step.cpu =
        if instr.dividesByZero source then ⟨source, cpu.bus⟩ else ⟨effect.1, effect.2⟩ := by
  intro instr source effect
  obtain ⟨hresult, hcpu, -⟩ := step_eq_cycle hpc
  obtain ⟨hvalue, hbus⟩ := run_memory (Instruction.cycle cpu.regs) cpu.bus
  rw [onMemory_cycle] at hvalue hbus
  rw [hresult, hcpu, hvalue, hbus]
  by_cases hzero : instr.dividesByZero source
  · simp only [instr, source] at hzero
    simp [hzero, instr, source, resultOf, registersOf]
  · simp only [instr, source] at hzero
    simp [hzero, instr, source, effect, resultOf, registersOf]

/-- Only the primary opcodes divide, so a step with an extended instruction succeeds. -/
theorem step_of_extended {cpu : Cpu Memory} (hpc : cpu.regs.pc ≠ sentinel)
    (hop : (cpu.bus.instructionAt cpu.regs.pc).opcode = .extended) :
    let instr := cpu.bus.instructionAt cpu.regs.pc
    let effect := (instr.extendedEffect (cpu.regs.advancePc 2)).onMemory cpu.bus
    cpu.step.result = .ok instr ∧ cpu.step.cpu = ⟨effect.1, effect.2⟩ := by
  intro instr effect
  have hdivides : instr.dividesByZero (cpu.regs.advancePc 2) = false := by
    simp [Instruction.dividesByZero, instr, hop]
  have heffect : instr.effect (cpu.regs.advancePc 2) =
      instr.extendedEffect (cpu.regs.advancePc 2) := by
    simp only [Instruction.effect, instr, hop]
  obtain ⟨hresult, hcpu⟩ := step_memory hpc
  rw [hresult, hcpu]
  simp only [instr, effect] at hdivides heffect ⊢
  simp [hdivides, heffect]

end Cpu

end WordMachine
