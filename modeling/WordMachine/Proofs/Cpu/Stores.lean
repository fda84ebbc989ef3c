import WordMachine.Proofs.Cpu.Stack

/-!
# Stores and loads

A word that is stored at an address given in the code is what a load from that address gives
back.  `step_store` and `step_load` say what the two instructions do, each with its operand
behind its word; the program counter may be the stored as well as the loaded register.

Between the two instructions the store must not have overwritten the load.  It may have
overwritten itself: a step has read its own code before it writes.
-/

namespace WordMachine

/-- The code of an instruction of the stack group with an operand. -/
def operandCode (op : StackOp) (r : Register) (operand : Word) : List Byte :=
  (InstructionWord.stack op r.field).toList ++ [operand.lowByte, operand.highByte]

namespace Cpu

open Instruction Transaction

variable {cpu : Cpu Memory} {r q : Register} {addr : Address}

theorem step_store (hpc : cpu.regs.pc ≠ sentinel)
    (hcode : cpu.bus.Holds cpu.regs.pc (operandCode .storeAddress r addr)) :
    (∃ instr, cpu.step.result = .ok instr) ∧
      cpu.step.cpu =
        ⟨cpu.regs.setPc (cpu.regs.pc + 4),
          cpu.bus.setWord addr ((cpu.regs.setPc (cpu.regs.pc + 2)).get r)⟩ := by
  obtain ⟨hresult, hcpu, hop, hlow, hoperand⟩ := step_of_stackCode _ hpc hcode rfl
  refine ⟨⟨_, hresult⟩, ?_⟩
  have haddr := Memory.getWord_of_holds hoperand
  rw [hcpu]
  simp only [stackEffect, hop, hlow, Register.ofField_field, operand, onMemory_bind,
    onMemory_readWord, onMemory_writeWord, onMemory_pure, Registers.pc_advancePc, haddr,
    Registers.advancePc_advancePc]
  rfl

/-- A load into the program counter still moves it past the operand. -/
theorem step_load (hpc : cpu.regs.pc ≠ sentinel)
    (hcode : cpu.bus.Holds cpu.regs.pc (operandCode .loadAddress q addr)) :
    (∃ instr, cpu.step.result = .ok instr) ∧
      cpu.step.cpu =
        ⟨((cpu.regs.setPc (cpu.regs.pc + 2)).set q (cpu.bus.getWord addr)).advancePc 2,
          cpu.bus⟩ := by
  obtain ⟨hresult, hcpu, hop, hlow, hoperand⟩ := step_of_stackCode _ hpc hcode rfl
  refine ⟨⟨_, hresult⟩, ?_⟩
  have haddr := Memory.getWord_of_holds hoperand
  rw [hcpu]
  simp only [stackEffect, hop, hlow, Register.ofField_field, operand, onMemory_bind,
    onMemory_readWord, onMemory_pure, Registers.pc_advancePc, haddr]
  rfl

theorem after?_store_load
    (hstart : cpu.regs.pc ≠ sentinel) (hnext : cpu.regs.pc + 4 ≠ sentinel)
    (hcode : cpu.bus.Holds cpu.regs.pc
      (operandCode .storeAddress r addr ++ operandCode .loadAddress q addr))
    (hapart : ¬ Within addr (cpu.regs.pc + 4) 4 ∧ ¬ Within (addr + 1) (cpu.regs.pc + 4) 4) :
    let value := (cpu.regs.setPc (cpu.regs.pc + 2)).get r
    cpu.after? 2 =
      some ⟨((cpu.regs.setPc (cpu.regs.pc + 6)).set q value).advancePc 2,
        cpu.bus.setWord addr value⟩ := by
  intro value
  obtain ⟨hstore, hload⟩ := Memory.holds_append.mp hcode
  obtain ⟨⟨_, hok⟩, hstored⟩ := step_store hstart hstore
  have hpc : cpu.step.cpu.regs.pc = cpu.regs.pc + 4 := by
    rw [hstored, Registers.pc_setPc]
  have hahead : cpu.step.cpu.bus.Holds cpu.step.cpu.regs.pc (operandCode .loadAddress q addr) := by
    rw [hpc, hstored]
    apply hload.congr
    intro other hother
    apply Memory.get_setWord_of_not_within
    rw [within_two_iff]
    rintro (rfl | rfl)
    · exact hapart.1 hother
    · exact hapart.2 hother
  obtain ⟨⟨_, hok'⟩, hloaded⟩ := step_load (hpc ▸ hnext) hahead
  have hbehind : cpu.regs.pc + 4 + 2 = cpu.regs.pc + 6 := UInt16.add_assoc _ 4 2
  rw [after?_succ_of_ok hok, after?_succ_of_ok hok', hloaded, hpc, hstored,
    Memory.getWord_setWord, Registers.setPc_setPc, hbehind]
  rfl

/-- A stored word comes back when it is loaded from the same address, wherever that is outside
the code of the load.  Memory is changed at the two bytes of the word and the registers in the
loaded one, which the program counter may be. -/
theorem load_returns_stored
    (hstart : cpu.regs.pc ≠ sentinel) (hnext : cpu.regs.pc + 4 ≠ sentinel)
    (hcode : cpu.bus.Holds cpu.regs.pc
      (operandCode .storeAddress r addr ++ operandCode .loadAddress q addr))
    (hapart : ¬ Within addr (cpu.regs.pc + 4) 4 ∧ ¬ Within (addr + 1) (cpu.regs.pc + 4) 4) :
    let p := cpu.regs.pc
    let value := (cpu.regs.setPc (p + 2)).get r
    ∃ after, cpu.after? 2 = some after ∧
      after.bus.get addr = value.lowByte ∧ after.bus.get (addr + 1) = value.highByte ∧
      (∀ other, other ≠ addr → other ≠ addr + 1 → after.bus.get other = cpu.bus.get other) ∧
      (q ≠ .programCounter → after.regs.get q = value ∧ after.regs.pc = p + 8) ∧
      (q = .programCounter → after.regs.pc = value + 2) ∧
      ∀ s, s ≠ q → s ≠ .programCounter → after.regs.get s = cpu.regs.get s := by
  intro p value
  have hbehind : p + 6 + 2 = p + 8 := UInt16.add_assoc p 6 2
  refine ⟨_, after?_store_load hstart hnext hcode hapart, Memory.get_setWord_low _ _ _,
    Memory.get_setWord_high _ _ _, ?_, ?_, ?_, ?_⟩
  · intro other hlow hhigh
    apply Memory.get_setWord_of_not_within
    rw [within_two_iff]
    exact not_or.mpr ⟨hlow, hhigh⟩
  · intro hq
    rw [Registers.get_advancePc_of_ne _ hq, Registers.get_set_self, Registers.pc_advancePc,
      Registers.pc_set, if_neg hq, Registers.pc_setPc]
    exact ⟨rfl, hbehind⟩
  · rintro rfl
    rw [Registers.pc_advancePc, Registers.pc_set, if_pos rfl]
  · intro s hs hpc
    rw [Registers.get_advancePc_of_ne _ hpc, Registers.get_set_of_ne _ hs]
    exact Registers.get_set_of_ne _ hpc _

/-- The program counter is stored over the code of its own store, and loaded. -/
theorem load_returns_stored_program_counter :
    let cpu : Cpu Memory :=
      ⟨Registers.startingAt 16,
        Memory.zero.load 16 [0x09, 0x6F, 0x10, 0x00, 0x09, 0x7F, 0x10, 0x00]⟩
    cpu.regs.pc ≠ sentinel ∧ cpu.regs.pc + 4 ≠ sentinel ∧
      cpu.bus.Holds cpu.regs.pc
        (operandCode .storeAddress 15 16 ++ operandCode .loadAddress 15 16) ∧
      (¬ Within 16 (cpu.regs.pc + 4) 4 ∧ ¬ Within 17 (cpu.regs.pc + 4) 4) ∧
      ∃ after, cpu.after? 2 = some after ∧ after.bus.get 16 = 18 ∧
        after.regs.pc = 20 ∧ after.regs.sp = 0 := by
  intro cpu
  have hstart : cpu.regs.pc ≠ sentinel := by decide
  have hnext : cpu.regs.pc + 4 ≠ sentinel := by decide
  have hcode : cpu.bus.Holds cpu.regs.pc
      (operandCode .storeAddress 15 16 ++ operandCode .loadAddress 15 16) := by
    decide +kernel
  have hapart : ¬ Within 16 (cpu.regs.pc + 4) 4 ∧ ¬ Within 17 (cpu.regs.pc + 4) 4 := by
    decide
  obtain ⟨after, hafter, hlow, -, -, -, hpc, hkept⟩ :=
    load_returns_stored hstart hnext hcode hapart
  exact ⟨hstart, hnext, hcode, hapart, after, hafter, hlow, hpc rfl,
    hkept 13 (by decide) (by decide)⟩

end Cpu

end WordMachine
