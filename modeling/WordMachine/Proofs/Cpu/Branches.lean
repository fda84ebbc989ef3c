import Mathlib.Logic.ExistsUnique
import WordMachine.Proofs.Cpu.Stack

/-!
# Comparisons and branches

A comparison of two registers followed by a conditional jump is how a program branches.  The
two instructions meet in the condition register: the comparison leaves zero there if its
relation holds and one otherwise, and the jump goes ahead on zero.  `step_compare` and
`step_branch` say what each of them does, and `compare_then_branch` what they do together.

The compared registers are read with the program counter behind the word of the comparison,
and before the condition register changes, so both of these registers can be compared.
-/

namespace WordMachine

/-- The comparisons, by the relation that they ask for. -/
inductive Comparison where
  | equal
  | greater
  | less
deriving DecidableEq, Repr

namespace Comparison

def op : Comparison → ExtendedOp
  | equal => .compareEqual
  | greater => .compareGreater
  | less => .compareLess

def code (comparison : Comparison) (b low : Register) : List Byte :=
  (InstructionWord.extended comparison.op b.field low.field).toList

/-- Words are compared as the numbers from 0 to 65535 that they stand for. -/
def Relates : Comparison → Word → Word → Prop
  | equal, x, y => x.toNat = y.toNat
  | greater, x, y => x.toNat > y.toNat
  | less, x, y => x.toNat < y.toNat

instance decidableRelates : (comparison : Comparison) → (x y : Word) →
    Decidable (comparison.Relates x y)
  | equal, x, y => inferInstanceAs (Decidable (x.toNat = y.toNat))
  | greater, x, y => inferInstanceAs (Decidable (x.toNat > y.toNat))
  | less, x, y => inferInstanceAs (Decidable (x.toNat < y.toNat))

theorem Relates.unique {comparison other : Comparison} {x y : Word}
    (h : comparison.Relates x y) (hother : other.Relates x y) : other = comparison := by
  cases comparison <;> cases other <;> grind [Relates]

theorem existsUnique_relates (x y : Word) : ∃! comparison, Relates comparison x y := by
  rcases Nat.lt_trichotomy x.toNat y.toNat with hlt | heq | hgt
  · exact ⟨less, hlt, fun _ => Relates.unique hlt⟩
  · exact ⟨equal, heq, fun _ => Relates.unique heq⟩
  · exact ⟨greater, hgt, fun _ => Relates.unique hgt⟩

end Comparison

/-- The code of a conditional jump.  `high` and `low` stand in the second byte, which has no
meaning. -/
def branchCode (target : Address) (high low : Byte) : List Byte :=
  (InstructionWord.extended .jumpImmediate high low).toList ++ [target.lowByte, target.highByte]

namespace Instruction

variable {instr : Instruction} {comparison : Comparison}

theorem extendedEffect_of_comparison
    (hop : instr.extendedOp = comparison.op) (source : Registers) :
    instr.extendedEffect source =
      pure (source.setCondition
        (comparison.Relates (source.get instr.b) (source.get instr.low))) := by
  cases comparison with
  | equal =>
      have hequal : (source.get instr.b == source.get instr.low) =
          decide (Comparison.equal.Relates (source.get instr.b) (source.get instr.low)) := by
        rw [Bool.beq_eq_decide_eq]
        exact decide_eq_decide.mpr UInt16.toNat_inj.symm
      simp only [extendedEffect, hop, Comparison.op, hequal]
  | greater =>
      simp only [extendedEffect, hop, Comparison.op]
      rfl
  | less =>
      simp only [extendedEffect, hop, Comparison.op]
      rfl

end Instruction

namespace Cpu

open Instruction Transaction

variable {cpu : Cpu Memory} {comparison : Comparison} {b low : Register}

theorem step_compare (hpc : cpu.regs.pc ≠ sentinel)
    (hcode : cpu.bus.Holds cpu.regs.pc (comparison.code b low)) :
    let source := cpu.regs.setPc (cpu.regs.pc + 2)
    (∃ instr, cpu.step.result = .ok instr) ∧
      cpu.step.cpu =
        ⟨source.setCondition (comparison.Relates (source.get b) (source.get low)), cpu.bus⟩ := by
  intro source
  have hop : Opcode.ofNibble comparison.op.nibble.highNibble = .extended ∧
      ExtendedOp.ofNibble comparison.op.nibble.lowNibble = comparison.op := by
    cases comparison <;> exact ⟨rfl, rfl⟩
  obtain ⟨hopcode, hextended, hfield, hlow, -⟩ := instructionAt_extended [] hcode hop
  obtain ⟨hresult, hcpu⟩ := step_of_extended hpc hopcode
  refine ⟨⟨_, hresult⟩, ?_⟩
  have hb : (cpu.bus.instructionAt cpu.regs.pc).b = b := by
    rw [Instruction.b, hfield, Register.ofField_field]
  rw [Register.ofField_field] at hlow
  rw [hcpu, extendedEffect_of_comparison hextended, onMemory_pure, hb, hlow]
  rfl

theorem step_branch
    {target : Address} {field field' : Byte} (hpc : cpu.regs.pc ≠ sentinel)
    (hcode : cpu.bus.Holds cpu.regs.pc (branchCode target field field')) :
    (∃ instr, cpu.step.result = .ok instr) ∧
      cpu.step.cpu =
        ⟨cpu.regs.setPc (if cpu.regs.conditionTaken then target else cpu.regs.pc + 4),
          cpu.bus⟩ := by
  obtain ⟨hopcode, hextended, -, -, hoperand⟩ := instructionAt_extended _ hcode ⟨rfl, rfl⟩
  obtain ⟨hresult, hcpu⟩ := step_of_extended hpc hopcode
  refine ⟨⟨_, hresult⟩, ?_⟩
  have htarget := Memory.getWord_of_holds hoperand
  have hbehind : cpu.regs.pc + 2 + 2 = cpu.regs.pc + 4 := UInt16.add_assoc _ 2 2
  rw [hcpu]
  simp only [extendedEffect, hextended, operand, onMemory_bind, onMemory_readWord, onMemory_pure,
    Registers.pc_advancePc, htarget]
  by_cases htaken : cpu.regs.conditionTaken <;>
    simp [Registers.advancePc, htaken, hbehind]

/-- The jump finds in the condition register what the comparison has left there. -/
theorem after?_compare_branch
    {target : Address} {field field' : Byte}
    (hpc : cpu.regs.pc ≠ sentinel) (hnext : cpu.regs.pc + 2 ≠ sentinel)
    (hcode : cpu.bus.Holds cpu.regs.pc (comparison.code b low ++ branchCode target field field')) :
    let source := cpu.regs.setPc (cpu.regs.pc + 2)
    let taken := decide (comparison.Relates (source.get b) (source.get low))
    cpu.after? 2 =
      some ⟨(source.setCondition taken).setPc (if taken then target else cpu.regs.pc + 6),
        cpu.bus⟩ := by
  intro source taken
  obtain ⟨hcompare, hbranch⟩ := Memory.holds_append.mp hcode
  obtain ⟨⟨_, hok⟩, hcompared⟩ := step_compare hpc hcompare
  have hmoved : cpu.step.cpu.regs.pc = cpu.regs.pc + 2 := by
    rw [hcompared, Registers.pc_setCondition, Registers.pc_setPc]
  have hbehind : cpu.regs.pc + 2 + 4 = cpu.regs.pc + 6 := UInt16.add_assoc _ 2 4
  have hahead : cpu.step.cpu.bus.Holds cpu.step.cpu.regs.pc (branchCode target field field') := by
    rw [hmoved, hcompared]
    exact hbranch
  obtain ⟨⟨_, hok'⟩, hbranched⟩ := step_branch (hmoved ▸ hnext) hahead
  rw [after?_succ_of_ok hok, after?_succ_of_ok hok', hbranched, hmoved, hcompared,
    Registers.conditionTaken_setCondition, hbehind]
  rfl

/-- A comparison and the jump behind it branch on the relation between the compared words: if it
holds, the jump goes ahead with zero in the condition register, and otherwise the program goes
on behind it with one there.  Nothing else changes.  Of the three comparisons of two registers
exactly one succeeds, and comparing for greater is comparing for less the other way round. -/
theorem compare_then_branch (regs : Registers) (b low : Register) (hpc : regs.pc ≠ sentinel) :
    let p := regs.pc
    let source := regs.setPc (p + 2)
    let x := source.get b
    let y := source.get low
    (∀ (comparison : Comparison) (target : Address) (field field' : Byte) (memory : Memory),
      p + 2 ≠ sentinel →
      memory.Holds p (comparison.code b low ++ branchCode target field field') →
      ∃ after, (⟨regs, memory⟩ : Cpu Memory).after? 2 = some after ∧ after.bus = memory ∧
        (comparison.Relates x y → after.regs.pc = target ∧ after.regs.condition = 0) ∧
        (¬ comparison.Relates x y → after.regs.pc = p + 6 ∧ after.regs.condition = 1) ∧
        ∀ r, r ≠ .programCounter → r ≠ .condition → after.regs.get r = regs.get r) ∧
    (∀ memories : Comparison → Memory,
      (∀ comparison, (memories comparison).Holds p (comparison.code b low)) →
      ∃! comparison,
        (⟨regs, memories comparison⟩ : Cpu Memory).step.cpu.regs.condition = 0) ∧
    ∀ memory swapped : Memory,
      memory.Holds p (Comparison.greater.code b low) →
      swapped.Holds p (Comparison.less.code low b) →
      (⟨regs, memory⟩ : Cpu Memory).step.cpu.regs =
        (⟨regs, swapped⟩ : Cpu Memory).step.cpu.regs := by
  intro p source x y
  have hcompared : ∀ {comparison : Comparison} {memory : Memory} {r q : Register},
      memory.Holds p (comparison.code r q) →
      (⟨regs, memory⟩ : Cpu Memory).step.cpu.regs =
        source.setCondition (comparison.Relates (source.get r) (source.get q)) := by
    intro comparison memory r q hcode
    rw [(@step_compare ⟨regs, memory⟩ comparison r q hpc hcode).2]
  refine ⟨?_, ?_, ?_⟩
  · intro comparison target field field' memory hnext hcode
    refine ⟨_, @after?_compare_branch ⟨regs, memory⟩ _ _ _ _ _ _ hpc hnext hcode, rfl, ?_, ?_, ?_⟩
    · intro hrelates
      have htaken := decide_eq_true hrelates
      simp only [Registers.pc_setPc, Registers.condition_setPc, Registers.condition_setCondition]
      exact ⟨if_pos htaken, if_pos htaken⟩
    · intro hfails
      have htaken := mt of_decide_eq_true hfails
      simp only [Registers.pc_setPc, Registers.condition_setPc, Registers.condition_setCondition]
      exact ⟨if_neg htaken, if_neg htaken⟩
    · intro r hr hcondition
      simp only [Registers.setPc]
      rw [Registers.get_set_of_ne _ hr, Registers.get_setCondition_of_ne _ hcondition]
      exact Registers.get_set_of_ne _ hr _
  · intro memories hcode
    have hsucceeds : ∀ comparison,
        (⟨regs, memories comparison⟩ : Cpu Memory).step.cpu.regs.condition = 0 ↔
          comparison.Relates x y := by
      intro comparison
      rw [hcompared (hcode comparison), Registers.condition_setCondition]
      simp [x, y]
    simp only [hsucceeds]
    exact Comparison.existsUnique_relates x y
  · intro memory swapped hgreater hless
    rw [hcompared hgreater, hcompared hless]
    rfl

/-- The condition register is compared with the program counter and overwritten. -/
theorem compare_then_branch_condition :
    let regs := (Registers.startingAt 16).set .condition 7
    let memory := Memory.zero.load 16 [0x03, 0x2F, 0x05, 0x00, 0x00, 0x02]
    regs.pc ≠ sentinel ∧ regs.pc + 2 ≠ sentinel ∧
      memory.Holds regs.pc (Comparison.less.code 2 15 ++ branchCode 0x0200 0 0) ∧
      ∃ after, (⟨regs, memory⟩ : Cpu Memory).after? 2 = some after ∧
        after.regs.pc = 0x0200 ∧ after.regs.condition = 0 ∧ after.regs.get 13 = 0 := by
  intro regs memory
  have hpc : regs.pc ≠ sentinel := by decide
  have hnext : regs.pc + 2 ≠ sentinel := by decide
  have hcode : memory.Holds regs.pc (Comparison.less.code 2 15 ++ branchCode 0x0200 0 0) := by
    decide +kernel
  obtain ⟨hbranches, -⟩ := compare_then_branch regs 2 15 hpc
  obtain ⟨after, hafter, -, htaken, -, hkept⟩ := hbranches .less 0x0200 0 0 memory hnext hcode
  obtain ⟨htarget, hcondition⟩ := htaken (by decide)
  exact ⟨hpc, hnext, hcode, after, hafter, htarget, hcondition,
    hkept 13 (by decide) (by decide)⟩

end Cpu

end WordMachine
