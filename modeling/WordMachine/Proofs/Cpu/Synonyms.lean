import WordMachine.Bus.FaultPlan
import WordMachine.Bus.Memory
import WordMachine.Proofs.Cpu.Failures
import WordMachine.Proofs.Instruction.Footprint

/-!
# Instructions that do the same

Some operations can be written in several ways: a return is a pop into the program counter, a
jump that goes ahead copies a register there, and many words do nothing at all.  `Synonym` lists
these pairs.  The effect of an instruction is plain data, and the effects of synonyms are equal
(`effect_eq_of_synonym`), so no bus can tell one from the other, whichever access it refuses.

Loading the program counter and jumping are not synonyms.  Both read the operand, but the load
moves the program counter past the operand after it has loaded it.
-/

namespace WordMachine

namespace Transaction

theorem run_readWord_of_ok
    {σ : Type} [Bus σ] {addr : Address} {bus : σ} {word : Word}
    (hok : ((readWord addr).run bus).result = .ok word) :
    ∃ low high, word = Word.ofBytes low high ∧
      ((readWord addr).run bus).accesses = [.read addr low, .read (addr + 1) high] := by
  obtain ⟨hrequests, hvalue, hanswered⟩ := requests_of_ok hok
  match hmade : ((readWord addr).run bus).accesses with
  | [] | [_] | _ :: _ :: _ :: _ => simp [hmade, Request.readWord] at hrequests
  | [one, two] =>
      rw [hmade] at hrequests hvalue hanswered
      obtain ⟨hone, htwo⟩ : one.request = .read addr ∧ two.request = .read (addr + 1) := by
        simpa [Request.readWord] using hrequests
      obtain ⟨low, rfl⟩ := Access.exists_eq_read hone (hanswered one (by simp))
      obtain ⟨high, rfl⟩ := Access.exists_eq_read htwo (hanswered two (by simp))
      exact ⟨low, high, hvalue.symm, rfl⟩

end Transaction

namespace Instruction

open Transaction

variable {instr other : Instruction} {source : Registers}

def extendedOp? (instr : Instruction) : Option ExtendedOp :=
  if instr.opcode = .extended then some instr.extendedOp else none

theorem extendedOp?_eq_some_iff {op : ExtendedOp} :
    instr.extendedOp? = some op ↔ instr.opcode = .extended ∧ instr.extendedOp = op := by
  simp [extendedOp?]

theorem effect_of_extendedOp {op : ExtendedOp} (hop : instr.extendedOp? = some op) :
    instr.effect source = instr.extendedEffect source := by
  have hopcode := (extendedOp?_eq_some_iff.mp hop).1
  simp only [effect, hopcode]

theorem effect_of_stackOp {op : StackOp} (hop : instr.stackOp? = some op) :
    instr.effect source = instr.stackEffect source := by
  obtain ⟨hopcode, hgroup, -⟩ := stackOp?_eq_some_iff.mp hop
  simp only [effect, extendedEffect, hopcode, hgroup]

/-! ## Nothing to do -/

/-- The instruction does nothing, given the registers as it reads them. -/
inductive Idle (source : Registers) (instr : Instruction) : Prop where
  | nop (hop : instr.extendedOp? = some .nop)
  | reserved {number : Byte} (hop : instr.extendedOp? = some (.reserved number))
  | reservedStack {number : Byte} (hop : instr.stackOp? = some (.reserved number))
  | jumpNotTaken (hop : instr.opcode = .jump) (hcondition : source.condition ≠ 0)
  | jumpToNext (hop : instr.opcode = .jump) (htarget : instr.a = .programCounter)
  | copyToItself (hop : instr.extendedOp? = some .copy) (hsame : instr.b = instr.low)
  | swapWithItself (hop : instr.extendedOp? = some .swap) (hsame : instr.b = instr.low)

theorem conditionTaken_iff : source.conditionTaken ↔ source.condition = 0 := by
  rw [Registers.conditionTaken, beq_iff_eq]

theorem effect_of_idle (hidle : instr.Idle source) : instr.effect source = pure source := by
  cases hidle with
  | nop hop =>
      rw [effect_of_extendedOp hop]
      simp only [extendedEffect, (extendedOp?_eq_some_iff.mp hop).2]
  | reserved hop =>
      rw [effect_of_extendedOp hop]
      simp only [extendedEffect, (extendedOp?_eq_some_iff.mp hop).2]
  | reservedStack hop =>
      rw [effect_of_stackOp hop]
      simp only [stackEffect, (stackOp?_eq_some_iff.mp hop).2.2]
  | jumpNotTaken hop hcondition =>
      have hstays : ¬ source.conditionTaken := mt conditionTaken_iff.mp hcondition
      simp only [effect, hop, if_neg hstays]
  | jumpToNext hop htarget =>
      have hpc : source.setPc (source.get .programCounter) = source := source.set_get _
      simp only [effect, hop, htarget, hpc, ite_self]
  | copyToItself hop hsame =>
      rw [effect_of_extendedOp hop]
      simp only [extendedEffect, (extendedOp?_eq_some_iff.mp hop).2, hsame, Registers.set_get]
  | swapWithItself hop hsame =>
      rw [effect_of_extendedOp hop]
      simp only [extendedEffect, (extendedOp?_eq_some_iff.mp hop).2, hsame, Registers.swap_self]

theorem opcode_of_idle (hidle : instr.Idle source) :
    instr.opcode = .extended ∨ instr.opcode = .jump := by
  cases hidle with
  | nop hop | reserved hop | copyToItself hop _ | swapWithItself hop _ =>
      exact .inl (extendedOp?_eq_some_iff.mp hop).1
  | reservedStack hop => exact .inl (stackOp?_eq_some_iff.mp hop).1
  | jumpNotTaken hop _ | jumpToNext hop _ => exact .inr hop

/-! ## Synonyms -/

/-- Two ways to write one operation, given the registers as the instruction reads them. -/
inductive Synonym (source : Registers) (instr other : Instruction) : Prop where
  | returnByPop (hret : instr.stackOp? = some .ret) (hpop : other.stackOp? = some .popRegister)
      (hlow : other.low = .programCounter)
  | jumpOnTrue (hbranch : instr.extendedOp? = some .jumpImmediate)
      (hcondition : source.condition = 0) (hjump : other.extendedOp? = some .jumpAlways)
  | jumpByCopy (hjump : instr.opcode = .jump) (hcondition : source.condition = 0)
      (hcopy : other.extendedOp? = some .copy) (hb : other.b = .programCounter)
      (hlow : other.low = instr.a)
  | idle (hidle : instr.Idle source) (hidle' : other.Idle source)
  | swapInTurn (hswap : instr.extendedOp? = some .swap) (hswap' : other.extendedOp? = some .swap)
      (hb : other.b = instr.low) (hlow : other.low = instr.b)

theorem effect_eq_of_synonym (h : Synonym source instr other) :
    instr.effect source = other.effect source := by
  cases h with
  | returnByPop hret hpop hlow =>
      rw [effect_of_stackOp hret, effect_of_stackOp hpop]
      simp only [stackEffect, (stackOp?_eq_some_iff.mp hret).2.2,
        (stackOp?_eq_some_iff.mp hpop).2.2, hlow]
      -- the pop reads the stack pointer once more, behind the write to the program counter
      have hpopped : ∀ target, (source.set .programCounter target).setSp
          ((source.set .programCounter target).sp - 2) =
            (source.setPc target).setSp (source.sp - 2) := by
        intro target
        rw [Registers.sp_set_of_ne _ (by decide), Registers.setPc]
      simp only [hpopped]
  | jumpOnTrue hbranch hcondition hjump =>
      have htaken := conditionTaken_iff.mpr hcondition
      rw [effect_of_extendedOp hbranch, effect_of_extendedOp hjump]
      simp only [extendedEffect, (extendedOp?_eq_some_iff.mp hbranch).2,
        (extendedOp?_eq_some_iff.mp hjump).2, if_pos htaken]
  | jumpByCopy hjump hcondition hcopy hb hlow =>
      have htaken := conditionTaken_iff.mpr hcondition
      rw [effect_of_extendedOp hcopy]
      simp only [effect, extendedEffect, hjump, (extendedOp?_eq_some_iff.mp hcopy).2, hb, hlow,
        if_pos htaken]
      rfl
  | idle hidle hidle' => rw [effect_of_idle hidle, effect_of_idle hidle']
  | swapInTurn hswap hswap' hb hlow =>
      rw [effect_of_extendedOp hswap, effect_of_extendedOp hswap']
      simp only [extendedEffect, (extendedOp?_eq_some_iff.mp hswap).2,
        (extendedOp?_eq_some_iff.mp hswap').2, hb, hlow]
      rw [Registers.swap_comm]

/-- The load moves the program counter past the operand after it has loaded it. -/
theorem effect_of_loadTarget
    (hload : instr.extendedOp? = some .loadImmediate) (hb : instr.b = .programCounter) :
    instr.effect source = do
      let target ← operand source
      return source.setPc (target + 2) := by
  have hloaded : ∀ target, (source.set .programCounter target).advancePc 2 =
      source.setPc (target + 2) := fun target => source.advancePc_setPc target 2
  rw [effect_of_extendedOp hload]
  simp only [extendedEffect, (extendedOp?_eq_some_iff.mp hload).2, hb, hloaded]

theorem effect_of_jumpAlways (hjump : instr.extendedOp? = some .jumpAlways) :
    instr.effect source = do
      let target ← operand source
      return source.setPc target := by
  rw [effect_of_extendedOp hjump]
  simp only [extendedEffect, (extendedOp?_eq_some_iff.mp hjump).2]

theorem opcode_of_synonym (h : Synonym source instr other) :
    (instr.opcode = .extended ∨ instr.opcode = .jump) ∧
      (other.opcode = .extended ∨ other.opcode = .jump) := by
  cases h with
  | returnByPop hret hpop _ =>
      exact ⟨.inl (stackOp?_eq_some_iff.mp hret).1, .inl (stackOp?_eq_some_iff.mp hpop).1⟩
  | jumpOnTrue hbranch _ hjump =>
      exact ⟨.inl (extendedOp?_eq_some_iff.mp hbranch).1, .inl (extendedOp?_eq_some_iff.mp hjump).1⟩
  | jumpByCopy hjump _ hcopy _ _ =>
      exact ⟨.inr hjump, .inl (extendedOp?_eq_some_iff.mp hcopy).1⟩
  | idle hidle hidle' => exact ⟨opcode_of_idle hidle, opcode_of_idle hidle'⟩
  | swapInTurn hswap hswap' _ _ =>
      exact ⟨.inl (extendedOp?_eq_some_iff.mp hswap).1, .inl (extendedOp?_eq_some_iff.mp hswap').1⟩

theorem dividesByZero_of_opcode (hop : instr.opcode = .extended ∨ instr.opcode = .jump) :
    instr.dividesByZero source = false := by
  rcases hop with hop | hop <;> simp [dividesByZero, hop]

end Instruction

namespace Cpu

open Instruction Transaction

variable {σ : Type} [Bus σ] {cpu : Cpu σ} {instr other : Instruction}

/-- Both instructions make the same accesses, and both complete or fail with the same error. -/
structure SameTraffic (cpu : Cpu σ) (instr other : Instruction) : Prop where
  result : (execute instr cpu).result.map (fun _ => ()) =
    (execute other cpu).result.map fun _ => ()
  bus : (execute instr cpu).cpu.bus = (execute other cpu).cpu.bus
  accesses : (execute instr cpu).accesses = (execute other cpu).accesses

/-- Both instructions do the same to the processor. -/
structure Agree (cpu : Cpu σ) (instr other : Instruction) : Prop
    extends SameTraffic cpu instr other where
  regs : (execute instr cpu).cpu.regs = (execute other cpu).cpu.regs

theorem execute_eq_effect (hdivides : instr.dividesByZero cpu.regs = false) :
    let outcome := (instr.effect cpu.regs).run cpu.bus
    (execute instr cpu).result = (outcome.result.map fun _ => instr).mapError .bus ∧
      (execute instr cpu).cpu = ⟨outcome.result.toOption.getD cpu.regs, outcome.bus⟩ ∧
      (execute instr cpu).accesses = outcome.accesses := by
  intro outcome
  rcases cpu with ⟨regs, bus⟩
  simp only [execute, hdivides, Step.accesses, outcome]
  rcases (instr.effect regs).run bus with ⟨error | after, bus', made⟩
  · exact ⟨rfl, rfl, CpuEvent.accesses_map_access made⟩
  · exact ⟨rfl, rfl, CpuEvent.accesses_map_access made⟩

/-- Execution looks at nothing but the effect of the instruction. -/
theorem agree_of_effect_eq
    (hdivides : instr.dividesByZero cpu.regs = false)
    (hdivides' : other.dividesByZero cpu.regs = false)
    (heffect : instr.effect cpu.regs = other.effect cpu.regs) : cpu.Agree instr other := by
  obtain ⟨hresult, hcpu, haccesses⟩ := execute_eq_effect hdivides
  obtain ⟨hresult', hcpu', haccesses'⟩ := execute_eq_effect hdivides'
  rw [heffect] at hresult hcpu haccesses
  have hsame := hcpu.trans hcpu'.symm
  constructor
  · constructor
    · rw [hresult, hresult']
      cases ((other.effect cpu.regs).run cpu.bus).result <;> rfl
    · exact congrArg Cpu.bus hsame
    · exact haccesses.trans haccesses'.symm
  · exact congrArg Cpu.regs hsame

theorem agree_of_synonym (h : Synonym cpu.regs instr other) : cpu.Agree instr other := by
  obtain ⟨hopcode, hopcode'⟩ := opcode_of_synonym h
  exact agree_of_effect_eq (dividesByZero_of_opcode hopcode) (dividesByZero_of_opcode hopcode')
    (effect_eq_of_synonym h)

/-! ## Loading the program counter and jumping -/

/-- How an instruction ends that puts its operand into the registers and does nothing else:
with the error of the operand and the registers as they were, or with both bytes of it. -/
theorem execute_of_operand
    {after : Word → Registers} (hdivides : instr.dividesByZero cpu.regs = false)
    (heffect : instr.effect cpu.regs = do
      let word ← operand cpu.regs
      return after word) :
    let fetched := (operand cpu.regs).run cpu.bus
    (execute instr cpu).cpu.bus = fetched.bus ∧
      (execute instr cpu).accesses = fetched.accesses ∧
      (∀ error, fetched.result = .error error →
        (execute instr cpu).result = .error (.bus error) ∧
          (execute instr cpu).cpu.regs = cpu.regs) ∧
      ∀ word, fetched.result = .ok word →
        (execute instr cpu).result = .ok instr ∧ (execute instr cpu).cpu.regs = after word := by
  intro fetched
  obtain ⟨hresult, hcpu, haccesses⟩ := execute_eq_effect hdivides
  rw [heffect, run_bind] at hresult hcpu haccesses
  rcases hrun : (operand cpu.regs).run cpu.bus with ⟨error | word, bus, made⟩
  · rw [hrun] at hresult hcpu haccesses
    rw [hresult, hcpu, haccesses]
    simp [fetched, hrun, Except.map, Except.mapError, Except.toOption]
  · rw [hrun] at hresult hcpu haccesses
    rw [hresult, hcpu, haccesses]
    simp [fetched, hrun, run_pure, Outcome.afterAll, Except.map, Except.mapError,
      Except.toOption]

/-- Synonyms agree: executed on the same processor they leave the same registers and the same
bus, make the same accesses in the same order, and complete or fail alike.  A load of the
program counter and a jump agree in everything but the program counter, which the load leaves
two behind the operand, and agree in that too when the operand cannot be read. -/
theorem synonyms_agree (cpu : Cpu σ) (instr other : Instruction) :
    (Synonym cpu.regs instr other → cpu.Agree instr other) ∧
    (instr.extendedOp? = some .loadImmediate → instr.b = .programCounter →
      other.extendedOp? = some .jumpAlways →
      let loaded := execute instr cpu
      let jumped := execute other cpu
      cpu.SameTraffic instr other ∧
        ((∃ error, loaded.result = .error error ∧ jumped.result = .error error ∧
            loaded.cpu.regs = cpu.regs ∧ jumped.cpu.regs = cpu.regs) ∨
          ∃ low high, loaded.result = .ok instr ∧ jumped.result = .ok other ∧
            jumped.accesses = [.read cpu.regs.pc low, .read (cpu.regs.pc + 1) high] ∧
            loaded.cpu.regs = cpu.regs.setPc (Word.ofBytes low high + 2) ∧
            jumped.cpu.regs = cpu.regs.setPc (Word.ofBytes low high))) := by
  refine ⟨agree_of_synonym, ?_⟩
  intro hload hb hjump loaded jumped
  have hdivides := @dividesByZero_of_opcode instr cpu.regs
    (.inl (extendedOp?_eq_some_iff.mp hload).1)
  have hdivides' := @dividesByZero_of_opcode other cpu.regs
    (.inl (extendedOp?_eq_some_iff.mp hjump).1)
  obtain ⟨hbus, haccesses, hfailed, hread⟩ :=
    execute_of_operand hdivides (effect_of_loadTarget hload hb)
  obtain ⟨hbus', haccesses', hfailed', hread'⟩ :=
    execute_of_operand hdivides' (effect_of_jumpAlways hjump)
  have hbuses := hbus.trans hbus'.symm
  have htraffic := haccesses.trans haccesses'.symm
  cases hfetched : ((operand cpu.regs).run cpu.bus).result with
  | error error =>
      obtain ⟨hresult, hregs⟩ := hfailed error hfetched
      obtain ⟨hresult', hregs'⟩ := hfailed' error hfetched
      refine ⟨⟨?_, hbuses, htraffic⟩, .inl ⟨_, hresult, hresult', hregs, hregs'⟩⟩
      rw [hresult, hresult']
  | ok target =>
      obtain ⟨hresult, hregs⟩ := hread target hfetched
      obtain ⟨hresult', hregs'⟩ := hread' target hfetched
      obtain ⟨low, high, rfl, hbytes⟩ := run_readWord_of_ok hfetched
      refine ⟨⟨?_, hbuses, htraffic⟩,
        .inr ⟨low, high, hresult, hresult', haccesses'.trans hbytes, hregs, hregs'⟩⟩
      rw [hresult, hresult']
      rfl

/-- The second byte that is popped is refused, to the return and to the pop.  The load and the
jump read their operand, so that only the program counter tells them apart. -/
theorem synonyms_agree_refused :
    let memory := (Memory.zero.load 5 [0x00, 0x20]).load 16 [0x34, 0x12]
    let cpu : Cpu (WithFaults Memory) :=
      ⟨(Registers.startingAt 5).setSp 18, ⟨memory, { reads := [(17, .unknown "lost")] }, 0⟩⟩
    let ret := decode 0x09 0x57
    let pop := decode 0x09 0x2F
    let load := decode 0x04 0xF0
    let jump := decode 0x08 0x00
    (Synonym cpu.regs ret pop ∧ cpu.Agree ret pop ∧
      (execute pop cpu).result = .error (.bus (.unknown "lost"))) ∧
    load.extendedOp? = some .loadImmediate ∧ load.b = .programCounter ∧
      jump.extendedOp? = some .jumpAlways ∧ cpu.SameTraffic load jump ∧
      (execute load cpu).cpu.regs.pc = 0x2002 ∧ (execute jump cpu).cpu.regs.pc = 0x2000 := by
  intro memory cpu ret pop load jump
  have hsynonym : Synonym cpu.regs ret pop := .returnByPop rfl rfl (by decide)
  have hagree := (synonyms_agree cpu ret pop).1 hsynonym
  obtain ⟨hsame, -⟩ := (synonyms_agree cpu load jump).2 rfl rfl rfl
  exact ⟨⟨hsynonym, hagree, rfl⟩, rfl, rfl, rfl, hsame, rfl, rfl⟩

end Cpu

end WordMachine
