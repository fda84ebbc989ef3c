import WordMachine.Proofs.Bus.Memory
import WordMachine.Proofs.Cpu.Cycle
import WordMachine.Proofs.Instruction.Footprint

/-!
# Calls and returns

A call leaves its return address at the stack pointer and moves the stack pointer
past it.  `Callee` are the states that the called code goes through, with the
number of words it has on the stack, the return address included; it may push,
call and overwrite itself as it likes, but it moves the stack pointer only by
pushing and popping and does not store into the slot of its return address.

`Frame` is what such code cannot break.  A step either leaves the slot alone or
pushes above it, so the frame is there in every state of the callee, and a return
at depth one finds it.
-/

namespace WordMachine

namespace Instruction

/-- The address behind a call at `p`, where its return continues. -/
def returnAddress? (instr : Instruction) (p : Address) : Option Address :=
  match instr.stackOp? with
  | some .callAddress => some (p + 4)
  | some .callRegister => some (p + 2)
  | _ => none

variable {instr : Instruction} {p ret : Address}

theorem stackOp?_of_call (hret : instr.returnAddress? p = some ret) :
    instr.stackOp? = some .callAddress ∧ ret = p + 4 ∨
      instr.stackOp? = some .callRegister ∧ ret = p + 2 := by
  unfold returnAddress? at hret
  split at hret
  next hop => exact .inl ⟨hop, (Option.some.inj hret).symm⟩
  next hop => exact .inr ⟨hop, (Option.some.inj hret).symm⟩
  next => contradiction

theorem stackMotion_of_call (hret : instr.returnAddress? p = some ret) :
    instr.stackMotion = 1 := by
  rcases stackOp?_of_call hret with ⟨hop, -⟩ | ⟨hop, -⟩ <;> rw [stackMotion, hop]

theorem destinations_of_call (hret : instr.returnAddress? p = some ret) :
    instr.destinations = [] := by
  rcases stackOp?_of_call hret with ⟨hop, -⟩ | ⟨hop, -⟩
  · rcases stackOp?_eq_some_iff.mp hop with ⟨hopcode, hgroup, hop⟩
    simp only [destinations, hopcode, hgroup, hop]
  · rcases stackOp?_eq_some_iff.mp hop with ⟨hopcode, hgroup, hop⟩
    simp only [destinations, hopcode, hgroup, hop]

theorem dataRequests_of_call
    (hret : instr.returnAddress? p = some ret) (source : Registers) (operand : Word) :
    instr.dataRequests p source operand = Request.writeWord source.sp ret := by
  rcases stackOp?_of_call hret with ⟨hop, rfl⟩ | ⟨hop, rfl⟩
  · rcases stackOp?_eq_some_iff.mp hop with ⟨hopcode, hgroup, hop⟩
    simp only [dataRequests, hopcode, hgroup, hop]
  · rcases stackOp?_eq_some_iff.mp hop with ⟨hopcode, hgroup, hop⟩
    simp only [dataRequests, hopcode, hgroup, hop]

end Instruction

namespace Cpu

open Instruction

theorem bus_step (cpu : Cpu Memory) :
    cpu.step.cpu.bus = cpu.bus.storeAll (cpu.step.accesses.map Access.request) := by
  rw [← Request.snd_performAll_memory, performAll_step]

/-- The next step writes nothing to `addr`. -/
def Spares (cpu : Cpu Memory) (addr : Address) : Prop :=
  ∀ byte, .write addr byte ∉ cpu.step.accesses.map Access.request

/-- The states of the code that was called in state `entered`, with its return
address at `slot`, and the number of words between `slot` and the stack pointer. -/
inductive Callee (slot : Address) (entered : Cpu Memory) : Int → Cpu Memory → Prop where
  | entry : Callee slot entered 1 entered
  | step {depth : Int} {cpu : Cpu Memory} {instr : Instruction}
      (callee : Callee slot entered depth cpu)
      (hok : cpu.step.result = .ok instr)
      (hsp : .stackPointer ∉ instr.destinations)
      (hstore : instr.StoresByAddress → cpu.Spares slot ∧ cpu.Spares (slot + 1))
      (hdepth : 1 ≤ depth + instr.stackMotion ∧ depth + instr.stackMotion ≤ 32767) :
      Callee slot entered (depth + instr.stackMotion) cpu.step.cpu

/-- The return address `ret` rests at `slot`, `depth` words below the stack
pointer. -/
structure Frame (slot ret : Address) (depth : Int) (cpu : Cpu Memory) : Prop where
  nonempty : 1 ≤ depth
  sp : MovedBy slot cpu.regs.sp depth
  low : cpu.bus.get slot = ret.lowByte
  high : cpu.bus.get (slot + 1) = ret.highByte

variable {cpu caller current : Cpu Memory} {instr call : Instruction}
  {slot ret : Address} {depth : Int}

theorem sp_step
    (hok : cpu.step.result = .ok instr) (hsp : .stackPointer ∉ instr.destinations) :
    MovedBy cpu.regs.sp cpu.step.cpu.regs.sp instr.stackMotion := by
  rcases step_of_ok hok with ⟨-, -, hregs⟩
  rw [hregs, ← Registers.sp_advancePc cpu.regs 2]
  exact sp_effect hsp _

theorem frame_of_call
    (hok : cpu.step.result = .ok call)
    (hret : call.returnAddress? cpu.regs.pc = some ret) :
    Frame cpu.regs.sp ret 1 cpu.step.cpu := by
  have hmoved := sp_step hok (by simp [destinations_of_call hret])
  rw [stackMotion_of_call hret] at hmoved
  rcases step_of_ok hok with ⟨-, hrequests, -⟩
  rw [requests_effect (Registers.pc_advancePc _ _), dataRequests_of_call hret,
    Registers.sp_advancePc, ← List.append_assoc] at hrequests
  constructor
  · exact Int.le_refl 1
  · exact hmoved
  · rw [bus_step, hrequests, Memory.storeAll_append, Memory.storeAll_writeWord,
      Memory.get_setWord_low]
  · rw [bus_step, hrequests, Memory.storeAll_append, Memory.storeAll_writeWord,
      Memory.get_setWord_high]

theorem write_mem_step
    {addr : Address} {byte : Byte} (hok : cpu.step.result = .ok instr)
    (hmem : .write addr byte ∈ cpu.step.accesses.map Access.request) :
    instr.StoresByAddress ∨
      instr.stackMotion = 1 ∧ (addr = cpu.regs.sp ∨ addr = cpu.regs.sp + 1) := by
  rcases step_of_ok hok with ⟨-, hrequests, -⟩
  rw [hrequests, List.mem_append] at hmem
  rcases hmem with hfetch | heffect
  · simp [Request.readWord] at hfetch
  · have hwrite := write_mem_requests_effect (Registers.pc_advancePc _ _) heffect
    rwa [Registers.sp_advancePc] at hwrite

theorem get_step
    {addr : Address} (hok : cpu.step.result = .ok instr)
    (hstore : instr.StoresByAddress → cpu.Spares addr)
    (hpush : instr.stackMotion = 1 → addr ≠ cpu.regs.sp ∧ addr ≠ cpu.regs.sp + 1) :
    cpu.step.cpu.bus.get addr = cpu.bus.get addr := by
  rw [bus_step]
  apply Memory.get_storeAll_of_not_written
  intro byte hmem
  rcases write_mem_step hok hmem with hby | ⟨hmotion, hat⟩
  · exact hstore hby byte hmem
  · have hapart := hpush hmotion
    exact hat.elim hapart.1 hapart.2

theorem Frame.step
    (frame : Frame slot ret depth cpu) (hok : cpu.step.result = .ok instr)
    (hsp : .stackPointer ∉ instr.destinations)
    (hstore : instr.StoresByAddress → cpu.Spares slot ∧ cpu.Spares (slot + 1))
    (hdepth : 1 ≤ depth + instr.stackMotion ∧ depth + instr.stackMotion ≤ 32767) :
    Frame slot ret (depth + instr.stackMotion) cpu.step.cpu := by
  have hapart : instr.stackMotion = 1 →
      (slot ≠ cpu.regs.sp ∧ slot ≠ cpu.regs.sp + 1) ∧
        slot + 1 ≠ cpu.regs.sp ∧ slot + 1 ≠ cpu.regs.sp + 1 := by
    intro hpush
    rw [hpush] at hdepth
    exact frame.sp.disjoint frame.nonempty hdepth.2
  have hlow : cpu.step.cpu.bus.get slot = cpu.bus.get slot := by
    apply get_step hok
    · exact fun hby => (hstore hby).1
    · exact fun hpush => (hapart hpush).1
  have hhigh : cpu.step.cpu.bus.get (slot + 1) = cpu.bus.get (slot + 1) := by
    apply get_step hok
    · exact fun hby => (hstore hby).2
    · exact fun hpush => (hapart hpush).2
  constructor
  · exact hdepth.1
  · exact frame.sp.trans (sp_step hok hsp)
  · rw [hlow, frame.low]
  · rw [hhigh, frame.high]

theorem Callee.frame
    (hcall : caller.step.result = .ok call)
    (hret : call.returnAddress? caller.regs.pc = some ret)
    (hcallee : Callee caller.regs.sp caller.step.cpu depth current) :
    Frame caller.regs.sp ret depth current := by
  induction hcallee with
  | entry => exact frame_of_call hcall hret
  | step callee hok hsp hstore hdepth ih => exact ih.step hok hsp hstore hdepth

theorem step_of_ret
    (hok : cpu.step.result = .ok instr) (hop : instr.stackOp? = some .ret) :
    cpu.step.cpu.regs.pc = cpu.bus.getWord (cpu.regs.sp - 2) ∧
      cpu.step.cpu.regs.sp = cpu.regs.sp - 2 := by
  rcases stackOp?_eq_some_iff.mp hop with ⟨hopcode, hgroup, hop⟩
  rcases step_of_ok hok with ⟨-, hrequests, hregs⟩
  have hreads : cpu.step.accesses.map Access.request =
      [cpu.regs.pc, cpu.regs.pc + 1, cpu.regs.sp - 2, cpu.regs.sp - 2 + 1].map .read := by
    rw [hrequests, requests_effect (Registers.pc_advancePc _ _)]
    simp [operandRequests, operandLength, dataRequests, hopcode, hgroup, hop,
      Request.readWord]
  have hanswers : answers cpu.step.accesses =
      [cpu.regs.pc, cpu.regs.pc + 1, cpu.regs.sp - 2, cpu.regs.sp - 2 + 1].map
        cpu.bus.get := by
    have hmade := congrArg (fun made => answers made.1) (performAll_step cpu)
    rw [hreads] at hmade
    exact hmade.symm.trans (Request.answers_performAll_reads _ _)
  rw [hregs, hanswers]
  simp [effect, extendedEffect, stackEffect, hopcode, hgroup, hop, Memory.getWord]

/-- A return address survives its callee: in every state of the called code it is
in its slot, and a return from depth one goes there. -/
theorem return_address_survives
    (hcall : caller.step.result = .ok call)
    (hret : call.returnAddress? caller.regs.pc = some ret)
    (hcallee : Callee caller.regs.sp caller.step.cpu depth current) :
    let slot := caller.regs.sp
    (current.regs.sp.toNat : Int) = (slot.toNat + 2 * depth) % 65536 ∧
      current.bus.get slot = ret.lowByte ∧
      current.bus.get (slot + 1) = ret.highByte ∧
      ∀ instr, depth = 1 → current.step.result = .ok instr →
        instr.stackOp? = some .ret →
          current.step.cpu.regs.pc = ret ∧ current.step.cpu.regs.sp = slot := by
  intro slot
  have frame := Callee.frame hcall hret hcallee
  refine ⟨frame.sp, frame.low, frame.high, ?_⟩
  intro instr hdepth hok hop
  rcases step_of_ret hok hop with ⟨hpc, hsp⟩
  have hslot : current.regs.sp - 2 = slot := by
    have hmoved := frame.sp.trans (movedBy_neg_one current.regs.sp)
    rw [hdepth] at hmoved
    exact hmoved.eq_of_zero
  rw [hpc, hsp, hslot]
  refine ⟨?_, rfl⟩
  rw [Memory.getWord, frame.low, frame.high, Word.ofBytes_lowByte_highByte]

theorem return_address_survives_push_pop :
    let caller : Cpu Memory :=
      ⟨(Registers.startingAt 3).setSp 32,
        (Memory.zero.load 3 [0x09, 0x30, 0x10, 0x00]).load 16
          [0x09, 0x10, 0x09, 0x20, 0x09, 0x50]⟩
    let current := caller.step.cpu.step.cpu.step.cpu
    caller.step.result = .ok (.decode 0x09 0x30) ∧
      Callee 32 caller.step.cpu 1 current ∧
      current.step.result = .ok (.decode 0x09 0x50) ∧
      current.step.cpu.regs.pc = 7 ∧ current.step.cpu.regs.sp = 32 := by
  intro caller current
  have hcall : caller.step.result = .ok (.decode 0x09 0x30) := by rfl
  have hpush : caller.step.cpu.step.result = .ok (.decode 0x09 0x10) := by rfl
  have hpop : caller.step.cpu.step.cpu.step.result = .ok (.decode 0x09 0x20) := by rfl
  have hpushed := Callee.step (@Callee.entry 32 caller.step.cpu) hpush (by decide)
    (fun hby => absurd hby (by decide)) (by decide)
  have hcallee : Callee 32 caller.step.cpu 1 current :=
    hpushed.step hpop (by decide) (fun hby => absurd hby (by decide)) (by decide)
  have hok : current.step.result = .ok (.decode 0x09 0x50) := by rfl
  obtain ⟨-, -, -, hreturn⟩ :=
    @return_address_survives caller current _ 7 1 hcall (by decide) hcallee
  exact ⟨hcall, hcallee, hok, hreturn _ rfl hok (by decide)⟩

end Cpu

end WordMachine
