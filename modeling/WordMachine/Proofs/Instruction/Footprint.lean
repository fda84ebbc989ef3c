import WordMachine.Instruction.Effect
import WordMachine.Proofs.Bus.Requests
import WordMachine.Proofs.Registers

/-!
# Footprints of instructions

The footprint of an instruction is what it leaves on the bus and on the stack,
in terms of the decoded word and of the registers as it reads them, which have
the program counter behind the word already.

`operandRequests` and `dataRequests` are its accesses.  `destinations` are the
registers that it names as the place of its result, and `stackMotion` is by how
many words it moves the stack.  An instruction that does not name the stack
pointer moves it by its stack motion and in no other way.
-/

namespace WordMachine.Instruction

open Transaction

variable {instr : Instruction} {source : Registers} {p : Address}

def stackOp? (instr : Instruction) : Option StackOp :=
  if instr.opcode = .extended ∧ instr.extendedOp = .stack then some instr.stackOp
  else none

theorem stackOp?_eq_some_iff {op : StackOp} :
    instr.stackOp? = some op ↔
      instr.opcode = .extended ∧ instr.extendedOp = .stack ∧ instr.stackOp = op := by
  simp [stackOp?, and_assoc]

/-- Whether the instruction stores to an address that the program gives. -/
def StoresByAddress (instr : Instruction) : Prop :=
  instr.opcode = .setByte ∨ instr.stackOp? = some .storeAddress

instance (instr : Instruction) : Decidable instr.StoresByAddress :=
  inferInstanceAs (Decidable (_ ∨ _))

/-! ## Accesses -/

def operandRequests (instr : Instruction) (p : Address) : List Request :=
  if instr.operandLength = 2 then Request.readWord (p + 2) else []

/-- The accesses of the instruction at `p` behind its operand, with the
registers as it reads them. -/
def dataRequests (instr : Instruction) (p : Address) (source : Registers)
    (operand : Word) : List Request :=
  match instr.opcode with
  | .getByte => [.read (source.get .index)]
  | .setByte => [.write (source.get .index) (source.get instr.a).lowByte]
  | .extended =>
      match instr.extendedOp with
      | .stack =>
          match instr.stackOp with
          | .pushImmediate => Request.writeWord source.sp operand
          | .pushRegister => Request.writeWord source.sp (source.get instr.low)
          | .popRegister => Request.readWord (source.sp - 2)
          | .callAddress => Request.writeWord source.sp (p + 4)
          | .callRegister => Request.writeWord source.sp (p + 2)
          | .ret => Request.readWord (source.sp - 2)
          | .storeAddress => Request.writeWord operand (source.get instr.low)
          | .loadAddress => Request.readWord operand
          | .reserved _ => []
      | _ => []
  | _ => []

theorem requests_stackEffect
    (hopcode : instr.opcode = .extended) (hgroup : instr.extendedOp = .stack)
    (hpc : source.pc = p + 2) (bytes : List Byte) :
    (instr.stackEffect source).requests bytes =
      instr.operandRequests p ++
        instr.dataRequests p source
          (Word.ofBytes (bytes.headD 0) (bytes.tail.headD 0)) := by
  have hbehind : p + 2 + 2 = p + 4 := UInt16.add_assoc p 2 2
  cases hop : instr.stackOp <;>
    simp [stackEffect, operand, operandRequests, operandLength, dataRequests,
      hopcode, hgroup, hop, hpc, hbehind]

theorem requests_extendedEffect
    (hopcode : instr.opcode = .extended) (hpc : source.pc = p + 2)
    (bytes : List Byte) :
    (instr.extendedEffect source).requests bytes =
      instr.operandRequests p ++
        instr.dataRequests p source
          (Word.ofBytes (bytes.headD 0) (bytes.tail.headD 0)) := by
  cases hop : instr.extendedOp with
  | stack =>
      simp only [extendedEffect, hop]
      exact requests_stackEffect hopcode hop hpc bytes
  | _ =>
      simp [extendedEffect, operand, operandRequests, operandLength, dataRequests,
        hopcode, hop, hpc]

theorem requests_effect (hpc : source.pc = p + 2) (bytes : List Byte) :
    (instr.effect source).requests bytes =
      instr.operandRequests p ++
        instr.dataRequests p source
          (Word.ofBytes (bytes.headD 0) (bytes.tail.headD 0)) := by
  cases hop : instr.opcode with
  | extended =>
      simp only [effect, hop]
      exact requests_extendedEffect hop hpc bytes
  | _ =>
      simp [effect, operandRequests, operandLength, dataRequests, hop,
        Registers.index]

/-! ## The stack pointer -/

def destinations (instr : Instruction) : List Register :=
  match instr.opcode with
  | .extended =>
      match instr.extendedOp with
      | .loadImmediate | .copy => [instr.b]
      | .swap => [instr.b, instr.low]
      | .stack =>
          match instr.stackOp with
          | .popRegister | .loadAddress => [instr.low]
          | _ => []
      | _ => []
  | .jump | .setByte => []
  | _ => [instr.a]

/-- One word up for a push or a call, one down for a pop or a return. -/
def stackMotion (instr : Instruction) : Int :=
  match instr.stackOp? with
  | some .pushImmediate | some .pushRegister => 1
  | some .callAddress | some .callRegister => 1
  | some .popRegister | some .ret => -1
  | _ => 0

theorem write_mem_dataRequests
    {addr : Address} {byte : Byte} {operand : Word}
    (hmem : .write addr byte ∈ instr.dataRequests p source operand) :
    instr.StoresByAddress ∨
      instr.stackMotion = 1 ∧ (addr = source.sp ∨ addr = source.sp + 1) := by
  have hword : ∀ {start : Address} {word : Word},
      .write addr byte ∈ Request.writeWord start word → addr = start ∨ addr = start + 1 := by
    intro start word hmem
    simp only [Request.writeWord, List.mem_cons, Request.write.injEq, List.not_mem_nil,
      or_false] at hmem
    exact hmem.imp And.left And.left
  cases hopcode : instr.opcode with
  | setByte => exact .inl (.inl hopcode)
  | extended =>
      cases hgroup : instr.extendedOp with
      | stack =>
          have hop? : ∀ op, instr.stackOp = op → instr.stackOp? = some op :=
            fun op hop => stackOp?_eq_some_iff.mpr ⟨hopcode, hgroup, hop⟩
          simp only [dataRequests, hopcode, hgroup] at hmem
          cases hop : instr.stackOp with
          | storeAddress => exact .inl (.inr (hop? _ hop))
          | pushImmediate | pushRegister | callAddress | callRegister =>
              rw [hop] at hmem
              exact .inr ⟨by rw [stackMotion, hop? _ hop], hword hmem⟩
          | _ => simp [hop, Request.readWord] at hmem
      | _ => simp [dataRequests, hopcode, hgroup] at hmem
  | _ => simp [dataRequests, hopcode] at hmem

theorem write_mem_requests_effect
    {addr : Address} {byte : Byte} {bytes : List Byte} (hpc : source.pc = p + 2)
    (hmem : .write addr byte ∈ (instr.effect source).requests bytes) :
    instr.StoresByAddress ∨
      instr.stackMotion = 1 ∧ (addr = source.sp ∨ addr = source.sp + 1) := by
  rw [requests_effect hpc, List.mem_append] at hmem
  rcases hmem with hoperand | hdata
  · unfold operandRequests at hoperand
    split at hoperand <;> simp [Request.readWord] at hoperand
  · exact write_mem_dataRequests hdata

/-- `after` is `before` moved by `words` words, modulo the address space. -/
def MovedBy (before after : Address) (words : Int) : Prop :=
  (after.toNat : Int) = (before.toNat + 2 * words) % 65536

theorem movedBy_zero (addr : Address) : MovedBy addr addr 0 := by
  have haddr := addr.toNat_lt
  simp only [MovedBy]
  omega

theorem movedBy_one (addr : Address) : MovedBy addr (addr + 2) 1 := by
  have hsum : (addr + 2).toNat = (addr.toNat + 2) % 65536 := UInt16.toNat_add addr 2
  simp only [MovedBy, hsum]
  omega

theorem movedBy_neg_one (addr : Address) : MovedBy addr (addr - 2) (-1) := by
  have hdiff : (addr - 2).toNat = (65536 - 2 + addr.toNat) % 65536 :=
    UInt16.toNat_sub addr 2
  simp only [MovedBy, hdiff]
  omega

theorem MovedBy.trans
    {first second third : Address} {words words' : Int}
    (hfirst : MovedBy first second words) (hsecond : MovedBy second third words') :
    MovedBy first third (words + words') := by
  simp only [MovedBy] at *
  omega

theorem MovedBy.eq_of_zero
    {before after : Address} (hmoved : MovedBy before after 0) : after = before := by
  have hbefore := before.toNat_lt
  rw [← UInt16.toNat_inj]
  simp only [MovedBy] at hmoved
  omega

/-- The word at the stack pointer and the word at the bottom of the stack do not
overlap, as long as the stack does not fill the address space. -/
theorem MovedBy.disjoint
    {slot sp : Address} {depth : Int} (hmoved : MovedBy slot sp depth)
    (hpos : 1 ≤ depth) (hroom : depth + 1 ≤ 32767) :
    (slot ≠ sp ∧ slot ≠ sp + 1) ∧ slot + 1 ≠ sp ∧ slot + 1 ≠ sp + 1 := by
  have hslot := slot.toNat_lt
  have hsucc : ∀ addr : Address, (addr + 1).toNat = (addr.toNat + 1) % 65536 :=
    fun addr => UInt16.toNat_add addr 1
  simp only [MovedBy] at hmoved
  simp only [ne_eq, ← UInt16.toNat_inj, hsucc]
  omega

theorem sp_stackEffect
    (hopcode : instr.opcode = .extended) (hgroup : instr.extendedOp = .stack)
    (hsp : .stackPointer ∉ instr.destinations) (bytes : List Byte) :
    MovedBy source.sp ((instr.stackEffect source).value bytes).sp
      instr.stackMotion := by
  have hop? : instr.stackOp? = some instr.stackOp := by
    rw [stackOp?, if_pos ⟨hopcode, hgroup⟩]
  simp only [destinations, hopcode, hgroup] at hsp
  simp only [stackMotion, hop?]
  cases hop : instr.stackOp with
  | pushImmediate => simpa [stackEffect, hop] using movedBy_one source.sp
  | pushRegister => simpa [stackEffect, hop] using movedBy_one source.sp
  | popRegister =>
      simp only [hop, List.mem_singleton] at hsp
      simpa [stackEffect, hop, Registers.sp_set_of_ne _ (Ne.symm hsp)]
        using movedBy_neg_one source.sp
  | callAddress => simpa [stackEffect, hop] using movedBy_one source.sp
  | callRegister => simpa [stackEffect, hop] using movedBy_one source.sp
  | ret => simpa [stackEffect, hop] using movedBy_neg_one source.sp
  | storeAddress => simpa [stackEffect, hop] using movedBy_zero source.sp
  | loadAddress =>
      simp only [hop, List.mem_singleton] at hsp
      simpa [stackEffect, hop, Registers.sp_set_of_ne _ (Ne.symm hsp)]
        using movedBy_zero source.sp
  | reserved number => simpa [stackEffect, hop] using movedBy_zero source.sp

theorem stackMotion_of_not_stack
    (hother : ¬ (instr.opcode = .extended ∧ instr.extendedOp = .stack)) :
    instr.stackMotion = 0 := by
  simp only [stackMotion, stackOp?, if_neg hother]

theorem sp_extendedEffect
    (hopcode : instr.opcode = .extended)
    (hsp : .stackPointer ∉ instr.destinations) (bytes : List Byte) :
    MovedBy source.sp ((instr.extendedEffect source).value bytes).sp
      instr.stackMotion := by
  cases hop : instr.extendedOp with
  | stack =>
      simp only [extendedEffect, hop]
      exact sp_stackEffect hopcode hop hsp bytes
  | loadImmediate =>
      simp only [destinations, hopcode, hop, List.mem_singleton] at hsp
      rw [stackMotion_of_not_stack (by simp [hop])]
      simpa [extendedEffect, hop, Registers.sp_set_of_ne _ (Ne.symm hsp)]
        using movedBy_zero source.sp
  | copy =>
      simp only [destinations, hopcode, hop, List.mem_singleton] at hsp
      rw [stackMotion_of_not_stack (by simp [hop])]
      simpa [extendedEffect, hop, Registers.sp_set_of_ne _ (Ne.symm hsp)]
        using movedBy_zero source.sp
  | swap =>
      simp only [destinations, hopcode, hop, List.mem_cons, List.not_mem_nil, or_false,
        not_or] at hsp
      rw [stackMotion_of_not_stack (by simp [hop])]
      simpa [extendedEffect, hop,
        Registers.sp_swap_of_ne _ (Ne.symm hsp.1) (Ne.symm hsp.2)]
        using movedBy_zero source.sp
  | jumpImmediate =>
      rw [stackMotion_of_not_stack (by simp [hop])]
      by_cases htaken : source.conditionTaken <;>
        simpa [extendedEffect, hop, htaken] using movedBy_zero source.sp
  | _ =>
      rw [stackMotion_of_not_stack (by simp [hop])]
      simpa [extendedEffect, hop] using movedBy_zero source.sp

theorem sp_effect
    (hsp : .stackPointer ∉ instr.destinations) (bytes : List Byte) :
    MovedBy source.sp ((instr.effect source).value bytes).sp instr.stackMotion := by
  cases hop : instr.opcode with
  | extended =>
      simp only [effect, hop]
      exact sp_extendedEffect hop hsp bytes
  | jump =>
      rw [stackMotion_of_not_stack (by simp [hop])]
      by_cases htaken : source.conditionTaken <;>
        simpa [effect, hop, htaken] using movedBy_zero source.sp
  | setByte =>
      rw [stackMotion_of_not_stack (by simp [hop])]
      simpa [effect, hop] using movedBy_zero source.sp
  | _ =>
      simp only [destinations, hop, List.mem_singleton] at hsp
      rw [stackMotion_of_not_stack (by simp [hop])]
      simpa [effect, hop, Registers.sp_set_of_ne _ (Ne.symm hsp)]
        using movedBy_zero source.sp

end WordMachine.Instruction
