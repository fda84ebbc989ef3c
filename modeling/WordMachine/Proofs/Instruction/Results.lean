import WordMachine.Proofs.Instruction.Footprint

/-!
# What an instruction leaves in the registers

An instruction reads its registers with the program counter already behind its word, and may
read bytes behind the word: an operand, a word off the stack, a value in memory.  `result` is
what it computes from them, or has loaded, for a register that it names as the place of its
result.  `transfer?` is where a jump, a call or a return goes on.

`pc_effect` says where the instruction goes on in every case, and `get_effect_of_not_mem`
which registers it leaves alone.  The stack pointer moves as `stackMotion` says, unless a pop
goes into the stack pointer itself.
-/

namespace WordMachine

/-- The word in the bytes `i` and `i + 1`. -/
def wordAt (bytes : List Byte) (i : Nat) : Word :=
  Word.ofBytes (bytes.getD i 0) (bytes.getD (i + 1) 0)

theorem ofBytes_headD_tail (bytes : List Byte) :
    Word.ofBytes (bytes.headD 0) (bytes.tail.headD 0) = wordAt bytes 0 := by
  simp [wordAt, List.head?_eq_getElem?]

namespace Instruction

open Transaction

variable {instr : Instruction} {source : Registers} {bytes : List Byte}

/-! ## The program counter -/

/-- What the instruction computes or loads for its destination `r`, given the bytes that it
reads behind its word. -/
def result (instr : Instruction) (source : Registers) (bytes : List Byte) (r : Register) : Word :=
  let x := source.get instr.a
  let y := source.get instr.b
  match instr.opcode with
  | .getByte => (bytes.headD 0).toUInt16
  | .orImmediate => x ||| instr.imm % 256
  | .or => x ||| y
  | .and => x &&& y
  | .xor => x ^^^ y
  | .not => ~~~x
  | .shiftLeft => x.shiftLeft y
  | .shiftRight => x.shiftRight y
  | .add => x + y
  | .sub => x - y
  | .mul => x * y
  | .div => x / y
  | .mod => x % y
  | .extended =>
      match instr.extendedOp with
      | .loadImmediate => wordAt bytes 0
      | .copy => source.get instr.low
      | .swap => if r = instr.low then y else source.get instr.low
      | .stack =>
          match instr.stackOp with
          | .popRegister => wordAt bytes 0
          | .loadAddress => wordAt bytes 2
          | _ => source.get r
      | _ => source.get r
  | .jump | .setByte => source.get r

/-- Where the instruction goes if it jumps, calls or returns. -/
def transfer? (instr : Instruction) (source : Registers) (bytes : List Byte) : Option Address :=
  match instr.opcode with
  | .jump => if source.condition = 0 then some (source.get instr.a) else none
  | .extended =>
      match instr.extendedOp with
      | .jumpImmediate => if source.condition = 0 then some (wordAt bytes 0) else none
      | .jumpAlways => some (wordAt bytes 0)
      | .stack =>
          match instr.stackOp with
          | .callAddress => some (wordAt bytes 0)
          | .callRegister => some (source.get instr.low)
          | .ret => some (wordAt bytes 0)
          | _ => none
      | _ => none
  | _ => none

/-- The address of the next instruction.  An instruction that writes the program counter as its
destination still moves it past its operand. -/
def continuation (instr : Instruction) (source : Registers) (bytes : List Byte) : Address :=
  match instr.transfer? source bytes with
  | some target => target
  | none =>
      (if .programCounter ∈ instr.destinations then instr.result source bytes .programCounter
        else source.pc) + instr.operandLength

theorem pc_stackEffect
    (hopcode : instr.opcode = .extended) (hgroup : instr.extendedOp = .stack) :
    ((instr.stackEffect source).value bytes).pc = instr.continuation source bytes := by
  cases hop : instr.stackOp <;>
    simp [stackEffect, operand, continuation, transfer?, result, destinations, operandLength,
      hopcode, hgroup, hop, Registers.pc_set, eq_comm (a := Register.programCounter), wordAt,
      List.head?_eq_getElem?]

theorem pc_extendedEffect (hopcode : instr.opcode = .extended) :
    ((instr.extendedEffect source).value bytes).pc = instr.continuation source bytes := by
  cases hop : instr.extendedOp with
  | stack =>
      simp only [extendedEffect, hop]
      exact pc_stackEffect hopcode hop
  | jumpImmediate =>
      by_cases htaken : source.condition = 0 <;>
        simp [extendedEffect, operand, continuation, transfer?, destinations, operandLength,
          hopcode, hop, Registers.conditionTaken, htaken, wordAt, List.head?_eq_getElem?]
  | swap =>
      by_cases hb : instr.b = .programCounter <;>
        by_cases hlow : instr.low = .programCounter <;>
          simp [extendedEffect, continuation, transfer?, result, destinations, operandLength,
            hopcode, hop, Registers.pc, Registers.get_swap, hb, hlow,
            eq_comm (a := Register.programCounter)]
  | _ =>
      simp [extendedEffect, operand, continuation, transfer?, result, destinations,
        operandLength, hopcode, hop, Registers.pc_set, eq_comm (a := Register.programCounter),
        wordAt, List.head?_eq_getElem?]

theorem pc_effect :
    ((instr.effect source).value bytes).pc = instr.continuation source bytes := by
  cases hop : instr.opcode with
  | extended =>
      simp only [effect, hop]
      exact pc_extendedEffect hop
  | jump =>
      by_cases htaken : source.condition = 0 <;>
        simp [effect, continuation, transfer?, destinations, operandLength, hop,
          Registers.conditionTaken, htaken]
  | _ =>
      simp [effect, continuation, transfer?, result, destinations, operandLength, hop,
        Registers.pc_set, eq_comm (a := Register.programCounter)]

/-! ## The other registers -/

/-- The registers that the instruction changes without naming them, the program counter
aside. -/
def implied (instr : Instruction) : List Register :=
  match instr.opcode with
  | .extended =>
      match instr.extendedOp with
      | .compareEqual | .compareGreater | .compareLess => [.condition]
      | .stack =>
          match instr.stackOp with
          | .pushImmediate | .pushRegister | .popRegister => [.stackPointer]
          | .callAddress | .callRegister | .ret => [.stackPointer]
          | _ => []
      | _ => []
  | _ => []

section Frame

variable {r : Register} (hpc : r ≠ .programCounter) (hdestination : r ∉ instr.destinations)
  (himplied : r ∉ instr.implied)

include hpc hdestination himplied

theorem get_stackEffect_of_not_mem
    (hopcode : instr.opcode = .extended) (hgroup : instr.extendedOp = .stack) :
    ((instr.stackEffect source).value bytes).get r = source.get r := by
  cases hop : instr.stackOp <;>
    simp [destinations, implied, hopcode, hgroup, hop] at hdestination himplied <;>
    simp [stackEffect, hop, Registers.setPc, Registers.advancePc, Registers.setSp,
      Registers.get_set_of_ne, hpc, hdestination, himplied]

theorem get_extendedEffect_of_not_mem (hopcode : instr.opcode = .extended) :
    ((instr.extendedEffect source).value bytes).get r = source.get r := by
  cases hop : instr.extendedOp with
  | stack =>
      simp only [extendedEffect, hop]
      exact get_stackEffect_of_not_mem hpc hdestination himplied hopcode hop
  | jumpImmediate =>
      by_cases htaken : source.conditionTaken <;>
        simp [extendedEffect, hop, htaken, Registers.setPc, Registers.advancePc,
          Registers.get_set_of_ne, hpc]
  | swap =>
      simp only [destinations, hopcode, hop, List.mem_cons, List.not_mem_nil, or_false,
        not_or] at hdestination
      simp [extendedEffect, hop, Registers.get_swap, Ne.symm hdestination.1,
        Ne.symm hdestination.2]
  | _ =>
      simp [destinations, implied, hopcode, hop] at hdestination himplied
      simp [extendedEffect, hop, Registers.setPc, Registers.advancePc, Registers.setCondition,
        Registers.get_set_of_ne, hpc, hdestination, himplied]

/-- An instruction changes the program counter, its destinations, and what it implies. -/
theorem get_effect_of_not_mem :
    ((instr.effect source).value bytes).get r = source.get r := by
  cases hop : instr.opcode with
  | extended =>
      simp only [effect, hop]
      exact get_extendedEffect_of_not_mem hpc hdestination himplied hop
  | jump =>
      by_cases htaken : source.conditionTaken <;>
        simp [effect, hop, htaken, Registers.setPc, Registers.get_set_of_ne, hpc]
  | setByte => simp [effect, hop]
  | _ =>
      simp only [destinations, hop, List.mem_singleton] at hdestination
      simp [effect, hop, Registers.get_set_of_ne, hdestination]

end Frame

theorem sp_effect_of_push
    {op : StackOp} (hop : instr.stackOp? = some op)
    (hpush : op ∈ [.pushImmediate, .pushRegister, .callAddress, .callRegister]) :
    ((instr.effect source).value bytes).sp = source.sp + 2 := by
  rcases stackOp?_eq_some_iff.mp hop with ⟨hopcode, hgroup, rfl⟩
  simp only [effect, extendedEffect, hopcode, hgroup]
  simp only [List.mem_cons, List.not_mem_nil, or_false] at hpush
  rcases hpush with hpush | hpush | hpush | hpush <;> simp [stackEffect, hpush]

theorem sp_effect_of_ret (hop : instr.stackOp? = some .ret) :
    ((instr.effect source).value bytes).sp = source.sp - 2 := by
  rcases stackOp?_eq_some_iff.mp hop with ⟨hopcode, hgroup, hret⟩
  simp [effect, extendedEffect, stackEffect, hopcode, hgroup, hret]

/-- A pop into the stack pointer moves the stack pointer that it has loaded. -/
theorem sp_effect_of_pop (hop : instr.stackOp? = some .popRegister) :
    ((instr.effect source).value bytes).sp =
      (if instr.low = .stackPointer then wordAt bytes 0 else source.sp) - 2 := by
  rcases stackOp?_eq_some_iff.mp hop with ⟨hopcode, hgroup, hpop⟩
  simp [effect, extendedEffect, stackEffect, hopcode, hgroup, hpop, Registers.sp_set, wordAt,
    List.head?_eq_getElem?]

end Instruction

end WordMachine
