import WordMachine.Proofs.Bus.Layout
import WordMachine.Proofs.Cpu.Memory
import WordMachine.Proofs.Cpu.Run
import WordMachine.Proofs.Instruction.Footprint

/-!
# Pushes and pops

A stretch of pushes with as many pops behind it is last in, first out, wherever the
stack lies, as long as it does not run into the code; it may go past the last
address.

`step_push` and `step_pop` say what one instruction does.  `Stage` is what holds
between two of them: the code that is still ahead, and the words that are on the
stack.  A push puts a word on top (`Stage.push`), a pop takes it off (`Stage.pop`),
and induction on the instructions gives the two halves of the stretch.
-/

namespace WordMachine

/-! ## Code -/

/-- A register that a push or a pop may name without moving the stack or the
program counter. -/
abbrev DataRegister := { r : Register // r ≠ .stackPointer ∧ r ≠ .programCounter }

/-- The field that names a register. -/
def Register.field (r : Register) : Byte := UInt8.ofNat r.val

theorem Register.ofField_field : ∀ r : Register, ofField r.field.lowNibble = r := by
  decide

def InstructionWord.toList (word : InstructionWord) : List Byte := [word.1, word.2]

inductive Push where
  | register (r : DataRegister)
  /-- `field` stands in the low nibble, which has no meaning. -/
  | immediate (value : Word) (field : Byte)
deriving DecidableEq, Repr

namespace Push

def code : Push → List Byte
  | register r => (InstructionWord.stack .pushRegister r.val.field).toList
  | immediate value field =>
      (InstructionWord.stack .pushImmediate field).toList ++ [value.lowByte, value.highByte]

/-- The word that is pushed. -/
def value (regs : Registers) : Push → Word
  | register r => regs.get r
  | immediate value _ => value

theorem code_length_pos (push : Push) : 0 < push.code.length := by
  cases push <;> exact Nat.succ_pos _

theorem value_congr
    {regs regs' : Registers} (push : Push)
    (hsame : ∀ r : DataRegister, regs'.get r = regs.get r) :
    push.value regs' = push.value regs := by
  cases push with
  | register r => exact hsame r
  | immediate value field => rfl

end Push

def popCode (r : DataRegister) : List Byte :=
  (InstructionWord.stack .popRegister r.val.field).toList

namespace Memory

/-- The pieces of code lie one behind the other from `start` on, and none of them
starts at the sentinel. -/
def Placed (memory : Memory) : Address → List (List Byte) → Prop
  | _, [] => True
  | start, piece :: rest =>
      start ≠ Cpu.sentinel ∧ memory.Holds start piece ∧
        memory.Placed (start + UInt16.ofNat piece.length) rest

instance decidablePlaced (memory : Memory) : (start : Address) →
    (code : List (List Byte)) → Decidable (memory.Placed start code)
  | _, [] => isTrue trivial
  | start, piece :: rest =>
      have := decidablePlaced memory (start + UInt16.ofNat piece.length) rest
      inferInstanceAs (Decidable (_ ∧ _ ∧ _))

theorem Placed.congr
    {memory memory' : Memory} {start : Address} {code : List (List Byte)}
    (h : memory.Placed start code)
    (hsame : ∀ addr, Within addr start code.flatten.length →
      memory'.get addr = memory.get addr) :
    memory'.Placed start code := by
  induction code generalizing start with
  | nil => trivial
  | cons piece rest ih =>
      obtain ⟨hstart, hpiece, hrest⟩ := h
      rw [List.flatten_cons, List.length_append] at hsame
      refine ⟨hstart, hpiece.congr ?_, ih hrest ?_⟩
      · exact fun addr hin => hsame addr (hin.mono (Nat.le_add_right _ _))
      · exact fun addr hin => hsame addr hin.of_add

end Memory

namespace Cpu

open Instruction Transaction

variable {cpu : Cpu Memory}

theorem instructionAt_extended
    {memory : Memory} {start : Address} {op : ExtendedOp} {b low : Byte} (rest : List Byte)
    (hword : memory.Holds start ((InstructionWord.extended op b low).toList ++ rest))
    (hop : Opcode.ofNibble op.nibble.highNibble = .extended ∧
      ExtendedOp.ofNibble op.nibble.lowNibble = op) :
    let instr := memory.instructionAt start
    instr.opcode = .extended ∧ instr.extendedOp = op ∧ instr.regB = b.lowNibble ∧
      instr.low = .ofField low.lowNibble ∧ memory.Holds (start + 2) rest := by
  obtain ⟨hfirst, hword⟩ := Memory.holds_cons.mp hword
  obtain ⟨hsecond, hrest⟩ := Memory.holds_cons.mp hword
  have hinstr : memory.instructionAt start = decode op.nibble (Byte.ofNibbles b low) := by
    rw [Memory.instructionAt, hfirst, hsecond]
    rfl
  rw [hinstr]
  refine ⟨hop.1, hop.2, ?_, ?_, ?_⟩
  · rw [decode, Byte.highNibble_ofNibbles]
  · rw [Instruction.low, lowField, decode, Byte.lowNibble_ofNibbles]
  · rwa [UInt16.add_assoc] at hrest

theorem step_of_stackCode {op : StackOp} {field : Byte} (rest : List Byte)
    (hpc : cpu.regs.pc ≠ sentinel)
    (hcode : cpu.bus.Holds cpu.regs.pc ((InstructionWord.stack op field).toList ++ rest))
    (hop : StackOp.ofNibble op.nibble.lowNibble = op) :
    let instr := cpu.bus.instructionAt cpu.regs.pc
    let effect := (instr.stackEffect (cpu.regs.advancePc 2)).onMemory cpu.bus
    cpu.step.result = .ok instr ∧ cpu.step.cpu = ⟨effect.1, effect.2⟩ ∧
      instr.stackOp = op ∧ instr.low = .ofField field.lowNibble ∧
      cpu.bus.Holds (cpu.regs.pc + 2) rest := by
  intro instr effect
  obtain ⟨hopcode, hgroup, hfield, hlow, hrest⟩ :=
    instructionAt_extended rest hcode ⟨rfl, rfl⟩
  obtain ⟨hresult, hcpu⟩ := step_of_extended hpc hopcode
  refine ⟨hresult, ?_, ?_, hlow, hrest⟩
  · rw [hcpu]
    simp only [extendedEffect, hgroup]
    rfl
  · rw [stackOp, hfield, hop]

theorem step_push
    {push : Push} (hpc : cpu.regs.pc ≠ sentinel)
    (hcode : cpu.bus.Holds cpu.regs.pc push.code) :
    (∃ instr, cpu.step.result = .ok instr) ∧
      cpu.step.cpu =
        ⟨(cpu.regs.advancePc (UInt16.ofNat push.code.length)).setSp (cpu.regs.sp + 2),
          cpu.bus.setWord cpu.regs.sp (push.value cpu.regs)⟩ := by
  cases push with
  | register r =>
      obtain ⟨hresult, hcpu, hop, hlow, -⟩ := step_of_stackCode [] hpc hcode rfl
      refine ⟨⟨_, hresult⟩, ?_⟩
      have hvalue := Registers.get_advancePc_of_ne cpu.regs r.property.2 2
      rw [hcpu]
      simp only [stackEffect, hop, hlow, Register.ofField_field, hvalue, onMemory_bind,
        onMemory_writeWord, onMemory_pure, Registers.sp_advancePc]
      rfl
  | immediate value field =>
      obtain ⟨hresult, hcpu, hop, -, hoperand⟩ := step_of_stackCode _ hpc hcode rfl
      refine ⟨⟨_, hresult⟩, ?_⟩
      have hvalue := Memory.getWord_of_holds hoperand
      rw [hcpu]
      simp only [stackEffect, hop, operand, onMemory_bind, onMemory_readWord,
        onMemory_writeWord, onMemory_pure, Registers.pc_advancePc, Registers.sp_advancePc,
        hvalue, Registers.advancePc_advancePc]
      rfl

theorem step_pop
    {q : DataRegister} (hpc : cpu.regs.pc ≠ sentinel)
    (hcode : cpu.bus.Holds cpu.regs.pc (popCode q)) :
    (∃ instr, cpu.step.result = .ok instr) ∧
      cpu.step.cpu =
        ⟨((cpu.regs.advancePc 2).set q (cpu.bus.getWord (cpu.regs.sp - 2))).setSp
            (cpu.regs.sp - 2),
          cpu.bus⟩ := by
  obtain ⟨hresult, hcpu, hop, hlow, -⟩ := step_of_stackCode [] hpc hcode rfl
  refine ⟨⟨_, hresult⟩, ?_⟩
  have hsp := Registers.sp_set_of_ne (cpu.regs.advancePc 2) q.property.1
  rw [hcpu]
  simp only [stackEffect, hop, hlow, Register.ofField_field, onMemory_bind,
    onMemory_readWord, onMemory_pure, Registers.sp_advancePc, hsp]

/-! ## Stages -/

/-- `cpu` stands before `code`, the rest of a program that ends before `finish` and
shares no address with the `room` bytes from `base` on. -/
structure Ahead (base : Address) (room : Nat) (finish : Address)
    (code : List (List Byte)) (cpu : Cpu Memory) : Prop where
  placed : cpu.bus.Placed cpu.regs.pc code
  finish : cpu.regs.pc + UInt16.ofNat code.flatten.length = finish
  apart : ∀ addr, Within addr cpu.regs.pc code.flatten.length → ¬ Within addr base room

/-- A stage of a program that `entered` has begun: `code` is ahead, the words of
`stack` have been pushed since, and nothing has been written outside the `room` bytes
above the stack that it found. -/
structure Stage (entered : Cpu Memory) (room : Nat) (finish : Address)
    (stack : List Word) (code : List (List Byte)) (cpu : Cpu Memory) : Prop where
  ahead : Ahead entered.regs.sp room finish code cpu
  sp : cpu.regs.sp = entered.regs.sp + UInt16.ofNat (2 * stack.length)
  stacked : cpu.bus.Stacked entered.regs.sp stack
  outside : ∀ addr, ¬ Within addr entered.regs.sp room →
    cpu.bus.get addr = entered.bus.get addr

variable {cpu' entered : Cpu Memory} {base finish : Address} {room : Nat}
  {piece : List Byte} {code : List (List Byte)} {stack : List Word}

theorem Ahead.next
    (h : Ahead base room finish (piece :: code) cpu)
    (hpc : cpu'.regs.pc = cpu.regs.pc + UInt16.ofNat piece.length)
    (hbus : ∀ addr, ¬ Within addr base room → cpu'.bus.get addr = cpu.bus.get addr) :
    Ahead base room finish code cpu' := by
  obtain ⟨-, -, hplaced⟩ := h.placed
  have hfinish := h.finish
  have hapart := h.apart
  rw [List.flatten_cons, List.length_append] at hfinish hapart
  rw [← hpc] at hplaced
  constructor
  -- The rest of the code is apart from the room, so no write has reached it.
  · apply hplaced.congr
    intro addr hin
    rw [hpc] at hin
    exact hbus addr (hapart addr hin.of_add)
  · rw [← hfinish, hpc, UInt16.ofNat_add, UInt16.add_assoc]
  · intro addr hin
    rw [hpc] at hin
    exact hapart addr hin.of_add

/-- The room of a stack beside a program is not the whole memory. -/
theorem Ahead.room_lt
    (h : Ahead base room finish (piece :: code) cpu) (hpiece : 0 < piece.length) :
    room < 65536 := by
  have hpc : Within cpu.regs.pc cpu.regs.pc (piece :: code).flatten.length := by
    apply within_start
    rw [List.flatten_cons, List.length_append]
    exact Nat.add_pos_left hpiece _
  have hout := h.apart cpu.regs.pc hpc
  exact Nat.lt_of_le_of_lt (Nat.le_of_not_lt hout) (UInt16.toNat_lt _)

theorem Stage.push
    {push : Push} (h : Stage entered room finish stack (push.code :: code) cpu)
    (hroom : 2 * (stack.length + 1) ≤ room) :
    (∃ instr, cpu.step.result = .ok instr) ∧
      Stage entered room finish (push.value cpu.regs :: stack) code cpu.step.cpu ∧
      ∀ r : DataRegister, cpu.step.cpu.regs.get r = cpu.regs.get r := by
  obtain ⟨hpc, hcode, -⟩ := h.ahead.placed
  obtain ⟨hok, hcpu⟩ := step_push hpc hcode
  have hlimit : room < 65536 := h.ahead.room_lt push.code_length_pos
  have hbus : ∀ addr, ¬ Within addr entered.regs.sp room →
      cpu.step.cpu.bus.get addr = cpu.bus.get addr := by
    intro addr hout
    rw [hcpu, h.sp]
    apply Memory.get_setWord_of_not_within
    exact fun hin => hout (hin.of_add.mono hroom)
  refine ⟨hok, ?_, ?_⟩
  · constructor
    · apply h.ahead.next _ hbus
      rw [hcpu, Registers.pc_setSp, Registers.pc_advancePc]
    · rw [hcpu, Registers.sp_setSp, h.sp, List.length_cons, Nat.mul_succ,
        UInt16.ofNat_add, UInt16.add_assoc]
      rfl
    · rw [hcpu, h.sp]
      exact h.stacked.push _ (Nat.le_trans hroom (Nat.le_of_lt hlimit))
    · exact fun addr hout => (hbus addr hout).trans (h.outside addr hout)
  · intro r
    rw [hcpu, Registers.get_setSp_of_ne _ r.property.1,
      Registers.get_advancePc_of_ne _ r.property.2]

theorem Stage.pop
    {q : DataRegister} {value : Word}
    (h : Stage entered room finish (value :: stack) (popCode q :: code) cpu) :
    (∃ instr, cpu.step.result = .ok instr) ∧
      Stage entered room finish stack code cpu.step.cpu ∧
      cpu.step.cpu.regs.get q = value ∧
      ∀ r : DataRegister, r ≠ q → cpu.step.cpu.regs.get r = cpu.regs.get r := by
  obtain ⟨hpc, hcode, -⟩ := h.ahead.placed
  obtain ⟨hok, hcpu⟩ := step_pop hpc hcode
  obtain ⟨htop, hstacked⟩ := h.stacked
  have hsp : cpu.regs.sp - 2 = entered.regs.sp + UInt16.ofNat (2 * stack.length) := by
    rw [h.sp, List.length_cons, Nat.mul_succ, UInt16.ofNat_add, ← UInt16.add_assoc]
    exact UInt16.add_sub_cancel _ _
  rw [hsp, htop] at hcpu
  refine ⟨hok, ?_, ?_, ?_⟩
  · constructor
    · apply h.ahead.next
      · rw [hcpu, Registers.pc_setSp, Registers.pc_set, if_neg q.property.2,
          Registers.pc_advancePc]
        rfl
      · intro addr _
        rw [hcpu]
    · rw [hcpu, Registers.sp_setSp]
    · rw [hcpu]
      exact hstacked
    · rw [hcpu]
      exact h.outside
  · rw [hcpu, Registers.get_setSp_of_ne _ q.property.1, Registers.get_set_self]
  · intro r hr
    have hne : r.val ≠ q.val := fun heq => hr (Subtype.ext heq)
    rw [hcpu, Registers.get_setSp_of_ne _ r.property.1, Registers.get_set_of_ne _ hne,
      Registers.get_advancePc_of_ne _ r.property.2]

/-! ## Runs -/

/-- The pushed words are those of the registers at the start: no push changes what
a later one pushes. -/
theorem Stage.pushes
    {pushes : List Push}
    (h : Stage entered room finish stack (pushes.map Push.code ++ code) cpu)
    (hroom : 2 * (stack.length + pushes.length) ≤ room) :
    ∃ pushed, cpu.after? pushes.length = some pushed ∧
      Stage entered room finish
        ((pushes.map (·.value cpu.regs)).reverse ++ stack) code pushed ∧
      ∀ r : DataRegister, pushed.regs.get r = cpu.regs.get r := by
  induction pushes generalizing cpu stack with
  | nil => exact ⟨cpu, rfl, h, fun _ => rfl⟩
  | cons push rest ih =>
      rw [List.length_cons] at hroom
      obtain ⟨⟨instr, hok⟩, hnext, hsame⟩ := h.push (by omega)
      have hroom' : 2 * ((push.value cpu.regs :: stack).length + rest.length) ≤ room := by
        rw [List.length_cons]
        omega
      obtain ⟨pushed, hafter, hstage, hkept⟩ := ih hnext hroom'
      refine ⟨pushed, ?_, ?_, ?_⟩
      · rw [List.length_cons, after?_succ_of_ok hok, hafter]
      · have hvalues : rest.map (·.value cpu.step.cpu.regs) =
            rest.map (·.value cpu.regs) :=
          List.map_congr_left fun push _ => push.value_congr hsame
        rw [hvalues] at hstage
        rwa [List.map_cons, List.reverse_cons, List.append_assoc]
      · exact fun r => (hkept r).trans (hsame r)

/-- Pops take the words from the top.  A register that is named again later keeps
its word up to that pop only. -/
theorem Stage.pops
    {pops : List DataRegister}
    (h : Stage entered room finish stack (pops.map popCode) cpu)
    (hlength : stack.length = pops.length) :
    ∃ final, cpu.after? pops.length = some final ∧
      Stage entered room finish [] [] final ∧
      (∀ (j : Nat) (q : DataRegister) (value : Word),
        pops[j]? = some q → stack[j]? = some value →
        (∃ popped, cpu.after? (j + 1) = some popped ∧ popped.regs.get q = value) ∧
          (q ∉ pops.drop (j + 1) → final.regs.get q = value)) ∧
      ∀ r : DataRegister, r ∉ pops → final.regs.get r = cpu.regs.get r := by
  induction pops generalizing cpu stack with
  | nil =>
      obtain rfl := List.length_eq_zero_iff.mp hlength
      refine ⟨cpu, rfl, h, ?_, fun _ _ => rfl⟩
      intro j q value hq
      simp at hq
  | cons q rest ih =>
      cases stack with
      | nil => contradiction
      | cons top stack =>
          obtain ⟨⟨instr, hok⟩, hnext, htop, hsame⟩ := h.pop
          obtain ⟨final, hafter, hstage, hpopped, hkept⟩ := ih hnext (Nat.succ.inj hlength)
          refine ⟨final, ?_, hstage, ?_, ?_⟩
          · rw [List.length_cons, after?_succ_of_ok hok, hafter]
          · intro j q' value hq' hvalue
            cases j with
            | zero =>
                obtain rfl := Option.some.inj hq'
                obtain rfl := Option.some.inj hvalue
                constructor
                · exact ⟨cpu.step.cpu, after?_succ_of_ok hok 0, htop⟩
                · exact fun hlast => (hkept q hlast).trans htop
            | succ j =>
                obtain ⟨hmid, hlast⟩ := hpopped j q' value hq' hvalue
                rw [after?_succ_of_ok hok]
                exact ⟨hmid, hlast⟩
          · intro r hr
            have hrest := hkept r (List.not_mem_of_not_mem_cons hr)
            exact hrest.trans (hsame r (List.ne_of_not_mem_cons hr))

/-- The code of pushes and of pops behind them, one piece for each instruction. -/
def pushPopCode (pushes : List Push) (pops : List DataRegister) : List (List Byte) :=
  pushes.map Push.code ++ pops.map popCode

/-- What is left of pushes and of pops that take down what they built up: the stack
pointer is back, the program counter behind the code, and nothing has changed but the
named registers and the memory of the stack. -/
structure Unwound (entered : Cpu Memory) (pushes : List Push) (pops : List DataRegister)
    (final : Cpu Memory) : Prop where
  sp : final.regs.sp = entered.regs.sp
  pc : final.regs.pc =
    entered.regs.pc + UInt16.ofNat (pushPopCode pushes pops).flatten.length
  kept : ∀ r : Register, r ≠ .programCounter → (∀ q ∈ pops, q.val ≠ r) →
    final.regs.get r = entered.regs.get r
  memory : ∀ addr, ¬ Within addr entered.regs.sp (2 * pushes.length) →
    final.bus.get addr = entered.bus.get addr

/-- Pushes with as many pops behind them are last in, first out: all steps succeed,
each pop gets the word of the push that mirrors it, and the rest is as before. -/
theorem pushes_then_pops
    {cpu : Cpu Memory} {pushes : List Push} {pops : List DataRegister}
    (hlength : pops.length = pushes.length)
    (hplaced : cpu.bus.Placed cpu.regs.pc (pushPopCode pushes pops))
    (hapart : ∀ addr, Within addr cpu.regs.sp (2 * pushes.length) →
      ¬ Within addr cpu.regs.pc (pushPopCode pushes pops).flatten.length) :
    ∃ final, cpu.after? (2 * pushes.length) = some final ∧
      Unwound cpu pushes pops final ∧
      ∀ (j : Nat) (q : DataRegister) (push : Push),
        pops[j]? = some q → pushes[pushes.length - 1 - j]? = some push →
          (∃ popped, cpu.after? (pushes.length + j + 1) = some popped ∧
            popped.regs.get q = push.value cpu.regs) ∧
            (q ∉ pops.drop (j + 1) → final.regs.get q = push.value cpu.regs) := by
  have hstart : Stage cpu (2 * pushes.length)
      (cpu.regs.pc + UInt16.ofNat (pushPopCode pushes pops).flatten.length) []
      (pushes.map Push.code ++ pops.map popCode) cpu := by
    constructor
    · exact ⟨hplaced, rfl, fun addr hcode hstack => hapart addr hstack hcode⟩
    · exact (UInt16.add_zero _).symm
    · trivial
    · exact fun _ _ => rfl
  -- Between the two halves the stack holds the words in reverse, the last one on top.
  obtain ⟨pushed, hpushed, hmiddle, hsame⟩ := hstart.pushes (by simp)
  rw [List.append_nil] at hmiddle
  obtain ⟨final, hfinal, hend, hpopped, hkept⟩ := hmiddle.pops (by simp [hlength])
  have hafter : ∀ count, cpu.after? (pushes.length + count) = pushed.after? count := by
    intro count
    rw [after?_add, hpushed]
    rfl
  have hsp : final.regs.sp = cpu.regs.sp := hend.sp.trans (UInt16.add_zero _)
  refine ⟨final, ?_, ⟨hsp, ?_, ?_, hend.outside⟩, ?_⟩
  · rw [Nat.two_mul, hafter, ← hlength, hfinal]
  · exact (UInt16.add_zero _).symm.trans hend.ahead.finish
  · intro r hpc hnot
    by_cases hr : r = .stackPointer
    · subst hr
      exact hsp
    · have hmem : (⟨r, hr, hpc⟩ : DataRegister) ∉ pops :=
        fun hin => hnot _ hin rfl
      exact (hkept ⟨r, hr, hpc⟩ hmem).trans (hsame ⟨r, hr, hpc⟩)
  · intro j q push hq hpush
    have hj : j < pushes.length := by
      rw [← hlength]
      exact (List.getElem?_eq_some_iff.mp hq).1
    have hvalue : (pushes.map (·.value cpu.regs)).reverse[j]? =
        some (push.value cpu.regs) := by
      rw [List.getElem?_reverse (by rwa [List.length_map]), List.length_map,
        List.getElem?_map, hpush]
      rfl
    rw [Nat.add_assoc, hafter]
    exact hpopped j q _ hq hvalue

/-- The stack goes past the last address, and the first pop overwrites a register
whose word is still below. -/
theorem pushes_then_pops_wrapping :
    let r5 : DataRegister := ⟨5, by decide⟩
    let r6 : DataRegister := ⟨6, by decide⟩
    let pushes : List Push := [.register r5, .immediate 0x1234 0]
    let pops : List DataRegister := [r5, r6]
    let cpu : Cpu Memory :=
      ⟨((Registers.startingAt 16).setSp 0xFFFF).set 5 7,
        Memory.zero.load 16 (pushPopCode pushes pops).flatten⟩
    cpu.bus.Placed cpu.regs.pc (pushPopCode pushes pops) ∧
      (∀ addr, Within addr cpu.regs.sp 4 → ¬ Within addr cpu.regs.pc 10) ∧
      ∃ final, cpu.after? 4 = some final ∧ Unwound cpu pushes pops final ∧
        final.regs.get 5 = 0x1234 ∧ final.regs.get 6 = 7 := by
  intro r5 r6 pushes pops cpu
  have hplaced : cpu.bus.Placed cpu.regs.pc (pushPopCode pushes pops) := by
    decide +kernel
  have hapart : ∀ addr, Within addr cpu.regs.sp 4 → ¬ Within addr cpu.regs.pc 10 := by
    intro addr hin
    obtain ⟨i, hi, rfl⟩ := within_iff_exists.mp hin
    revert i
    decide +kernel
  obtain ⟨final, hafter, hunwound, hpopped⟩ :=
    @pushes_then_pops cpu pushes pops rfl hplaced hapart
  refine ⟨hplaced, hapart, final, hafter, hunwound, ?_, ?_⟩
  · exact (hpopped 0 r5 (.immediate 0x1234 0) rfl rfl).2 (by decide)
  · exact (hpopped 1 r6 (.register r5) rfl rfl).2 (by decide)

end Cpu

end WordMachine
