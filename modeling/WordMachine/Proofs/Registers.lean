import WordMachine.Registers

/-!
# Program counter and stack pointer

What the operations on a register file do to the two registers that the
processor moves by itself.
-/

namespace WordMachine.Registers

variable (regs : Registers)

theorem pc_set (r : Register) (value : Word) :
    (regs.set r value).pc = if r = .programCounter then value else regs.pc :=
  get_set regs r .programCounter value

theorem sp_set (r : Register) (value : Word) :
    (regs.set r value).sp = if r = .stackPointer then value else regs.sp :=
  get_set regs r .stackPointer value

theorem sp_set_of_ne {r : Register} (hne : r ≠ .stackPointer) (value : Word) :
    (regs.set r value).sp = regs.sp := by
  rw [sp_set, if_neg hne]

theorem get_set_of_ne {r q : Register} (hne : q ≠ r) (value : Word) :
    (regs.set r value).get q = regs.get q := by
  rw [get_set, if_neg hne.symm]

theorem get_setSp_of_ne {r : Register} (hne : r ≠ .stackPointer) (addr : Address) :
    (regs.setSp addr).get r = regs.get r :=
  get_set_of_ne regs hne addr

theorem get_advancePc_of_ne {r : Register} (hne : r ≠ .programCounter) (count : Word) :
    (regs.advancePc count).get r = regs.get r :=
  get_set_of_ne regs hne _

@[simp] theorem pc_setPc (addr : Address) : (regs.setPc addr).pc = addr :=
  get_set_self regs .programCounter addr

@[simp] theorem sp_setSp (addr : Address) : (regs.setSp addr).sp = addr :=
  get_set_self regs .stackPointer addr

@[simp] theorem pc_setSp (addr : Address) : (regs.setSp addr).pc = regs.pc :=
  pc_set regs .stackPointer addr

@[simp] theorem sp_setPc (addr : Address) : (regs.setPc addr).sp = regs.sp :=
  sp_set regs .programCounter addr

@[simp] theorem pc_advancePc (count : Word) :
    (regs.advancePc count).pc = regs.pc + count :=
  pc_setPc regs (regs.pc + count)

@[simp] theorem sp_advancePc (count : Word) : (regs.advancePc count).sp = regs.sp :=
  sp_setPc regs (regs.pc + count)

@[simp] theorem set_set (r : Register) (value value' : Word) :
    (regs.set r value).set r value' = regs.set r value' := by
  ext1 q
  rw [get_set, get_set, get_set]
  split <;> rfl

@[simp] theorem set_get (r : Register) : regs.set r (regs.get r) = regs := by
  ext1 q
  rw [get_set]
  split
  next heq => rw [heq]
  next => rfl

@[simp] theorem setPc_setPc (addr addr' : Address) :
    (regs.setPc addr).setPc addr' = regs.setPc addr' :=
  set_set regs .programCounter addr addr'

@[simp] theorem advancePc_setPc (addr : Address) (count : Word) :
    (regs.setPc addr).advancePc count = regs.setPc (addr + count) := by
  rw [advancePc, setPc_setPc, pc_setPc]

theorem advancePc_advancePc (count count' : Word) :
    (regs.advancePc count).advancePc count' = regs.advancePc (count + count') := by
  unfold advancePc
  rw [setPc_setPc, pc_setPc, UInt16.add_assoc]

@[simp] theorem sp_setCondition (taken : Bool) :
    (regs.setCondition taken).sp = regs.sp :=
  sp_set regs .condition _

@[simp] theorem pc_setCondition (taken : Bool) :
    (regs.setCondition taken).pc = regs.pc :=
  pc_set regs .condition _

@[simp] theorem condition_setPc (addr : Address) :
    (regs.setPc addr).condition = regs.condition :=
  get_set_of_ne regs (by decide) addr

@[simp] theorem condition_setCondition (taken : Bool) :
    (regs.setCondition taken).condition = if taken then 0 else 1 :=
  get_set_self regs .condition _

theorem get_setCondition_of_ne {r : Register} (hne : r ≠ .condition) (taken : Bool) :
    (regs.setCondition taken).get r = regs.get r :=
  get_set_of_ne regs hne _

@[simp] theorem conditionTaken_setPc (addr : Address) :
    (regs.setPc addr).conditionTaken = regs.conditionTaken := by
  rw [conditionTaken, condition_setPc, conditionTaken]

/-- A jump behind a comparison goes ahead if the comparison has succeeded. -/
@[simp] theorem conditionTaken_setCondition (taken : Bool) :
    (regs.setCondition taken).conditionTaken = taken := by
  rw [conditionTaken, condition_setCondition]
  cases taken <;> rfl

theorem get_swap (r q s : Register) :
    (regs.swap r q).get s =
      if q = s then regs.get r else if r = s then regs.get q else regs.get s := by
  rw [swap, get_set, get_set]

theorem swap_self (r : Register) : regs.swap r r = regs := by
  rw [swap, set_get, set_get]

theorem swap_comm (r q : Register) : regs.swap r q = regs.swap q r := by
  ext1 s
  rw [get_swap, get_swap]
  by_cases hq : q = s
  · subst hq
    by_cases hr : r = q
    · subst hr
      rfl
    · rw [if_pos rfl, if_neg hr, if_pos rfl]
  · by_cases hr : r = s
    · rw [if_neg hq, if_pos hr, if_pos hr]
    · rw [if_neg hq, if_neg hr, if_neg hr, if_neg hq]

theorem sp_swap_of_ne
    {r q : Register} (hr : r ≠ .stackPointer) (hq : q ≠ .stackPointer) :
    (regs.swap r q).sp = regs.sp := by
  rw [swap, sp_set_of_ne _ hq, sp_set_of_ne _ hr]

theorem toList_eq_ofFn : regs.toList = List.ofFn regs.get := by
  apply List.ext_getElem
  · rw [List.length_ofFn]
    exact regs.cells.length_toList
  · intro i _ hi
    rw [List.getElem_ofFn]
    rfl

theorem ofList?_toList : ofList? regs.toList = some regs := by
  have hlength : regs.toList.length = 16 := regs.cells.length_toList
  rw [ofList?, dif_pos hlength]
  congr

end WordMachine.Registers
