import WordMachine.Hexadecimal

/-!
# The register file

Sixteen word registers.  Four of them have a fixed role: `r1` addresses the
byte loads and stores, `r2` holds the result of the last comparison (zero
stands for true), `r13` is the stack pointer and `r15` the program counter.
The other registers, `r0` as accumulator and `r12` as stack base included, are
special by convention only.

`Registers.dump` is the one-line text of a register file.
-/

namespace WordMachine

abbrev Register := Fin 16

namespace Register

/-- An instruction field names a register by its low nibble. -/
def ofField (field : Byte) : Register := Fin.ofNat 16 field.toNat

def index : Register := 1

def condition : Register := 2

def stackPointer : Register := 13

def programCounter : Register := 15

end Register

structure Registers where
  cells : Vector Word 16
deriving DecidableEq, Repr

namespace Registers

def zero : Registers := ⟨Vector.replicate 16 0⟩

instance : Inhabited Registers := ⟨zero⟩

def get (regs : Registers) (r : Register) : Word := regs.cells[r]

def set (regs : Registers) (r : Register) (value : Word) : Registers :=
  ⟨regs.cells.set r value⟩

@[ext] theorem ext {regs regs' : Registers} (h : ∀ r, regs.get r = regs'.get r) :
    regs = regs' := by
  cases regs with
  | mk cells =>
    cases regs' with
    | mk cells' =>
      congr
      apply Vector.ext
      intro i hi
      exact h ⟨i, hi⟩

theorem get_set (regs : Registers) (r q : Register) (value : Word) :
    (regs.set r value).get q = if r = q then value else regs.get q := by
  simp only [get, set, Fin.getElem_fin, Vector.getElem_set, Fin.val_inj]

@[simp] theorem get_set_self (regs : Registers) (r : Register) (value : Word) :
    (regs.set r value).get r = value := by
  simp [get_set]

@[simp] theorem get_zero (r : Register) : zero.get r = 0 := by
  simp [get, zero]

/-- Both registers are read before either is written. -/
def swap (regs : Registers) (r q : Register) : Registers :=
  (regs.set r (regs.get q)).set q (regs.get r)

def toList (regs : Registers) : List Word := regs.cells.toList

def ofList? (values : List Word) : Option Registers :=
  if h : values.length = 16 then some ⟨⟨values.toArray, by simpa using h⟩⟩ else none

def pc (regs : Registers) : Address := regs.get .programCounter

def setPc (regs : Registers) (addr : Address) : Registers := regs.set .programCounter addr

def advancePc (regs : Registers) (count : Word) : Registers := regs.setPc (regs.pc + count)

def sp (regs : Registers) : Address := regs.get .stackPointer

def setSp (regs : Registers) (addr : Address) : Registers := regs.set .stackPointer addr

def index (regs : Registers) : Address := regs.get .index

def condition (regs : Registers) : Word := regs.get .condition

/-- Zero in the condition register lets a conditional jump go ahead. -/
def conditionTaken (regs : Registers) : Bool := regs.condition == 0

def setCondition (regs : Registers) (taken : Bool) : Registers :=
  regs.set .condition (if taken then 0 else 1)

def startingAt (entry : Address) : Registers := zero.setPc entry

/-- One field of the dump, such as `r15=00FF`. -/
def dumpField (regs : Registers) (r : Register) : List Char :=
  'r' :: (Nat.toDigits 10 r.val ++ '=' :: Hexadecimal.digits 4 (regs.get r).toNat)

def dump (regs : Registers) : String :=
  String.ofList (List.intercalate [' '] (List.ofFn regs.dumpField))

end Registers

end WordMachine
