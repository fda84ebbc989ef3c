import Mathlib.Algebra.Group.Int.Defs
import WordMachine.Proofs.Cpu.Failures
import WordMachine.Proofs.Instruction.Results
import WordMachine.Proofs.Word

/-!
# Arithmetic on the integers

The instructions of the logic and arithmetic group put into one register what they compute
from two.  `Opcode.integerResult?` says what that is on the integers, with no mention of
words: sums, differences, products and left shifts are taken modulo 65536, quotients and
right shifts are rounded down.

`effect_of_integerResult` and `toNat_result` compare the instructions with this table, one
opcode at a time.  Since they ask the bus for nothing once they are fetched, a step with one
of them cannot fail in any other way than by a zero divisor.
-/

namespace WordMachine

/-- What an instruction computes from the integers `x` and `y` in its two registers and the
second byte of its word.  A zero divisor has no result, nor has an instruction of another
group. -/
def Opcode.integerResult? (op : Opcode) (second x y : Nat) : Option Int :=
  match op with
  | .orImmediate => some ↑(x ||| second : Nat)
  | .or => some ↑(x ||| y : Nat)
  | .and => some ↑(x &&& y : Nat)
  | .xor => some ↑(x ^^^ y : Nat)
  | .not => some (65535 - x)
  | .shiftLeft => some (x * 2 ^ y % 65536)
  | .shiftRight => some (x / 2 ^ y)
  | .add => some ((x + y) % 65536)
  | .sub => some ((x - y) % 65536)
  | .mul => some (x * y % 65536)
  | .div => if y = 0 then none else some (x / y)
  | .mod => if y = 0 then none else some (x % y)
  | .extended | .jump | .getByte | .setByte => none

namespace Instruction

open Transaction

variable {instr : Instruction} {source : Registers} {second x y : Nat} {value : Int}

theorem effect_of_integerResult (hvalue : instr.opcode.integerResult? second x y = some value)
    (bytes : List Byte) :
    instr.effect source = pure (source.set instr.a (instr.result source bytes instr.a)) := by
  cases hop : instr.opcode with
  | extended | jump | getByte | setByte =>
      rw [hop] at hvalue
      contradiction
  | _ => simp only [effect, result, hop]

theorem dividesByZero_of_integerResult
    (hvalue : instr.opcode.integerResult? second x (source.get instr.b).toNat = some value) :
    instr.dividesByZero source = false := by
  rw [← Bool.not_eq_true, dividesByZero_iff]
  rintro ⟨hop | hop, hzero⟩
  · simp [hop, hzero, Opcode.integerResult?] at hvalue
  · simp [hop, hzero, Opcode.integerResult?] at hvalue

/-- The word that the instruction computes stands for the integer of the table. -/
theorem toNat_result
    (hvalue : instr.opcode.integerResult? (instr.imm % 256).toNat (source.get instr.a).toNat
      (source.get instr.b).toNat = some value)
    (bytes : List Byte) (r : Register) :
    ((instr.result source bytes r).toNat : Int) = value := by
  cases hop : instr.opcode with
  | extended | jump | getByte | setByte =>
      rw [hop] at hvalue
      contradiction
  | div | mod =>
      simp only [hop, Opcode.integerResult?, Option.ite_none_left_eq_some, Option.some.injEq]
        at hvalue
      obtain ⟨-, rfl⟩ := hvalue
      simp [result, hop]
  | not =>
      rw [hop] at hvalue
      obtain rfl := Option.some.inj hvalue
      have hlt := (source.get instr.a).toNat_lt
      simp only [result, hop, Word.toNat_complement]
      omega
  | sub =>
      rw [hop] at hvalue
      obtain rfl := Option.some.inj hvalue
      simp only [result, hop, Word.toNat_sub_int]
  | _ =>
      rw [hop] at hvalue
      obtain rfl := Option.some.inj hvalue
      simp [result, hop, Word.toNat_shiftLeft, Word.toNat_shiftRight]

end Instruction

namespace Cpu

open Instruction

variable {σ : Type} [Bus σ] {cpu : Cpu σ} {first second : Byte} {rest : List Access}

theorem step_of_integerResult
    {instr : Instruction} {source : Registers} {value : Int}
    (hfetched : cpu.step.accesses =
      .read cpu.regs.pc first :: .read (cpu.regs.pc + 1) second :: rest)
    (hinstr : decode first second = instr)
    (hsource : cpu.regs.setPc (cpu.regs.pc + 2) = source)
    (hvalue : instr.opcode.integerResult? second.toNat (source.get instr.a).toNat
      (source.get instr.b).toNat = some value) :
    rest = [] ∧ cpu.step.result = .ok instr ∧
      ∃ word : Word, cpu.step.cpu.regs = source.set instr.a word ∧ (word.toNat : Int) = value := by
  subst hinstr hsource
  have hpc : cpu.regs.pc ≠ sentinel := by
    rw [Ne, ← accesses_eq_nil_iff, hfetched]
    exact List.cons_ne_nil _ _
  have hsilent : ∀ source bytes, ((decode first second).effect source).requests bytes = [] := by
    intro source bytes
    rw [effect_of_integerResult hvalue bytes, Transaction.requests_pure]
  obtain ⟨rfl, hanswered⟩ := step_of_silent hpc hfetched hsilent
  obtain ⟨hresult, hregs⟩ := step_of_fetched hpc hfetched hanswered
  have hdivides := Bool.eq_false_iff.mp (dividesByZero_of_integerResult hvalue)
  rw [if_neg hdivides] at hresult hregs
  rw [effect_of_integerResult hvalue [], Transaction.value_pure] at hregs
  refine ⟨rfl, hresult, _, hregs, ?_⟩
  apply toNat_result
  have himm : ((decode first second).imm % 256).toNat = second.toNat :=
    Word.toNat_ofBytes_mod _ _
  rw [himm]
  exact hvalue

/-- A fetched instruction of the logic and arithmetic group computes on the integers what the
table says, whichever registers it names: the step succeeds without another access and leaves
the registers as they were behind the fetch, with the result in its first register.  The
quotient and the remainder that two steps from the same registers leave make up the dividend
again. -/
theorem arithmetic_exact
    (hfetched : cpu.step.accesses =
      .read cpu.regs.pc first :: .read (cpu.regs.pc + 1) second :: rest) :
    let instr := decode first second
    let source := cpu.regs.setPc (cpu.regs.pc + 2)
    let x := (source.get instr.a).toNat
    let y := (source.get instr.b).toNat
    let after := cpu.step.cpu.regs
    (∀ value, instr.opcode.integerResult? second.toNat x y = some value →
      rest = [] ∧ cpu.step.result = .ok instr ∧
        ((after.get instr.a).toNat : Int) = value ∧
        ∀ r, r ≠ instr.a → after.get r = source.get r) ∧
    ∀ (other : Cpu σ) (first' second' : Byte) (rest' : List Access),
      other.regs = cpu.regs →
      other.step.accesses =
        .read cpu.regs.pc first' :: .read (cpu.regs.pc + 1) second' :: rest' →
      let instr' := decode first' second'
      instr.opcode = .div → instr'.opcode = .mod → instr'.a = instr.a → instr'.b = instr.b →
      y ≠ 0 →
        let q := (after.get instr.a).toNat
        let m := (other.step.cpu.regs.get instr.a).toNat
        x = q * y + m ∧ m < y := by
  intro instr source x y after
  have hvalues : ∀ value, instr.opcode.integerResult? second.toNat x y = some value →
      rest = [] ∧ cpu.step.result = .ok instr ∧
        ((after.get instr.a).toNat : Int) = value ∧
        ∀ r, r ≠ instr.a → after.get r = source.get r := by
    intro value hvalue
    obtain ⟨hrest, hresult, word, hregs, hword⟩ :=
      step_of_integerResult hfetched rfl rfl hvalue
    have hafter : after = source.set instr.a word := hregs
    refine ⟨hrest, hresult, ?_, ?_⟩
    · rw [hafter, Registers.get_set_self]
      exact hword
    · intro r hr
      rw [hafter, Registers.get_set_of_ne source hr]
  refine ⟨hvalues, ?_⟩
  intro other first' second' rest' hregs hfetched' instr' hdiv hmod ha hb hy q m
  have hquotient : instr.opcode.integerResult? second.toNat x y = some ↑(x / y) := by
    simp [hdiv, Opcode.integerResult?, hy]
  have hremainder : instr'.opcode.integerResult? second'.toNat (source.get instr'.a).toNat
      (source.get instr'.b).toNat = some ↑(x % y) := by
    rw [ha, hb, hmod]
    exact if_neg hy
  have hq : q = x / y := Int.ofNat_inj.mp (hvalues _ hquotient).2.2.1
  rw [← hregs] at hfetched'
  obtain ⟨-, -, word, hafter, hword⟩ :=
    step_of_integerResult hfetched' rfl (by rw [hregs]) hremainder
  have hm : m = word.toNat := by
    simp only [m]
    rw [hafter, ← ha, Registers.get_set_self]
  rw [hq, hm, Int.ofNat_inj.mp hword]
  exact ⟨(Nat.div_add_mod' x y).symm, Nat.mod_lt x (Nat.pos_of_ne_zero hy)⟩

/-- The program counter is divided, as it stands behind the word. -/
theorem arithmetic_exact_program_counter :
    let regs := (Registers.startingAt 3).set 4 2
    let divides : Cpu Memory := ⟨regs, Memory.zero.load 3 [0xEF, 0x40]⟩
    let remains : Cpu Memory := ⟨regs, Memory.zero.load 3 [0xFF, 0x40]⟩
    let q := divides.step.cpu.regs.pc.toNat
    let m := remains.step.cpu.regs.pc.toNat
    divides.step.result = .ok (decode 0xEF 0x40) ∧ (q : Int) = 2 ∧
      divides.step.cpu.regs.get 4 = 2 ∧ 5 = q * 2 + m ∧ m < 2 := by
  intro regs divides remains q m
  have hdivides : divides.step.accesses = [.read 3 0xEF, .read 4 0x40] := by decide
  have hremains : remains.step.accesses = [.read 3 0xFF, .read 4 0x40] := by decide
  obtain ⟨hvalues, hsplit⟩ := arithmetic_exact hdivides
  obtain ⟨-, hresult, hquotient, hkept⟩ := hvalues 2 (by decide)
  obtain ⟨hdividend, hremainder⟩ :=
    hsplit remains 0xFF 0x40 [] rfl hremains rfl rfl rfl rfl (by decide)
  exact ⟨hresult, hquotient, hkept 4 (by decide), hdividend, hremainder⟩

end Cpu

end WordMachine
