import Mathlib.Data.List.FinRange
import WordMachine.Proofs.Hexadecimal
import WordMachine.Proofs.Registers

/-!
# Reading a dump back

The dump of a register file is the only record of it that a failed invocation leaves.  It is a
faithful one: `ofDump?` reads the registers back from it.  No field contains a blank, so a dump is
cut at its blanks into the fields it was joined from (`splitOn_dump`), and of each field the part
behind the equals sign is the digits of its register.
-/

namespace WordMachine.Registers

open Hexadecimal

/-- The word that a field of a dump shows. -/
def fieldValue? (field : List Char) : Option Word :=
  (ofDigits? (field.dropWhile (· ≠ '=')).tail).map UInt16.ofNat

/-- The registers that a dump shows. -/
def ofDump? (text : String) : Option Registers := do
  let values ← (text.toList.splitOn ' ').mapM fieldValue?
  ofList? values

theorem isDigit_of_mem_index {r : Register} {c : Char} (hc : c ∈ Nat.toDigits 10 r.val) :
    c.isDigit = true :=
  Nat.isDigit_of_mem_toDigits (by decide) (by decide) hc

variable (regs : Registers)

theorem blank_not_mem_dumpField (r : Register) : ' ' ∉ regs.dumpField r := by
  intro hblank
  rw [dumpField, List.mem_cons, List.mem_append, List.mem_cons] at hblank
  rcases hblank with hletter | hindex | hequals | hdigit
  · contradiction
  · have hdecimal := isDigit_of_mem_index hindex
    contradiction
  · contradiction
  · have hupper := mem_upperDigits_of_mem_digits hdigit
    contradiction

theorem splitOn_dump : regs.dump.toList.splitOn ' ' = List.ofFn regs.dumpField := by
  rw [dump, String.toList_ofList]
  apply List.splitOn_intercalate
  · intro field hfield
    obtain ⟨r, rfl⟩ := List.mem_ofFn.mp hfield
    exact blank_not_mem_dumpField regs r
  · exact List.cons_ne_nil _ _

theorem fieldValue?_dumpField (r : Register) :
    fieldValue? (regs.dumpField r) = some (regs.get r) := by
  -- the first equals sign is the one in front of the digits
  have hahead : ∀ c ∈ 'r' :: Nat.toDigits 10 r.val, decide (c ≠ '=') = true := by
    intro c hc
    apply decide_eq_true
    rintro rfl
    rcases List.mem_cons.mp hc with hletter | hindex
    · contradiction
    · have hdecimal := isDigit_of_mem_index hindex
      contradiction
  have hdigits : ((regs.dumpField r).dropWhile (· ≠ '=')).tail =
      (regs.get r).hex.toList := by
    rw [dumpField, ← List.cons_append, List.dropWhile_append_of_pos hahead, Word.toList_hex]
    rfl
  rw [fieldValue?, hdigits, Word.ofDigits?_hex, Option.map_some, UInt16.ofNat_toNat]

theorem ofDump?_dump : ofDump? regs.dump = some regs := by
  have hvalue : fieldValue? ∘ regs.dumpField = fun r => pure (regs.get r) :=
    funext (fieldValue?_dumpField regs)
  have hvalues : (List.ofFn regs.dumpField).mapM fieldValue? = some regs.toList := by
    rw [List.ofFn_eq_map, List.mapM_map, hvalue, List.mapM_pure, toList_eq_ofFn,
      List.ofFn_eq_map]
    rfl
  rw [ofDump?, splitOn_dump, hvalues]
  exact ofList?_toList regs

theorem dump_eq_intercalate :
    regs.dump = " ".intercalate
      (List.ofFn fun r => "r" ++ toString r.val ++ "=" ++ (regs.get r).hex) := by
  have hfield : ∀ r : Register,
      ("r" ++ toString r.val ++ "=" ++ (regs.get r).hex).toList = regs.dumpField r := by
    intro r
    simp [dumpField, Word.toList_hex, Nat.toString_eq_repr]
  rw [← String.toList_inj, String.toList_intercalate, List.map_ofFn, dump, String.toList_ofList]
  congr 2
  exact (funext hfield).symm

/-- A dump has sixteen fields in the order of the registers, with one blank between them.  A
field shows the name of its register and four upper-case digits, which in base sixteen are the
value of the register.  So the registers can be read back from their dump, and no others have
the same one. -/
theorem dump_determines :
    regs.dump = " ".intercalate
      (List.ofFn fun r => "r" ++ toString r.val ++ "=" ++ (regs.get r).hex) ∧
    (∀ r,
      (regs.get r).hex.length = 4 ∧
        (∀ c ∈ (regs.get r).hex.toList, c ∈ "0123456789ABCDEF".toList) ∧
        ofDigits? (regs.get r).hex.toList = some (regs.get r).toNat) ∧
    ofDump? regs.dump = some regs ∧
    ∀ regs' : Registers, regs'.dump = regs.dump ↔ regs' = regs := by
  refine ⟨dump_eq_intercalate regs, ?_, ofDump?_dump regs, ?_⟩
  · intro r
    refine ⟨Word.length_hex _, ?_, Word.ofDigits?_hex _⟩
    intro c hc
    rw [Word.toList_hex] at hc
    exact mem_upperDigits_of_mem_digits hc
  · intro regs'
    constructor
    · intro hsame
      have hread := ofDump?_dump regs'
      rw [hsame, ofDump?_dump] at hread
      exact (Option.some.inj hread).symm
    · rintro rfl
      rfl

end WordMachine.Registers
