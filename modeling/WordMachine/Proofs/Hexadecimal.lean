import Mathlib.Algebra.Group.Nat.Defs
import WordMachine.Hexadecimal

/-!
# Reading hexadecimal text back

The digits of a value read back as the value, if the width has room for it; of a larger value
the leading digits are missing.  Writing sets off the last digit and reading comes to it last, so
one more digit at the end is the step of both (`ofDigits?_append_digit`).
-/

namespace WordMachine

namespace Hexadecimal

def upperDigits : List Char := "0123456789ABCDEF".toList

theorem digit_mem_upperDigits : ∀ value < 16, digit value ∈ upperDigits := by decide

theorem digitValue?_digit : ∀ value < 16, digitValue? (digit value) = some value := by decide

@[simp] theorem length_digits (width value : Nat) : (digits width value).length = width := by
  induction width generalizing value with
  | zero => rfl
  | succ width ih => rw [digits, List.length_append, ih, List.length_singleton]

theorem mem_upperDigits_of_mem_digits
    {width value : Nat} {c : Char} (hc : c ∈ digits width value) : c ∈ upperDigits := by
  induction width generalizing value with
  | zero => contradiction
  | succ width ih =>
      rw [digits, List.mem_append, List.mem_singleton] at hc
      rcases hc with hleading | rfl
      · exact ih hleading
      · exact digit_mem_upperDigits _ (Nat.mod_lt _ (by decide))

theorem ofDigits?_append_digit (text : List Char) {value : Nat} (hvalue : value < 16) :
    ofDigits? (text ++ [digit value]) = (ofDigits? text).map (16 * · + value) := by
  rw [ofDigits?, List.foldlM_append, ← ofDigits?]
  cases ofDigits? text with
  | none => rfl
  | some leading => simp [digitValue?_digit value hvalue]

theorem ofDigits?_digits (width value : Nat) :
    ofDigits? (digits width value) = some (value % 16 ^ width) := by
  induction width generalizing value with
  | zero => simp [digits, ofDigits?, Nat.mod_one]
  | succ width ih =>
      have hlast : value % 16 < 16 := Nat.mod_lt _ (by decide)
      rw [digits, ofDigits?_append_digit _ hlast, ih, Option.map_some, Nat.pow_succ',
        Nat.mod_mul, Nat.add_comm]

end Hexadecimal

namespace Word

open Hexadecimal

theorem toList_hex (word : Word) : word.hex.toList = digits 4 word.toNat :=
  String.toList_ofList

theorem length_hex (word : Word) : word.hex.length = 4 := by
  rw [← String.length_toList, toList_hex, length_digits]

theorem ofDigits?_hex (word : Word) : ofDigits? word.hex.toList = some word.toNat := by
  have hroom : word.toNat < 16 ^ 4 := word.toNat_lt
  rw [toList_hex, ofDigits?_digits, Nat.mod_eq_of_lt hroom]

end Word

end WordMachine
