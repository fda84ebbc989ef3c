import Mathlib.Data.List.DropRight
import Mathlib.Data.List.TakeDrop
import Mathlib.Tactic.SplitIfs
import WordMachine.Json.Printer
import WordMachine.Json.Reader

/-!
# Reading blanks, strings and numbers

The reader passes over the line breaks of the pretty form.  It takes back every escape of a
string, up to the closing mark, and the decimal digits of an integer.  A number goes on as long
as there are digits, so the text behind it must be `Apart` from it.
-/

namespace WordMachine.Json

/-! ## Blanks -/

def lineChars (level : Nat) : List Char := '\n' :: List.replicate (2 * level) ' '

theorem toList_newLine (level : Nat) : (newLine level).toList = lineChars level := by
  rw [newLine, String.toList_ofList, lineChars]

@[simp] theorem skipBlanks_line (level : Nat) (text : List Char) :
    skipBlanks (lineChars level ++ text) = skipBlanks text := by
  have hblank : ∀ c ∈ lineChars level, isBlank c = true := by
    intro c hc
    rw [lineChars, List.mem_cons, List.mem_replicate] at hc
    rcases hc with rfl | ⟨-, rfl⟩ <;> rfl
  rw [skipBlanks, List.dropWhile_append_of_pos hblank, skipBlanks]

theorem skipBlanks_cons {c : Char} (hc : isBlank c = false) (text : List Char) :
    skipBlanks (c :: text) = c :: text := by
  simp [skipBlanks, hc]

@[simp] theorem skipBlanks_skipBlanks (text : List Char) :
    skipBlanks (skipBlanks text) = skipBlanks text :=
  List.dropWhile_idempotent isBlank text

/-! ## Strings -/

theorem hexDigit?_lowerDigit : ∀ n < 16, hexDigit? (Hexadecimal.lowerDigit n) = some n := by
  decide

theorem readString_escape (seen : List Char) (c : Char) (rest : List Char) :
    readString seen (escape c ++ rest) = readString (c :: seen) rest := by
  unfold escape
  split_ifs with hquote hbackslash hback hform hline hreturn htab hcontrol
  · subst hquote
    simp [readString, shortEscape?]
  · subst hbackslash
    simp [readString, shortEscape?]
  · subst hback
    simp [readString, shortEscape?]
  · subst hform
    simp [readString, shortEscape?]
  · subst hline
    simp [readString, shortEscape?]
  · subst hreturn
    simp [readString, shortEscape?]
  · subst htab
    simp [readString, shortEscape?]
  · have hhigh := hexDigit?_lowerDigit (c.toNat / 16) (by omega)
    have hlow := hexDigit?_lowerDigit (c.toNat % 16) (by omega)
    have hunit : hexUnit? '0' '0' (Hexadecimal.lowerDigit (c.toNat / 16))
        (Hexadecimal.lowerDigit (c.toNat % 16)) = some c.toNat := by
      have hzero : hexDigit? '0' = some 0 := by decide
      simp [hexUnit?, hhigh, hlow, hzero]
      omega
    have hbelow : c.toNat < 0xD800 := by omega
    simp [readString, hunit, hbelow]
  · simp [readString, hbackslash, hcontrol]

theorem readString_flatMap_escape (seen text rest : List Char) :
    readString seen (text.flatMap escape ++ '"' :: rest) =
      some (String.ofList (seen.reverse ++ text), rest) := by
  induction text generalizing seen with
  | nil => simp [readString]
  | cons c text ih =>
      rw [List.flatMap_cons, List.append_assoc, readString_escape, ih]
      simp

theorem toList_quoted (text : String) :
    (quoted text).toList = '"' :: text.toList.flatMap escape ++ ['"'] := by
  rw [quoted, String.toList_ofList]

theorem readString_quoted (text : String) (rest : List Char) :
    readString [] (text.toList.flatMap escape ++ '"' :: rest) = some (text, rest) := by
  rw [readString_flatMap_escape]
  simp

/-! ## Numbers -/

/-- No number goes on with the text. -/
def Apart (text : List Char) : Prop :=
  ∀ c ∈ text.head?, isDigit c = false ∧ c ≠ '.' ∧ c ≠ 'e' ∧ c ≠ 'E'

theorem isDigit_of_mem_toDigits {n : Nat} {c : Char} (hc : c ∈ Nat.toDigits 10 n) :
    isDigit c = true := by
  have hdigit : c.isDigit = true := Nat.isDigit_of_mem_toDigits (by decide) (by decide) hc
  simpa [isDigit, Char.isDigit, Char.le_def] using hdigit

theorem span_toDigits {n : Nat} {rest : List Char} (hrest : Apart rest) :
    (Nat.toDigits 10 n ++ rest).span isDigit = (Nat.toDigits 10 n, rest) := by
  have hdigits : ∀ c ∈ Nat.toDigits 10 n, isDigit c = true := fun c hc =>
    isDigit_of_mem_toDigits hc
  rw [List.span_eq_takeWhile_dropWhile, List.takeWhile_append_of_pos hdigits,
    List.dropWhile_append_of_pos hdigits]
  cases rest with
  | nil => simp
  | cons c rest =>
      have hc : isDigit c = false := (hrest c rfl).1
      simp [hc]

theorem head?_toDigits {n : Nat} (hn : 0 < n) : (Nat.toDigits 10 n).head? ≠ some '0' := by
  induction n using Nat.strongRecOn with
  | ind n ih =>
      by_cases hlt : n < 10
      · have hdigit : ∀ d < 10, 0 < d → d.digitChar ≠ '0' := by decide
        rw [Nat.toDigits_of_lt_base hlt, List.head?_cons]
        simpa using hdigit n hlt hn
      · have hhigh := ih (n / 10) (by omega) (by omega)
        rw [Nat.toDigits_of_base_le (by decide) (by omega)]
        cases hdigits : Nat.toDigits 10 (n / 10) with
        | nil => exact absurd hdigits Nat.toDigits_ne_nil
        | cons c rest =>
            rw [hdigits] at hhigh
            exact hhigh

theorem readFraction_of_apart {rest : List Char} (hrest : Apart rest) :
    readFraction rest = some ([], rest) := by
  cases rest with
  | nil => rfl
  | cons c rest =>
      obtain ⟨-, hpoint, -, -⟩ := hrest c rfl
      simp [readFraction, hpoint]

theorem readExponent_of_apart {rest : List Char} (hrest : Apart rest) :
    readExponent rest = some ([], rest) := by
  cases rest with
  | nil => rfl
  | cons c rest =>
      obtain ⟨-, -, hlower, hupper⟩ := hrest c rfl
      simp [readExponent, hlower, hupper]

theorem readUnsigned_toDigits
    (negative : Bool) (n : Nat) {rest : List Char} (hrest : Apart rest)
    (hsign : negative = true → n ≠ 0) :
    readUnsigned negative (Nat.toDigits 10 n ++ rest) =
      some (.int (if negative then -n else n), rest) := by
  have hdigits : readDigits [] (Nat.toDigits 10 n ++ rest) = some (Nat.toDigits 10 n, rest) := by
    rw [readDigits, span_toDigits hrest]
    simp
  have hleading : ¬ ((Nat.toDigits 10 n).length > 1 ∧ (Nat.toDigits 10 n).head? = some '0') := by
    rintro ⟨hlength, hhead⟩
    cases n with
    | zero => exact absurd hlength (by decide)
    | succ n => exact head?_toDigits n.succ_pos hhead
  have hfraction := readFraction_of_apart hrest
  have hexponent := readExponent_of_apart hrest
  simpa [readUnsigned, hdigits, hleading, hfraction, hexponent] using hsign

theorem exists_toDigits (n : Nat) :
    ∃ c text, Nat.toDigits 10 n = c :: text ∧ isDigit c = true := by
  cases hdigits : Nat.toDigits 10 n with
  | nil => exact absurd hdigits Nat.toDigits_ne_nil
  | cons c text =>
      refine ⟨c, text, rfl, isDigit_of_mem_toDigits (n := n) ?_⟩
      simp [hdigits]

/-- An integer is written with a digit or a minus sign in front. -/
theorem exists_toList_toString (value : Int) :
    ∃ c text, (toString value).toList = c :: text ∧ (isDigit c = true ∨ c = '-') := by
  cases value with
  | ofNat n =>
      obtain ⟨c, text, hdigits, hc⟩ := exists_toDigits n
      refine ⟨c, text, ?_, .inl hc⟩
      rw [Int.toString_eq_repr, Int.repr, Nat.toList_repr, hdigits]
  | negSucc n =>
      refine ⟨'-', Nat.toDigits 10 (n + 1), ?_, .inr rfl⟩
      simp [Int.toString_eq_repr, Int.repr, Nat.toList_repr]

theorem readNumber_toString (value : Int) {rest : List Char} (hrest : Apart rest) :
    readNumber ((toString value).toList ++ rest) = some (.int value, rest) := by
  rw [Int.toString_eq_repr]
  cases value with
  | ofNat n =>
      have hread := readUnsigned_toDigits false n hrest (by simp)
      obtain ⟨c, text, hdigits, hc⟩ := exists_toDigits n
      have hsign : c ≠ '-' := by
        rintro rfl
        contradiction
      rw [Int.repr, Nat.toList_repr]
      rw [hdigits, List.cons_append] at hread ⊢
      simpa [readNumber, hsign] using hread
  | negSucc n =>
      have hread := readUnsigned_toDigits true (n + 1) hrest (by simp)
      simpa [Int.repr, Nat.toList_repr, readNumber, Int.negSucc_eq] using hread

theorem ne_of_number
    {c d : Char} (hc : isDigit c = true ∨ c = '-') (hd : ¬ (isDigit d = true ∨ d = '-')) :
    c ≠ d := by
  rintro rfl
  exact hd hc

theorem isBlank_of_number {c : Char} (hc : isDigit c = true ∨ c = '-') : isBlank c = false := by
  simp +decide [isBlank, ne_of_number hc]

theorem readValue_of_number
    {c : Char} (hc : isDigit c = true ∨ c = '-') (calls : Nat) (text : List Char) :
    readValue (calls + 1) (c :: text) = readNumber (c :: text) := by
  rw [readValue, skipBlanks_cons (isBlank_of_number hc)]
  simp +decide [ne_of_number hc]

end WordMachine.Json
