import WordMachine.Word

/-!
# Hexadecimal text of fixed width

Registers, addresses and bytes are shown in upper-case hexadecimal, padded
with zeros to the width of the quantity.  `ofDigits?` reads such digits back
in base sixteen.
-/

namespace WordMachine

namespace Hexadecimal

def digit (value : Nat) : Char :=
  if value < 10 then Char.ofNat (48 + value) else Char.ofNat (55 + value)

def lowerDigit (value : Nat) : Char :=
  if value < 10 then Char.ofNat (48 + value) else Char.ofNat (87 + value)

/-- The value of a digit, in upper case only. -/
def digitValue? (c : Char) : Option Nat :=
  if '0' ≤ c ∧ c ≤ '9' then some (c.toNat - 48)
  else if 'A' ≤ c ∧ c ≤ 'F' then some (c.toNat - 55)
  else none

/-- Exactly `width` digits, the most significant first. -/
def digits : (width : Nat) → (value : Nat) → List Char
  | 0, _ => []
  | width + 1, value => digits width (value / 16) ++ [digit (value % 16)]

def ofDigits? (text : List Char) : Option Nat :=
  text.foldlM (fun value c => (digitValue? c).map (16 * value + ·)) 0

end Hexadecimal

def Byte.hex (byte : Byte) : String :=
  String.ofList (Hexadecimal.digits 2 byte.toNat)

def Word.hex (word : Word) : String :=
  String.ofList (Hexadecimal.digits 4 word.toNat)

/-- An address in a message, such as `0x0003`. -/
def Word.hexLiteral (word : Word) : String :=
  "0x" ++ Word.hex word

end WordMachine
