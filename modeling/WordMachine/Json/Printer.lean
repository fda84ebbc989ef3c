import WordMachine.Hexadecimal
import WordMachine.Json

/-!
# Writing JSON

A value has two written forms.  The compact form has no blanks.  The pretty
form puts each item and each member on a line of its own, indented by two
blanks for each level, and a blank behind the colon of a member; empty arrays
and objects stay on one line.

In a string the quotation mark, the backslash and the control characters are
escaped, the control characters without a short escape by four digits in lower
case.
-/

namespace WordMachine.Json

def escape (c : Char) : List Char :=
  if c = '"' then ['\\', '"']
  else if c = '\\' then ['\\', '\\']
  else if c = '\x08' then ['\\', 'b']
  else if c = '\x0c' then ['\\', 'f']
  else if c = '\n' then ['\\', 'n']
  else if c = '\r' then ['\\', 'r']
  else if c = '\t' then ['\\', 't']
  else if c.toNat < 32 then
    ['\\', 'u', '0', '0', Hexadecimal.lowerDigit (c.toNat / 16),
      Hexadecimal.lowerDigit (c.toNat % 16)]
  else [c]

def quoted (text : String) : String :=
  String.ofList ('"' :: text.toList.flatMap escape ++ ['"'])

def scalar : Json → String
  | null => "null"
  | bool true => "true"
  | bool false => "false"
  | int value => toString value
  | real literal => literal
  | str text => quoted text
  | arr _ => "[]"
  | obj _ => "\x7b\x7d"

mutual

/-- The compact form of a value, behind the text that is there already. -/
def compactAfter : Json → String → String
  | arr items, out => compactItems true items (out ++ "[") ++ "]"
  | obj members, out => compactMembers true members (out ++ "\x7b") ++ "\x7d"
  | value, out => out ++ value.scalar

def compactItems (first : Bool) : List Json → String → String
  | [], out => out
  | item :: rest, out =>
    compactItems false rest (item.compactAfter (if first then out else out ++ ","))

def compactMembers (first : Bool) : List (String × Json) → String → String
  | [], out => out
  | (key, value) :: rest, out =>
    compactMembers false rest
      (value.compactAfter ((if first then out else out ++ ",") ++ quoted key ++ ":"))

end

def compact (value : Json) : String := value.compactAfter ""

def newLine (level : Nat) : String :=
  String.ofList ('\n' :: List.replicate (2 * level) ' ')

mutual

def prettyAfter (level : Nat) : Json → String → String
  | arr (item :: rest), out =>
    prettyItems (level + 1) true (item :: rest) (out ++ "[") ++ newLine level ++ "]"
  | obj (entry :: rest), out =>
    prettyMembers (level + 1) true (entry :: rest) (out ++ "\x7b") ++ newLine level ++ "\x7d"
  | value, out => out ++ value.scalar

def prettyItems (level : Nat) (first : Bool) : List Json → String → String
  | [], out => out
  | item :: rest, out =>
    prettyItems level false rest
      (item.prettyAfter level ((if first then out else out ++ ",") ++ newLine level))

def prettyMembers (level : Nat) (first : Bool) : List (String × Json) → String → String
  | [], out => out
  | (key, value) :: rest, out =>
    prettyMembers level false rest
      (value.prettyAfter level
        ((if first then out else out ++ ",") ++ newLine level ++ quoted key ++ ": "))

end

def pretty (value : Json) : String := value.prettyAfter 0 ""

end WordMachine.Json
