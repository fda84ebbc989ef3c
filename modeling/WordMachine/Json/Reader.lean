import WordMachine.Json

/-!
# Reading JSON

`Json.parse?` reads one value from a text that holds nothing else but blanks.
Where an object repeats a key the last value counts.  A lone half of a
surrogate pair and an unescaped control character in a string are refused.

The readers work on lists of characters and return what they have left over.
Those that call each other count down, once for each call; since every second
call consumes a character, twice the length of the text is enough.
-/

namespace WordMachine.Json

def isBlank (c : Char) : Bool :=
  c == ' ' || c == '\t' || c == '\n' || c == '\r'

def skipBlanks (text : List Char) : List Char := text.dropWhile isBlank

def isDigit (c : Char) : Bool := '0' ≤ c && c ≤ '9'

def hexDigit? (c : Char) : Option Nat :=
  if '0' ≤ c ∧ c ≤ '9' then some (c.toNat - 48)
  else if 'a' ≤ c ∧ c ≤ 'f' then some (c.toNat - 87)
  else if 'A' ≤ c ∧ c ≤ 'F' then some (c.toNat - 55)
  else none

def hexUnit? (a b c d : Char) : Option Nat := do
  let a ← hexDigit? a
  let b ← hexDigit? b
  let c ← hexDigit? c
  let d ← hexDigit? d
  return ((a * 16 + b) * 16 + c) * 16 + d

def shortEscape? : Char → Option Char
  | '"' => some '"'
  | '\\' => some '\\'
  | '/' => some '/'
  | 'b' => some '\x08'
  | 'f' => some '\x0c'
  | 'n' => some '\n'
  | 'r' => some '\r'
  | 't' => some '\t'
  | _ => none

/-- The character of two UTF-16 units, if they are a surrogate pair. -/
def ofSurrogates? (high low : Nat) : Option Char :=
  if 0xD800 ≤ high ∧ high ≤ 0xDBFF ∧ 0xDC00 ≤ low ∧ low ≤ 0xDFFF then
    some (Char.ofNat (0x10000 + (high - 0xD800) * 0x400 + (low - 0xDC00)))
  else none

/-- The rest of a string whose opening mark and characters `seen`, in reverse,
have been read. -/
def readString (seen : List Char) : List Char → Option (String × List Char)
  | [] => none
  | '"' :: rest => some (String.ofList seen.reverse, rest)
  | '\\' :: 'u' :: a :: b :: c :: d :: rest =>
    match hexUnit? a b c d with
    | none => none
    | some unit =>
      if unit < 0xD800 ∨ 0xDFFF < unit then readString (Char.ofNat unit :: seen) rest
      else
        match rest with
        | '\\' :: 'u' :: a :: b :: c :: d :: rest =>
          match (hexUnit? a b c d).bind (ofSurrogates? unit) with
          | some char => readString (char :: seen) rest
          | none => none
        | _ => none
  | '\\' :: c :: rest =>
    match shortEscape? c with
    | some char => readString (char :: seen) rest
    | none => none
  | c :: rest => if c.toNat < 32 then none else readString (c :: seen) rest

def readDigits (mark text : List Char) : Option (List Char × List Char) :=
  match text.span isDigit with
  | ([], _) => none
  | (digits, rest) => some (mark ++ digits, rest)

def readFraction : List Char → Option (List Char × List Char)
  | '.' :: rest => readDigits ['.'] rest
  | text => some ([], text)

def readExponent : List Char → Option (List Char × List Char)
  | 'e' :: rest => signed 'e' rest
  | 'E' :: rest => signed 'E' rest
  | text => some ([], text)
where
  signed (mark : Char) : List Char → Option (List Char × List Char)
    | '+' :: rest => readDigits [mark, '+'] rest
    | '-' :: rest => readDigits [mark, '-'] rest
    | text => readDigits [mark] text

def readUnsigned (negative : Bool) (text : List Char) : Option (Json × List Char) := do
  let (digits, rest) ← readDigits [] text
  if digits.length > 1 && digits.head? == some '0' then none
  let (fraction, rest) ← readFraction rest
  let (exponent, rest) ← readExponent rest
  let value := Nat.ofDigitChars 10 digits 0
  if fraction.isEmpty && exponent.isEmpty && !(negative && value == 0) then
    return (.int (if negative then -value else value), rest)
  else
    let sign := if negative then ['-'] else []
    return (.real (String.ofList (sign ++ digits ++ fraction ++ exponent)), rest)

def readNumber : List Char → Option (Json × List Char)
  | '-' :: rest => readUnsigned true rest
  | text => readUnsigned false text

mutual

def readValue : (calls : Nat) → List Char → Option (Json × List Char)
  | 0, _ => none
  | calls + 1, text =>
    match skipBlanks text with
    | 'n' :: 'u' :: 'l' :: 'l' :: rest => some (.null, rest)
    | 't' :: 'r' :: 'u' :: 'e' :: rest => some (.bool true, rest)
    | 'f' :: 'a' :: 'l' :: 's' :: 'e' :: rest => some (.bool false, rest)
    | '"' :: rest => (readString [] rest).map fun (text, rest) => (.str text, rest)
    | '[' :: rest =>
      match skipBlanks rest with
      | ']' :: rest => some (.arr [], rest)
      | rest => readItems calls [] rest
    | '\x7b' :: rest =>
      match skipBlanks rest with
      | '\x7d' :: rest => some (.obj [], rest)
      | rest => readMembers calls [] rest
    | text => readNumber text

/-- The rest of an array whose items `seen`, in reverse, have been read. -/
def readItems : (calls : Nat) → (seen : List Json) → List Char → Option (Json × List Char)
  | 0, _, _ => none
  | calls + 1, seen, text =>
    match readValue calls text with
    | none => none
    | some (item, rest) =>
      match skipBlanks rest with
      | ',' :: rest => readItems calls (item :: seen) rest
      | ']' :: rest => some (.arr (item :: seen).reverse, rest)
      | _ => none

def readMembers : (calls : Nat) → (seen : List (String × Json)) → List Char →
    Option (Json × List Char)
  | 0, _, _ => none
  | calls + 1, seen, text =>
    match skipBlanks text with
    | '"' :: rest =>
      match readString [] rest with
      | none => none
      | some (key, rest) =>
        match skipBlanks rest with
        | ':' :: rest =>
          match readValue calls rest with
          | none => none
          | some (value, rest) =>
            match skipBlanks rest with
            | ',' :: rest => readMembers calls (insertMember seen key value) rest
            | '\x7d' :: rest => some (.obj (insertMember seen key value), rest)
            | _ => none
        | _ => none
    | _ => none

end

def parse? (text : String) : Option Json :=
  let text := text.toList
  match readValue (2 * text.length + 2) text with
  | some (value, rest) => if (skipBlanks rest).isEmpty then some value else none
  | none => none

end WordMachine.Json
