import WordMachine.Cpu

/-!
# The journal

A journal is a list of lines, each with a severity.  A reader of the journal
chooses how much of it to see: a line is visible at a threshold that is at
least as verbose as the severity of the line.
-/

namespace WordMachine

/-- Severities, the gravest first. -/
inductive Severity where
  | error
  | warn
  | info
  | debug
  | trace
deriving DecidableEq, Repr, Inhabited

namespace Severity

def name : Severity → String
  | error => "ERROR"
  | warn => "WARN"
  | info => "INFO"
  | debug => "DEBUG"
  | trace => "TRACE"

/-- The name at the right end of five columns. -/
def paddedName (severity : Severity) : String :=
  let name := severity.name
  String.ofList (List.replicate (5 - name.length) ' ') ++ name

def verbosity : Severity → Nat
  | error => 1
  | warn => 2
  | info => 3
  | debug => 4
  | trace => 5

end Severity

structure JournalLine where
  severity : Severity
  message : String
deriving DecidableEq, Repr, Inhabited

namespace JournalLine

def text (line : JournalLine) : String :=
  line.severity.name ++ " " ++ line.message

/-- The control characters that can steer a terminal are shown by their
number.  Tabs and line breaks are not among them. -/
def displayed (c : Char) : List Char :=
  let digits := [Hexadecimal.lowerDigit (c.toNat / 16), Hexadecimal.lowerDigit (c.toNat % 16)]
  if ['\x07', '\x08', '\x0c', '\x1b', '\x7f'].contains c then '\\' :: 'x' :: digits
  else if 0x80 ≤ c.toNat ∧ c.toNat ≤ 0x9F then ['\\', 'u', '\x7b'] ++ digits ++ ['\x7d']
  else [c]

def alignedText (line : JournalLine) : String :=
  line.severity.paddedName ++ " " ++ String.ofList (line.message.toList.flatMap displayed)

/-- Without a threshold no line is visible. -/
def visibleAt (line : JournalLine) : Option Severity → Bool
  | none => false
  | some threshold => line.severity.verbosity ≤ threshold.verbosity

def ofInstruction (pc : Address) (instr : Instruction) : JournalLine where
  severity := .trace
  message :=
    pc.hex ++ ": " ++ instr.bytes.1.hex ++ " " ++ instr.bytes.2.hex ++ " " ++
      instr.opcode.mnemonic

end JournalLine

/-- The lines of an event, for a system that writes `accessLines` for an access. -/
def CpuEvent.lines (accessLines : Access → List JournalLine) : CpuEvent → List JournalLine
  | access made => accessLines made
  | decoded pc instr => [.ofInstruction pc instr]

end WordMachine
