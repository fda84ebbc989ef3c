/-!
# Command line arguments

The program takes the path of a ROM image, optionally an instruction limit
behind it, and options anywhere among them.  Short options may share one
argument.  Behind an argument `--` no argument is an option any more, and an
argument that is a single hyphen never is one.

Arguments are taken from left to right, and the first one that settles the
matter wins: asking for the version or for help ends the reading, as does a
mistake.
-/

namespace WordMachine.CommandLine

structure Options where
  romPath : String
  debug : Bool
  instructionLimit : Option UInt64
  json : Bool
deriving DecidableEq, Repr

inductive Request where
  | run (options : Options)
  | version
  | help
deriving DecidableEq, Repr

inductive UsageError where
  | unknownOption (option : String)
  | repeatedOption (option : String)
  | valueForOption (option : String)
  | emptyPath
  | invalidLimit (text : String)
  | unexpectedArgument (text : String)
  | missingPath
deriving DecidableEq, Repr

def UsageError.message : UsageError → String
  | unknownOption option => "unknown option '" ++ option ++ "'"
  | repeatedOption option => "option '" ++ option ++ "' is given twice"
  | valueForOption option => "option '" ++ option ++ "' takes no value"
  | emptyPath => "the path of the ROM image is empty"
  | invalidLimit text => "invalid instruction limit '" ++ text ++ "'"
  | unexpectedArgument text => "unexpected argument '" ++ text ++ "'"
  | missingPath => "the path of the ROM image is missing"

inductive Switch where
  | debug
  | json
  | version
  | help
deriving DecidableEq, Repr

namespace Switch

def ofShort? : Char → Option Switch
  | 'd' => some debug
  | 'V' => some version
  | 'h' => some help
  | _ => none

def ofLong? : String → Option Switch
  | "debug" => some debug
  | "json" => some json
  | "version" => some version
  | "help" => some help
  | _ => none

def text : Switch → String
  | debug => "--debug"
  | json => "--json"
  | version => "--version"
  | help => "--help"

end Switch

/-- An unsigned 64-bit number in decimal, with an optional plus sign. -/
def limit? (text : String) : Option UInt64 :=
  let digits := match text.toList with
    | '+' :: rest => rest
    | digits => digits
  if digits.isEmpty || !digits.all Char.isDigit then none
  else
    let value := Nat.ofDigitChars 10 digits 0
    if value < 18446744073709551616 then some (UInt64.ofNat value) else none

structure Progress where
  romPath : Option String
  instructionLimit : Option UInt64
  debug : Bool
  json : Bool
deriving DecidableEq, Repr

namespace Progress

def start : Progress := ⟨none, none, false, false⟩

/-- Takes an argument that is no option: first the path, then the limit. -/
def positional (progress : Progress) (text : String) : Except UsageError Progress :=
  match progress.romPath, progress.instructionLimit with
  | none, _ =>
    if text.isEmpty then .error .emptyPath else .ok { progress with romPath := some text }
  | some _, none =>
    match limit? text with
    | some limit => .ok { progress with instructionLimit := some limit }
    | none => .error (.invalidLimit text)
  | some _, some _ => .error (.unexpectedArgument text)

/-- Takes an option; the result is a request if the option settles the matter. -/
def switch (progress : Progress) : Switch → Except UsageError (Progress ⊕ Request)
  | .debug =>
    if progress.debug then .error (.repeatedOption Switch.debug.text)
    else .ok (.inl { progress with debug := true })
  | .json =>
    if progress.json then .error (.repeatedOption Switch.json.text)
    else .ok (.inl { progress with json := true })
  | .version => .ok (.inr .version)
  | .help => .ok (.inr .help)

def shortSwitches (progress : Progress) : List Char → Except UsageError (Progress ⊕ Request)
  | [] => .ok (.inl progress)
  | letter :: rest =>
    match Switch.ofShort? letter with
    | none => .error (.unknownOption (String.ofList ['-', letter]))
    | some option =>
      match progress.switch option with
      | .ok (.inl progress) => progress.shortSwitches rest
      | settled => settled

def longSwitch (progress : Progress) (text : List Char) :
    Except UsageError (Progress ⊕ Request) :=
  let name := String.ofList (text.takeWhile (· != '='))
  match Switch.ofLong? name with
  | none => .error (.unknownOption ("--" ++ name))
  | some option =>
    if text.contains '=' then .error (.valueForOption option.text) else progress.switch option

def finish (progress : Progress) : Except UsageError Request :=
  match progress.romPath with
  | none => .error .missingPath
  | some romPath =>
    .ok (.run {
      romPath
      debug := progress.debug
      instructionLimit := progress.instructionLimit
      json := progress.json })

def read (progress : Progress) : (onlyPositional : Bool) → List String → Except UsageError Request
  | _, [] => progress.finish
  | true, argument :: rest => do
    let progress ← progress.positional argument
    progress.read true rest
  | false, argument :: rest => do
    let taken ←
      match argument.toList with
      | ['-', '-'] => return ← progress.read true rest
      | '-' :: '-' :: text => progress.longSwitch text
      | '-' :: letter :: letters => progress.shortSwitches (letter :: letters)
      | _ => Sum.inl <$> progress.positional argument
    match taken with
    | .inl progress => progress.read false rest
    | .inr request => return request

end Progress

def Request.ofArguments (arguments : List String) : Except UsageError Request :=
  Progress.start.read false arguments

end WordMachine.CommandLine
