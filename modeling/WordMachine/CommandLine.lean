import WordMachine.CommandLine.Arguments
import WordMachine.Json.Instances
import WordMachine.Json.Printer

/-!
# The command line

The program runs a ROM image on the machine, with its own standard input and
output behind the console.  What the ROM emits goes to the output as it
is; a summary in JSON may follow a run that ended well.  Journal lines and
errors go to the error output.

The journal is shown from warnings on, or all of it when debugging.  A setting
of the environment overrides that choice, and only that: it neither adds the
traced accesses nor removes anything from the output.

`run` is a whole invocation as a function of its arguments and its environment.
-/

namespace WordMachine.CommandLine

def version : String := "nec16-emu 0.1.0\n"

def usage : String := "Usage: nec16-emu [OPTIONS] <ROMFILE> [INSTRUCTION_LIMIT]"

def help : String :=
  "Run a ROM image on the NEC16 TIOS reference system\n\n" ++ usage ++ "\n" ++
  "\nArguments:\n" ++
  "  <ROMFILE>            Path to the raw ROM image (mapped at address 3)\n" ++
  "  [INSTRUCTION_LIMIT]  Stop after this many instructions\n" ++
  "\nOptions:\n" ++
  "  -d, --debug    Trace every bus access and executed instruction\n" ++
  "      --json     Print the final run summary as JSON\n" ++
  "  -h, --help     Print help\n" ++
  "  -V, --version  Print version\n"

/-- The threshold that a setting selects.  Only a setting that is one bare level is read as
the logging library reads it: the name of a severity in any case, its number, `off`, or
nothing at all.  That library also knows directives with targets, spans and fields, and
falls back to the threshold of the options if it cannot read a setting; none of this is
modelled, and every other setting is taken to show nothing. -/
def thresholdOfSetting (setting : String) : Option Severity :=
  match setting.map Char.toLower with
  | "error" | "1" | "" => some .error
  | "warn" | "2" => some .warn
  | "info" | "3" => some .info
  | "debug" | "4" => some .debug
  | "trace" | "5" => some .trace
  | _ => none

structure Report where
  exitCode : UInt8
  /-- What goes to the error output, each text with a line break behind it. -/
  errorLines : List String
  output : List Byte
deriving DecidableEq, Repr

structure Environment where
  content : (path : String) → Except FileError (List Byte)
  input : List Byte
  journalSetting : Option String

def errorLine (message : String) : String := "[ERROR] >> " ++ message

namespace Options

def config (options : Options) : MachineConfig where
  trace := options.debug
  instructionLimit := options.instructionLimit

def threshold (options : Options) : (setting : Option String) → Option Severity
  | some setting => thresholdOfSetting setting
  | none => some (if options.debug then .trace else .warn)

def visible (options : Options) (setting : Option String) (lines : List JournalLine) :
    List String :=
  (lines.filter (·.visibleAt (options.threshold setting))).map (·.alignedText)

def machine (options : Options) (rom : RomImage) (input : List InputItem) : Machine :=
  .ofRom rom input .accepting options.config

/-- What comes behind the bytes that the ROM emitted. -/
def closing (options : Options) : Except RunError RunSummary → String
  | .ok summary => if options.json then (toJson summary).pretty ++ "\n" else ""
  | .error _ => ""

end Options

def exitCode : Except RunError RunSummary → UInt8
  | .ok _ => 0
  | .error _ => 1

def failureLines (machine : Machine) : Except RunError RunSummary → List String
  | .ok _ => []
  | .error error =>
    [errorLine error.message,
      errorLine ("after " ++ toString machine.executed.toNat ++ " instructions: " ++
        machine.cpu.regs.dump)]

def Report.ofRomError (error : RomError) : Report where
  exitCode := 1
  errorLines := [errorLine error.message]
  output := []

def Report.ofUsageError (error : UsageError) : Report where
  exitCode := 2
  errorLines := ["error: " ++ error.message, "", usage]
  output := []

def Report.ofText (text : String) : Report where
  exitCode := 0
  errorLines := []
  output := text.toUTF8.toList

/-- The report of a run of the machine, if it has ended. -/
def Options.report? (options : Options) (setting : Option String) (rom : RomImage) :
    Machine.RunResult → Option Report
  | ⟨none, _, _⟩ => none
  | ⟨some result, machine, events⟩ =>
    let journal := rom.loadLines options.romPath ++ MachineEvent.journal events.toList
    some {
      exitCode := exitCode result
      errorLines := options.visible setting journal ++ failureLines machine result
      output := machine.cpu.bus.output.emitted.toList ++ (options.closing result).toUTF8.toList }

def Options.run (rounds : Nat) (options : Options) (environment : Environment) : Option Report :=
  match RomImage.load options.romPath (environment.content options.romPath) with
  | .error error => some (.ofRomError error)
  | .ok rom =>
    let start := options.machine rom (environment.input.map .byte)
    options.report? environment.journalSetting rom (start.run rounds)

/-- A whole invocation; without a report it has not ended within `rounds` rounds. -/
def run (rounds : Nat) (arguments : List String) (environment : Environment) : Option Report :=
  match Request.ofArguments arguments with
  | .error error => some (.ofUsageError error)
  | .ok .version => some (.ofText version)
  | .ok .help => some (.ofText help)
  | .ok (.run options) => options.run rounds environment

end WordMachine.CommandLine
