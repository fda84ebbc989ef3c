import WordMachine.CommandLine

/-!
# The program

The outer layer of the command line: it reads the ROM image, takes input byte
by byte when the machine asks for it, and passes on output and journal as they
come.  What is passed on, and the rest of a report, is decided in
`WordMachine.CommandLine`.
-/

namespace WordMachine.CommandLine

def fileErrorOf : IO.Error → FileError
  | .noFileOrDirectory _ _ _ => .notFound
  | .permissionDenied _ _ _ => .permissionDenied
  | .inappropriateType _ code _ =>
    if code == 21 || code == 4294967275 then .isADirectory else .notADirectory
  | .invalidArgument (some name) code details =>
    if code == 36 || code == 4294967260 then .nameTooLong
    else .other (toString (IO.Error.invalidArgument (some name) code details))
  | error => .other (toString error)

def readContent (path : String) : IO (Except FileError (List Byte)) := do
  try
    let data ← IO.FS.readBinFile path
    return .ok data.toList
  catch error =>
    return .error (fileErrorOf error)

def writeBytes (bytes : List Byte) : IO Unit := do
  unless bytes.isEmpty do
    let stream ← IO.getStdout
    stream.write bytes.toByteArray
    stream.flush

def writeErrorLines (lines : List String) : IO Unit := do
  for line in lines do
    IO.eprintln line

def perform (report : Report) : IO UInt32 := do
  writeBytes report.output
  writeErrorLines report.errorLines
  return report.exitCode.toUInt32

/-- `Machine.turnFed` with the standard input as what is waiting. -/
partial def takeTurn (machine : Machine) : IO Machine.Turn := do
  let turn := machine.turn
  unless turn.lacksInput do
    return turn
  let bytes ← (← IO.getStdin).read 1
  if bytes.isEmpty then
    return turn
  takeTurn (machine.feed (bytes.toList.map .byte))

/-- `Machine.runFed`, each of its rounds passed on as soon as it has been made. -/
partial def runToEnd (options : Options) (setting : Option String) (machine : Machine) :
    IO UInt32 := do
  let sent := machine.cpu.bus.output.emitted.size
  let ⟨result, machine, events⟩ ← takeTurn machine
  let emitted := machine.cpu.bus.output.emitted
  writeBytes (emitted.extract sent emitted.size).toList
  writeErrorLines (options.visible setting (MachineEvent.journal events))
  match result with
  | none => runToEnd options setting machine
  | some result =>
    writeBytes (options.closing result).toUTF8.toList
    writeErrorLines (failureLines machine result)
    return (exitCode result).toUInt32

def runProgram (options : Options) : IO UInt32 := do
  let setting ← IO.getEnv "RUST_LOG"
  match RomImage.load options.romPath (← readContent options.romPath) with
  | .error error => perform (.ofRomError error)
  | .ok rom =>
    writeErrorLines (options.visible setting (rom.loadLines options.romPath))
    runToEnd options setting (options.machine rom [])

end WordMachine.CommandLine

open WordMachine.CommandLine in
def main (arguments : List String) : IO UInt32 := do
  match Request.ofArguments arguments with
  | .error error => perform (.ofUsageError error)
  | .ok .version => perform (.ofText version)
  | .ok .help => perform (.ofText help)
  | .ok (.run options) => runProgram options
