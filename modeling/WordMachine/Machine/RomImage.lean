import WordMachine.Journal

/-!
# ROM images

A ROM image is what the machine maps of a raw file: its first 32768 bytes.
Loading a file fails when it cannot be read or is empty, and leaves a warning
when it is longer than what is mapped.
-/

namespace WordMachine

inductive FileError where
  | notFound
  | permissionDenied
  | notADirectory
  | isADirectory
  | nameTooLong
  | other (text : String)
deriving DecidableEq, Repr, Inhabited

def FileError.message : FileError → String
  | notFound => "No such file or directory (os error 2)"
  | permissionDenied => "Permission denied (os error 13)"
  | notADirectory => "Not a directory (os error 20)"
  | isADirectory => "Is a directory (os error 21)"
  | nameTooLong => "File name too long (os error 36)"
  | other text => text

structure RomImage where
  bytes : List Byte
  /-- How many bytes of the file lie beyond the image. -/
  truncated : Nat
deriving DecidableEq, Repr, Inhabited

namespace RomImage

/-- The address of the first byte of an image, and the entry point of its program. -/
def base : Address := 3

def size : Nat := 32768

def ramBase : Address := 0x8003

def ofBytes (data : List Byte) : RomImage where
  bytes := data.take size
  truncated := data.length - size

def length (rom : RomImage) : Nat := rom.bytes.length

def isEmpty (rom : RomImage) : Bool := rom.bytes.isEmpty

end RomImage

inductive RomError where
  | unreadable (path : String) (cause : FileError)
  | empty (path : String)
deriving DecidableEq, Repr, Inhabited

def RomError.message : RomError → String
  | unreadable path cause => "error opening '" ++ path ++ "': " ++ cause.message
  | empty path => "ROM '" ++ path ++ "' is empty"

namespace RomImage

def load (path : String) (content : Except FileError (List Byte)) : Except RomError RomImage :=
  match content with
  | .error cause => .error (.unreadable path cause)
  | .ok [] => .error (.empty path)
  | .ok data => .ok (ofBytes data)

def loadLines (rom : RomImage) (path : String) : List JournalLine :=
  if rom.truncated = 0 then []
  else [{
    severity := .warn
    message :=
      "ROM '" ++ path ++ "' is " ++ toString (rom.length + rom.truncated) ++
        " bytes; only the first " ++ toString size ++ " are mapped" }]

end RomImage

end WordMachine
