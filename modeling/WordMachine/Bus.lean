import WordMachine.Hexadecimal

/-!
# Buses

The processor owns no memory.  Each load, store, fetch and stack access is a
byte access on a bus, a bus may refuse any of them, and an access that is
answered may change the state behind the bus (a device that hands out
characters does).  A `Bus` instance for a type of states says how.
-/

namespace WordMachine

inductive BusError where
  /-- Nothing is mapped at the address for this kind of access. -/
  | addressInvalid (addr : Address)
  /-- A device failed in its own way. -/
  | unknown (text : String)
deriving DecidableEq, Repr, Inhabited

def BusError.message : BusError → String
  | addressInvalid addr => "address invalid: " ++ addr.hexLiteral
  | unknown text => "unknown error: " ++ text

class Bus (σ : Type) where
  read : Address → σ → Except BusError Byte × σ
  write : Address → Byte → σ → Except BusError Unit × σ

/-- One byte access together with its answer. -/
inductive Access where
  | read (addr : Address) (byte : Byte)
  | readFailed (addr : Address) (error : BusError)
  | write (addr : Address) (byte : Byte)
  | writeFailed (addr : Address) (byte : Byte) (error : BusError)
deriving DecidableEq, Repr

namespace Access

def address : Access → Address
  | read addr _ => addr
  | readFailed addr _ => addr
  | write addr _ => addr
  | writeFailed addr _ _ => addr

def error? : Access → Option BusError
  | read _ _ => none
  | readFailed _ error => some error
  | write _ _ => none
  | writeFailed _ _ error => some error

end Access

end WordMachine
