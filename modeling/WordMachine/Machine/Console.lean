import WordMachine.Bus

/-!
# The console

The console joins the machine to two character streams of the host.  The input
is a list of items still to come, data bytes mostly, but also interruptions and
failures.  The output is a sink that answers each byte sent to it.

Interruptions are never seen by the program: an interrupted call is made again.
The console takes one item at a time and does not look ahead.
-/

namespace WordMachine

inductive InputItem where
  | byte (byte : Byte)
  /-- The call is to be made again. -/
  | interrupted
  /-- The host reports the end of its input; more items may follow. -/
  | endOfFile
  | failed (text : String)
deriving DecidableEq, Repr, Inhabited

inductive ConsoleError where
  | endOfInput
  | input (text : String)
  | output (text : String)
deriving DecidableEq, Repr, Inhabited

def ConsoleError.message : ConsoleError → String
  | endOfInput => "end of input"
  | input text => "input: " ++ text
  | output text => "output: " ++ text

/-- Takes all interruptions in front and one item behind them. -/
def InputItem.receive : List InputItem → Except ConsoleError Byte × List InputItem
  | [] => (.error .endOfInput, [])
  | interrupted :: rest => receive rest
  | byte value :: rest => (.ok value, rest)
  | endOfFile :: rest => (.error .endOfInput, rest)
  | failed text :: rest => (.error (.input text), rest)

inductive SinkReply where
  | accepted
  /-- The host takes no byte and gives no reason. -/
  | refused
  | failed (text : String)
  /-- The call is made again and gets the reply `next`. -/
  | interrupted (next : SinkReply)
  /-- The byte is taken, and flushing it fails. -/
  | flushFailed (text : String)
deriving DecidableEq, Repr, Inhabited

structure Sink where
  emitted : Array Byte
  /-- How many bytes the host has been asked to take. -/
  attempts : Nat
  /-- The reply to each attempt, by its number. -/
  replies : Nat → SinkReply

namespace Sink

def withReplies (replies : Nat → SinkReply) : Sink := ⟨#[], 0, replies⟩

def accepting : Sink := withReplies fun _ => .accepted

/-- Ends the attempt to send `byte`, given the reply to it. -/
def settle (byte : Byte) : SinkReply → Array Byte → Except ConsoleError Unit × Array Byte
  | .accepted, emitted => (.ok (), emitted.push byte)
  | .refused, emitted => (.error (.output "failed to write whole buffer"), emitted)
  | .failed text, emitted => (.error (.output text), emitted)
  | .interrupted next, emitted => settle byte next emitted
  | .flushFailed text, emitted => (.error (.output text), emitted.push byte)

def send (byte : Byte) : Sink → Except ConsoleError Unit × Sink
  | ⟨emitted, attempts, replies⟩ =>
    let (answer, emitted) := settle byte (replies attempts) emitted
    (answer, ⟨emitted, attempts + 1, replies⟩)

end Sink

end WordMachine
