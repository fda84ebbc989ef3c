import WordMachine.Bus

/-!
# Transactions

A transaction is a computation that accesses a bus byte by byte.  It is plain
data: what it asks for next depends on the bytes that it has been given, and on
nothing else.  `Transaction.run` plays it on a bus, stops at the first access
that fails, and records every access that was attempted.  Nothing is undone:
the accesses before the failing one keep their effect.

`run_bind` says that a sequence of two transactions runs the second one where
the first one left the bus.
-/

namespace WordMachine

inductive Transaction (α : Type) where
  | done (value : α)
  | read (addr : Address) (next : Byte → Transaction α)
  | write (addr : Address) (byte : Byte) (next : Transaction α)

namespace Transaction

variable {α β : Type}

def bind : Transaction α → (α → Transaction β) → Transaction β
  | done value, f => f value
  | read addr next, f => read addr fun byte => (next byte).bind f
  | write addr byte next, f => write addr byte (next.bind f)

instance : Monad Transaction where
  pure := done
  bind := bind

def readByte (addr : Address) : Transaction Byte :=
  read addr done

def writeByte (addr : Address) (byte : Byte) : Transaction Unit :=
  write addr byte (done ())

/-- The low byte comes first, from the lower address. -/
def readWord (addr : Address) : Transaction Word := do
  let low ← readByte addr
  let high ← readByte (addr + 1)
  return Word.ofBytes low high

def writeWord (addr : Address) (word : Word) : Transaction Unit := do
  writeByte addr word.lowByte
  writeByte (addr + 1) word.highByte

structure Outcome (σ α : Type) where
  result : Except BusError α
  bus : σ
  /-- Every attempted access in order; only the last one can have failed. -/
  accesses : List Access

namespace Outcome

variable {σ : Type}

def after (outcome : Outcome σ α) (access : Access) : Outcome σ α :=
  { outcome with accesses := access :: outcome.accesses }

def afterAll (outcome : Outcome σ α) (accesses : List Access) : Outcome σ α :=
  { outcome with accesses := accesses ++ outcome.accesses }

end Outcome

def run {σ : Type} [Bus σ] : Transaction α → σ → Outcome σ α
  | done value, bus => { result := .ok value, bus, accesses := [] }
  | read addr next, bus =>
    match Bus.read addr bus with
    | (.ok byte, bus) => ((next byte).run bus).after (.read addr byte)
    | (.error error, bus) =>
      { result := .error error, bus, accesses := [.readFailed addr error] }
  | write addr byte next, bus =>
    match Bus.write addr byte bus with
    | (.ok (), bus) => (next.run bus).after (.write addr byte)
    | (.error error, bus) =>
      { result := .error error, bus, accesses := [.writeFailed addr byte error] }

theorem run_pure {σ : Type} [Bus σ] (value : α) (bus : σ) :
    (pure value : Transaction α).run bus =
      { result := .ok value, bus, accesses := [] } :=
  rfl

theorem run_bind {σ : Type} [Bus σ] (t : Transaction α) (f : α → Transaction β) (bus : σ) :
    (t >>= f).run bus =
      match t.run bus with
      | ⟨.ok value, bus, accesses⟩ => ((f value).run bus).afterAll accesses
      | ⟨.error error, bus, accesses⟩ => ⟨.error error, bus, accesses⟩ := by
  change (t.bind f).run bus = _
  induction t generalizing bus with
  | done value => rfl
  | read addr next ih =>
    simp only [bind, run]
    rcases Bus.read addr bus with ⟨_ | byte, bus'⟩
    · rfl
    · simp only [ih]
      rcases (next byte).run bus' with ⟨_ | _, _, _⟩ <;> rfl
  | write addr byte next ih =>
    simp only [bind, run]
    rcases Bus.write addr byte bus with ⟨_ | _, bus'⟩
    · rfl
    · simp only [ih]
      rcases next.run bus' with ⟨_ | _, _, _⟩ <;> rfl

end Transaction

end WordMachine
