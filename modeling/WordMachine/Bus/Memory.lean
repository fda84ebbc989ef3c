import WordMachine.Bus

/-!
# Memory

A memory holds one byte for each of the 65536 addresses, all of them readable
and writable, so no access to it fails.  Loading places a sequence of bytes at
consecutive addresses; it continues at address 0 after the last one, and where
the sequence comes round to an address again the later byte stays.
-/

namespace WordMachine

structure Memory where
  cells : Vector Byte 65536
deriving DecidableEq

namespace Memory

def zero : Memory := ⟨Vector.replicate 65536 0⟩

instance : Inhabited Memory := ⟨zero⟩

def get (memory : Memory) (addr : Address) : Byte :=
  have inRange : addr.toNat < 65536 := addr.toNat_lt
  memory.cells[addr.toNat]

def set (memory : Memory) (addr : Address) (byte : Byte) : Memory :=
  ⟨memory.cells.set addr.toNat byte addr.toNat_lt⟩

@[simp] theorem get_zero (addr : Address) : zero.get addr = 0 := by
  simp [get, zero]

theorem get_set (memory : Memory) (addr other : Address) (byte : Byte) :
    (memory.set addr byte).get other = if addr = other then byte else memory.get other := by
  simp only [get, set, Vector.getElem_set, UInt16.toNat_inj]

@[simp] theorem get_set_self (memory : Memory) (addr : Address) (byte : Byte) :
    (memory.set addr byte).get addr = byte := by
  simp [get_set]

@[ext] theorem ext {memory memory' : Memory} (h : ∀ addr, memory.get addr = memory'.get addr) :
    memory = memory' := by
  cases memory with
  | mk cells =>
    cases memory' with
    | mk cells' =>
      congr
      apply Vector.ext
      intro i hi
      have hcell := h (UInt16.ofNat i)
      simpa [get, UInt16.toNat_ofNat_of_lt' hi] using hcell

def getWord (memory : Memory) (addr : Address) : Word :=
  Word.ofBytes (memory.get addr) (memory.get (addr + 1))

def load (memory : Memory) (start : Address) : List Byte → Memory
  | [] => memory
  | byte :: rest => (memory.set start byte).load (start + 1) rest

/-- The bytes at `count` addresses from `start` on, past the last address to
the first one. -/
def bytesFrom (memory : Memory) (start : Address) (count : Nat) : List Byte :=
  (List.range count).map fun i => memory.get (start + UInt16.ofNat i)

def nonZeroBytes (memory : Memory) : Nat :=
  memory.cells.countP (· != 0)

def summary (memory : Memory) : String :=
  "FlatMemory \x7b non_zero_bytes: " ++ toString memory.nonZeroBytes ++
    ", total_bytes: 65536 \x7d"

instance : Bus Memory where
  read addr memory := (.ok (memory.get addr), memory)
  write addr byte memory := (.ok (), memory.set addr byte)

end Memory

end WordMachine
