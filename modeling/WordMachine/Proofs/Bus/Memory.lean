import WordMachine.Bus.Memory
import WordMachine.Proofs.Bus.Requests

/-!
# Requests to memory

Memory refuses nothing.  What it holds after a sequence of requests is given by
the writes among them, and what it answers to reads by its contents.
-/

namespace WordMachine

namespace Memory

def store (memory : Memory) : Request → Memory
  | .read _ => memory
  | .write addr byte => memory.set addr byte

def storeAll (memory : Memory) (requests : List Request) : Memory :=
  requests.foldl store memory

@[simp] theorem storeAll_append (memory : Memory) (requests requests' : List Request) :
    memory.storeAll (requests ++ requests') =
      (memory.storeAll requests).storeAll requests' :=
  List.foldl_append

theorem get_storeAll_of_not_written
    (memory : Memory) {requests : List Request} {addr : Address}
    (hnot : ∀ byte, .write addr byte ∉ requests) :
    (memory.storeAll requests).get addr = memory.get addr := by
  induction requests generalizing memory with
  | nil => rfl
  | cons request rest ih =>
      have hrest : ∀ byte, .write addr byte ∉ rest :=
        fun byte hmem => hnot byte (List.mem_cons_of_mem _ hmem)
      change ((memory.store request).storeAll rest).get addr = _
      rw [ih _ hrest]
      cases request with
      | read other => rfl
      | write other byte =>
          have hne : other ≠ addr := by
            rintro rfl
            exact hnot byte List.mem_cons_self
          rw [store, get_set, if_neg hne]

/-- The word at two consecutive addresses, low byte first. -/
def setWord (memory : Memory) (addr : Address) (word : Word) : Memory :=
  (memory.set addr word.lowByte).set (addr + 1) word.highByte

theorem storeAll_writeWord (memory : Memory) (addr : Address) (word : Word) :
    memory.storeAll (Request.writeWord addr word) = memory.setWord addr word := rfl

theorem get_setWord_low (memory : Memory) (addr : Address) (word : Word) :
    (memory.setWord addr word).get addr = word.lowByte := by
  have hne : addr + 1 ≠ addr := by
    intro heq
    have hnat := congrArg UInt16.toNat heq
    simp only [UInt16.toNat_add, UInt16.toNat_one] at hnat
    omega
  rw [setWord, get_set, if_neg hne, get_set_self]

theorem get_setWord_high (memory : Memory) (addr : Address) (word : Word) :
    (memory.setWord addr word).get (addr + 1) = word.highByte :=
  get_set_self _ _ _

end Memory

namespace Request

theorem snd_performAll_memory (requests : List Request) (memory : Memory) :
    (performAll requests memory).2 = memory.storeAll requests := by
  induction requests generalizing memory with
  | nil => rfl
  | cons request rest ih => cases request <;> exact ih _

theorem answers_performAll_reads (addrs : List Address) (memory : Memory) :
    answers (performAll (addrs.map .read) memory).1 = addrs.map memory.get := by
  induction addrs with
  | nil => rfl
  | cons addr rest ih =>
      have hperform : (Request.read addr).perform memory =
          (Access.read addr (memory.get addr), memory) := rfl
      simp only [List.map_cons, performAll, hperform]
      rw [answers_cons, ih]
      rfl

end Request

end WordMachine
