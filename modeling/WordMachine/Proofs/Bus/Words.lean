import WordMachine.Bus.FaultPlan
import WordMachine.Proofs.Bus.Layout

/-!
# Words on a bus

A word goes over a bus in two byte accesses, the low byte first.  The second access is made only
if the first one is answered.  If the second one is refused the first one stays done, so that a
word may have been written by half.

Memory refuses nothing, and there words obey the laws of a store.  At the two addresses of a
word that has been written the memory before it does not matter (`get_setWord_of_within`), and
everywhere else the word does not matter (`get_setWord_of_not_within`).  Two writings therefore
leave the same at every address that only one of them reaches, whichever comes first
(`get_setWord_swap`).
-/

namespace WordMachine

open Transaction

/-! ## Halves -/

section Halves

variable {σ : Type} [Bus σ]

/-- The outcome is what becomes of writing a word on any bus. -/
structure WrittenInHalves (bus : σ) (addr : Address) (word : Word)
    (outcome : Transaction.Outcome σ Unit) : Prop where
  refused : ∀ {error after}, Bus.write addr word.lowByte bus = (.error error, after) →
    outcome = ⟨.error error, after, [.writeFailed addr word.lowByte error]⟩
  /-- The low byte has been written and stays so. -/
  torn : ∀ {between error after}, Bus.write addr word.lowByte bus = (.ok (), between) →
    Bus.write (addr + 1) word.highByte between = (.error error, after) →
    outcome = ⟨.error error, after,
      [.write addr word.lowByte, .writeFailed (addr + 1) word.highByte error]⟩
  granted : ∀ {between after}, Bus.write addr word.lowByte bus = (.ok (), between) →
    Bus.write (addr + 1) word.highByte between = (.ok (), after) →
    outcome = ⟨.ok (), after,
      [.write addr word.lowByte, .write (addr + 1) word.highByte]⟩

/-- The outcome is what becomes of reading a word on any bus. -/
structure ReadInHalves (bus : σ) (addr : Address)
    (outcome : Transaction.Outcome σ Word) : Prop where
  refused : ∀ {error after}, Bus.read addr bus = (.error error, after) →
    outcome = ⟨.error error, after, [.readFailed addr error]⟩
  /-- The low byte has been read in vain. -/
  torn : ∀ {low between error after}, Bus.read addr bus = (.ok low, between) →
    Bus.read (addr + 1) between = (.error error, after) →
    outcome = ⟨.error error, after, [.read addr low, .readFailed (addr + 1) error]⟩
  granted : ∀ {low between high after}, Bus.read addr bus = (.ok low, between) →
    Bus.read (addr + 1) between = (.ok high, after) →
    outcome = ⟨.ok (Word.ofBytes low high), after, [.read addr low, .read (addr + 1) high]⟩

theorem writtenInHalves (bus : σ) (addr : Address) (word : Word) :
    WrittenInHalves bus addr word ((writeWord addr word).run bus) := by
  have hhalves : writeWord addr word =
      .write addr word.lowByte (.write (addr + 1) word.highByte (.done ())) := rfl
  rw [hhalves]
  constructor
  · intro error after hlow
    simp only [run, hlow]
  · intro between error after hlow hhigh
    simp only [run, hlow, hhigh, Outcome.after]
  · intro between after hlow hhigh
    simp only [run, hlow, hhigh, Outcome.after]

theorem readInHalves (bus : σ) (addr : Address) :
    ReadInHalves bus addr ((readWord addr).run bus) := by
  have hhalves : readWord addr =
      .read addr fun low => .read (addr + 1) fun high => .done (Word.ofBytes low high) := rfl
  rw [hhalves]
  constructor
  · intro error after hlow
    simp only [run, hlow]
  · intro low between error after hlow hhigh
    simp only [run, hlow, hhigh, Outcome.after]
  · intro low between high after hlow hhigh
    simp only [run, hlow, hhigh, Outcome.after]

end Halves

/-! ## Words in memory -/

/-- Words at consecutive addresses share one byte. -/
theorem eq_add_one_of_within
    {addr start : Address} (hfirst : Within addr start 2) (hsecond : Within addr (start + 1) 2) :
    addr = start + 1 := by
  rcases within_two_iff.mp hfirst with rfl | rfl
  · have haddr := addr.toNat_lt
    simp only [Within, UInt16.toNat_sub, UInt16.toNat_add, UInt16.toNat_one] at hsecond
    omega
  · rfl

namespace Memory

variable {memory : Memory} {addr start start' : Address} {word word' : Word}

theorem get_setWord_of_within
    (hin : Within addr start 2) (memory memory' : Memory) :
    (memory.setWord start word).get addr = (memory'.setWord start word).get addr := by
  rcases within_two_iff.mp hin with rfl | rfl
  · rw [get_setWord_low, get_setWord_low]
  · rw [get_setWord_high, get_setWord_high]

theorem setWord_setWord (memory : Memory) (start : Address) (word word' : Word) :
    (memory.setWord start word).setWord start word' = memory.setWord start word' := by
  ext1 addr
  by_cases hin : Within addr start 2
  · exact get_setWord_of_within hin _ _
  · rw [get_setWord_of_not_within hin, get_setWord_of_not_within hin,
      get_setWord_of_not_within hin]

theorem setWord_getWord (memory : Memory) (start : Address) :
    memory.setWord start (memory.getWord start) = memory := by
  ext1 addr
  by_cases hin : Within addr start 2
  · rcases within_two_iff.mp hin with rfl | rfl
    · rw [get_setWord_low, getWord, Word.lowByte_ofBytes]
    · rw [get_setWord_high, getWord, Word.highByte_ofBytes]
  · exact get_setWord_of_not_within hin

theorem get_setWord_swap
    (hapart : Within addr start 2 → ¬ Within addr start' 2) :
    ((memory.setWord start word).setWord start' word').get addr =
      ((memory.setWord start' word').setWord start word).get addr := by
  by_cases hin : Within addr start 2
  · -- the other word does not reach this address, so it only changes the memory before
    rw [get_setWord_of_not_within (hapart hin)]
    exact get_setWord_of_within hin _ _
  · rw [get_setWord_of_not_within hin]
    by_cases hin' : Within addr start' 2
    · exact get_setWord_of_within hin' _ _
    · rw [get_setWord_of_not_within hin', get_setWord_of_not_within hin',
        get_setWord_of_not_within hin]

theorem setWord_comm
    (hapart : ∀ addr, Within addr start 2 → ¬ Within addr start' 2) :
    (memory.setWord start word).setWord start' word' =
      (memory.setWord start' word').setWord start word := by
  ext1 addr
  exact get_setWord_swap (hapart addr)

end Memory

/-- The laws of word accesses.  On memory they always succeed, and the word that has been
written is read again, all other bytes being as before; the last one of several writings at one
address stands, and writing what is there changes nothing.  Two writings may change places if
they share no byte.  At consecutive addresses they share one, which has the byte of the later
writing, and no other byte depends on the order.

On a bus that may refuse accesses the second half of a word is attempted only if the first one
has succeeded, and what has been done of the first one is kept. -/
theorem word_store_laws :
    (∀ (memory : Memory) (a c : Address) (v w : Word),
      let written := memory.setWord a v
      let inOrder := written.setWord c w
      let swapped := (memory.setWord c w).setWord a v
      ((writeWord a v).run memory).result = .ok () ∧
        ((writeWord a v).run memory).bus = written ∧
      ((readWord a).run memory).result = .ok (memory.getWord a) ∧
        ((readWord a).run memory).bus = memory ∧
      ((readWord a).run written).result = .ok v ∧ written.getWord a = v ∧
      (∀ other, other ≠ a → other ≠ a + 1 → written.get other = memory.get other) ∧
      written.setWord a w = memory.setWord a w ∧
      memory.setWord a (memory.getWord a) = memory ∧
      ((∀ addr, Within addr a 2 → ¬ Within addr c 2) → inOrder = swapped) ∧
      (c = a + 1 → inOrder.get c = w.lowByte ∧ swapped.get c = v.highByte ∧
        ∀ other, other ≠ c → inOrder.get other = swapped.get other)) ∧
    ∀ {σ : Type} [Bus σ] (bus : σ) (addr : Address) (word : Word),
      WrittenInHalves bus addr word ((writeWord addr word).run bus) ∧
        ReadInHalves bus addr ((readWord addr).run bus) := by
  constructor
  · intro memory a c v w written inOrder swapped
    have hread : ((readWord a).run written).result = .ok (written.getWord a) := rfl
    have hword : written.getWord a = v := Memory.getWord_setWord memory a v
    refine ⟨rfl, rfl, rfl, rfl, ?_, hword, ?_, ?_, ?_, ?_, ?_⟩
    · rw [hread, hword]
    · intro other hlow hhigh
      apply Memory.get_setWord_of_not_within
      rw [within_two_iff]
      exact not_or.mpr ⟨hlow, hhigh⟩
    · exact Memory.setWord_setWord memory a v w
    · exact Memory.setWord_getWord memory a
    · exact Memory.setWord_comm
    · rintro rfl
      refine ⟨Memory.get_setWord_low _ _ _, Memory.get_setWord_high _ _ _, ?_⟩
      intro other hother
      apply Memory.get_setWord_swap
      intro hfirst hsecond
      exact hother (eq_add_one_of_within hfirst hsecond)
  · intro σ _ bus addr word
    exact ⟨writtenInHalves bus addr word, readInHalves bus addr⟩

/-- Two words side by side, the first one on both ends of the address space, and a word of which
only the low byte is accepted. -/
theorem word_store_laws_torn :
    let memory := Memory.zero
    let bus : WithFaults Memory := ⟨memory, { writes := [(0x10, .addressInvalid 0x10)] }, 0⟩
    let outcome := (writeWord 0x0F 0xBEEF).run bus
    (∀ addr, Within addr 0xFFFF 2 → ¬ Within addr 1 2) ∧
      (memory.setWord 0xFFFF 0x1122).setWord 1 0x3344 =
        (memory.setWord 1 0x3344).setWord 0xFFFF 0x1122 ∧
      outcome.result = .error (.addressInvalid 0x10) ∧
      outcome.bus.bus = memory.set 0x0F 0xEF := by
  intro memory bus outcome
  have hapart : ∀ addr, Within addr 0xFFFF 2 → ¬ Within addr 1 2 := by
    intro addr hfirst hsecond
    rcases within_two_iff.mp hfirst with rfl | rfl
    · contradiction
    · contradiction
  obtain ⟨hmemory, hbus⟩ := word_store_laws
  obtain ⟨-, -, -, -, -, -, -, -, -, hswap, -⟩ := hmemory memory 0xFFFF 1 0x1122 0x3344
  have hlow : Bus.write 0x0F 0xEF bus = (.ok (), ⟨memory.set 0x0F 0xEF, bus.plan, 1⟩) := rfl
  have htorn : outcome = _ := (hbus bus 0x0F 0xBEEF).1.torn hlow rfl
  refine ⟨hapart, hswap hapart, ?_, ?_⟩
  · rw [htorn]
  · rw [htorn]

end WordMachine
