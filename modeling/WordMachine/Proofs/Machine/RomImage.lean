import Mathlib.Data.List.GetD
import WordMachine.Machine.Host
import WordMachine.Proofs.Machine.Board
import WordMachine.Proofs.Machine.Store

/-!
# The mapped bytes of a file

A machine sees of a file its first 32768 bytes, with zeros behind a file that is shorter:
`RomImage.mapped`.  The store of a new machine is exactly that, and zero behind it, so two
files give the same store if and only if they have the same mapped bytes
(`Store.ofRom_eq_iff`).  A machine keeps nothing else of its image.  Two files with the same
mapped bytes are therefore the same to every host, and a host that looks at the memory
tells any other two apart.
-/

namespace WordMachine

namespace RomImage

/-- The bytes of a file that are mapped, filled up with zeros. -/
def mapped (data : List Byte) : List Byte :=
  data.take size ++ List.replicate (size - data.length) 0

variable {data data' : List Byte}

@[simp] theorem length_mapped (data : List Byte) : (mapped data).length = size := by
  simp only [mapped, List.length_append, List.length_take, List.length_replicate]
  omega

/-- Zeros at the end do not show where a missing byte counts as zero. -/
theorem getD_append_zeros (bytes : List Byte) (count i : Nat) :
    (bytes ++ List.replicate count 0).getD i 0 = bytes.getD i 0 := by
  rcases Nat.lt_or_ge i bytes.length with hlt | hge
  · rw [List.getD_append _ _ _ _ hlt]
  · rw [List.getD_append_right _ _ _ _ hge, List.getD_eq_default _ _ hge,
      List.getD_eq_getElem?_getD, List.getElem?_getD_replicate_default_eq]

theorem getD_mapped (data : List Byte) (i : Nat) :
    (mapped data).getD i 0 = (data.take size).getD i 0 :=
  getD_append_zeros (data.take size) (size - data.length) i

theorem mapped_eq_iff :
    mapped data = mapped data' ↔
      ∀ i < size, (data.take size).getD i 0 = (data'.take size).getD i 0 := by
  constructor
  · intro hsame i hi
    rw [← getD_mapped, ← getD_mapped, hsame]
  · intro hsame
    apply List.ext_getElem
    · rw [length_mapped, length_mapped]
    · intro i hi hi'
      rw [length_mapped] at hi
      rw [← List.getD_eq_getElem _ 0, ← List.getD_eq_getElem _ 0, getD_mapped, getD_mapped,
        hsame i hi]

theorem mapped_take (data : List Byte) : mapped (data.take size) = mapped data := by
  rw [mapped_eq_iff]
  intro i hi
  rw [List.take_take, Nat.min_self]

theorem mapped_append_zeros (data : List Byte) (count : Nat) :
    mapped (data ++ List.replicate count 0) = mapped data := by
  rw [mapped_eq_iff]
  intro i hi
  rw [List.take_append, List.take_replicate, getD_append_zeros]

end RomImage

namespace Store

open RomImage

theorem get_ofRom_mapped
    {addr : Address} (data : List Byte) (haddr : base ≤ addr) :
    (ofRom (.ofBytes data)).get addr haddr = (mapped data).getD (addr.toNat - 3) 0 := by
  rw [get_ofRom, getD_mapped, List.getD_eq_getElem?_getD]

theorem ofRom_eq_iff {data data' : List Byte} :
    ofRom (.ofBytes data) = ofRom (.ofBytes data') ↔ mapped data = mapped data' := by
  constructor
  · intro hsame
    rw [mapped_eq_iff]
    intro i hi
    have hi' : i < 65533 := Nat.lt_trans hi (by decide)
    have hposition : (base + UInt16.ofNat i).toNat - 3 = i := by
      rw [toNat_base_add hi', Nat.add_sub_cancel_left]
    have hget := get_ofRom_mapped data (base_le_add hi')
    rw [hsame, get_ofRom_mapped, hposition, getD_mapped, getD_mapped] at hget
    exact hget.symm
  · intro hsame
    ext addr haddr
    rw [get_ofRom_mapped, get_ofRom_mapped, hsame]

end Store

namespace Machine

open RomImage

variable {data data' : List Byte}

theorem peek_ofRom
    (data : List Byte) (input : List InputItem) (output : Sink) (config : MachineConfig)
    (addr : Address) :
    (ofRom (.ofBytes data) input output config).cpu.bus.peek addr =
      if addr < base then 0 else (mapped data).getD (addr.toNat - 3) 0 := by
  split
  next hport => exact Board.peek_of_lt_base hport _
  next hport =>
      have haddr := UInt16.not_lt.mp hport
      rw [Board.peek_of_base_le haddr]
      exact Store.get_ofRom_mapped data haddr

/-- A machine keeps of its image the bytes that are mapped. -/
theorem ofRom_eq_of_mapped
    (hsame : mapped data = mapped data') (input : List InputItem) (output : Sink)
    (config : MachineConfig) :
    ofRom (.ofBytes data) input output config = ofRom (.ofBytes data') input output config := by
  unfold ofRom Board.ofRom
  rw [Store.ofRom_eq_iff.mpr hsame]

/-- Only the mapped bytes of a file matter.  An image holds the first 32768 bytes of its
file and counts the others, and it is its own image.  A new machine has the mapped bytes in
its memory and zeros behind them, whatever else the file holds.  Two files give machines that
no host can tell apart, by runs, steps and operations on the bus, if and only if they have the
same mapped bytes; what lies behind the first 32768 bytes, and zeros at the end of a file,
make no difference. -/
theorem mapped_bytes_decide
    (data : List Byte) (input : List InputItem) (output : Sink) (config : MachineConfig) :
    let rom := RomImage.ofBytes data
    let machine := fun file => ofRom (.ofBytes file) input output config
    (rom.bytes = data.take (min data.length 32768) ∧
      rom.length = min data.length 32768 ∧
      rom.length + rom.truncated = data.length ∧
      RomImage.ofBytes rom.bytes = ⟨rom.bytes, 0⟩) ∧
    (∀ addr, (machine data).cpu.bus.peek addr =
      if addr < base then 0 else (mapped data).getD (addr.toNat - 3) 0) ∧
    (∀ data', mapped data = mapped data' ↔
      ∀ operations, HostOperation.performAll operations (machine data) =
        HostOperation.performAll operations (machine data')) ∧
    machine (data.take 32768) = machine data ∧
    ∀ count, machine (data ++ List.replicate count 0) = machine data := by
  intro rom machine
  have hlength : rom.length = min data.length 32768 := by
    rw [Nat.min_comm]
    exact List.length_take
  refine ⟨⟨?_, hlength, ?_, ?_⟩, ?_, ?_, ?_, ?_⟩
  · rw [Nat.min_comm, ← List.take_eq_take_min]
    rfl
  · have htruncated : rom.truncated = data.length - 32768 := rfl
    omega
  · have hkept : rom.bytes.length ≤ size := List.length_take_le _ _
    unfold RomImage.ofBytes
    rw [List.take_of_length_le hkept, Nat.sub_eq_zero_of_le hkept]
  · exact peek_ofRom data input output config
  · intro data'
    constructor
    · intro hsame operations
      have hmachine : machine data = machine data' := ofRom_eq_of_mapped hsame input output config
      rw [hmachine]
    · intro hsessions
      rw [← Store.ofRom_eq_iff]
      apply Store.ext
      intro addr haddr
      have hanswers := congrArg Session.answers (hsessions [.peek addr])
      have hpeek : (machine data).cpu.bus.peek addr = (machine data').cpu.bus.peek addr :=
        HostAnswer.peek.inj (List.head_eq_of_cons_eq hanswers)
      rw [Board.peek_of_base_le haddr, Board.peek_of_base_le haddr] at hpeek
      exact hpeek
  · exact ofRom_eq_of_mapped (mapped_take data) input output config
  · intro count
    exact ofRom_eq_of_mapped (mapped_append_zeros data count) input output config

end Machine

end WordMachine
