import WordMachine.Machine.Store
import WordMachine.Proofs.Bus.Layout

/-!
# The store as a part of memory

`Store.ofMemory` is the store with the bytes of a memory.  Everything that is done to
the store at an address is done to the memory at that address: reading, writing, and
placing an image (`copy_ofMemory`), as long as the image ends before the address space
does.
-/

namespace WordMachine.Store

variable {addr : Address}

/-- The bytes of a memory from `RomImage.base` on. -/
def ofMemory (memory : Memory) : Store :=
  ⟨Vector.ofFn fun i => memory.get (RomImage.base + UInt16.ofNat i)⟩

theorem get_ofMemory (memory : Memory) (haddr : RomImage.base ≤ addr) :
    (ofMemory memory).get addr haddr = memory.get addr := by
  have hback : RomImage.base + UInt16.ofNat (offset addr) = addr := by
    rw [offset, UInt16.ofNat_toNat, UInt16.add_comm, UInt16.sub_add_cancel]
  simp only [get, ofMemory, Vector.getElem_ofFn, hback]

theorem set_ofMemory (memory : Memory) (haddr : RomImage.base ≤ addr) (byte : Byte) :
    (ofMemory memory).set addr haddr byte = ofMemory (memory.set addr byte) := by
  ext other hother
  rw [get_set, get_ofMemory, get_ofMemory, Memory.get_set]

theorem ofMemory_zero : ofMemory Memory.zero = zero := by
  ext addr haddr
  rw [get_ofMemory, get_zero, Memory.get_zero]

theorem copy_cons
    (store : Store) {position : Nat} (hposition : position < 65533) (byte : Byte)
    (rest : List Byte) :
    store.copy position (byte :: rest) =
      (store.set (RomImage.base + UInt16.ofNat position) (base_le_add hposition) byte).copy
        (position + 1) rest := by
  rw [copy, dif_pos hposition]
  simp only [set, offset_base_add hposition]

theorem copy_ofMemory
    {memory : Memory} {position : Nat} {bytes : List Byte}
    (hend : position + bytes.length ≤ 65533) :
    (ofMemory memory).copy position bytes =
      ofMemory (memory.load (RomImage.base + UInt16.ofNat position) bytes) := by
  induction bytes generalizing memory position with
  | nil => rfl
  | cons byte rest ih =>
      rw [List.length_cons] at hend
      have hnext : RomImage.base + UInt16.ofNat (position + 1) =
          RomImage.base + UInt16.ofNat position + 1 := by
        rw [UInt16.ofNat_add, UInt16.add_assoc]
        rfl
      rw [copy_cons _ (by omega), set_ofMemory, ih (by omega), hnext, Memory.load]

/-- The image in the store is the image in a memory at `RomImage.base`. -/
theorem ofRom_ofBytes (data : List Byte) :
    ofRom (.ofBytes data) =
      ofMemory (Memory.zero.load RomImage.base (RomImage.ofBytes data).bytes) := by
  have hend : 0 + (RomImage.ofBytes data).bytes.length ≤ 65533 := by
    have hlength : (data.take RomImage.size).length ≤ 32768 := List.length_take_le _ _
    rw [Nat.zero_add]
    exact Nat.le_trans hlength (by decide)
  rw [ofRom, ← ofMemory_zero, copy_ofMemory hend]
  rfl

theorem get_ofRom (data : List Byte) (haddr : RomImage.base ≤ addr) :
    (ofRom (.ofBytes data)).get addr haddr =
      (data.take RomImage.size)[addr.toNat - 3]?.getD 0 := by
  have hfits : (data.take RomImage.size).length ≤ 65536 :=
    Nat.le_trans (List.length_take_le _ _) (by decide)
  have hloaded := Memory.get_load_of_fits hfits Memory.zero RomImage.base addr
  rw [Memory.get_zero] at hloaded
  rw [ofRom_ofBytes, get_ofMemory, ← offset_eq haddr]
  exact hloaded

end WordMachine.Store
