import WordMachine.Machine.RomImage

/-!
# The store of the board

The board keeps the bytes of the addresses from `RomImage.base` on, the ROM and the
RAM behind it.  A byte lies as far into the store as its address is behind the first
one.  The addresses below have no byte there, and the store cannot be asked for one.
-/

namespace WordMachine

structure Store where
  cells : Vector Byte 65533
deriving DecidableEq

namespace Store

def zero : Store := ⟨Vector.replicate 65533 0⟩

instance : Inhabited Store := ⟨zero⟩

/-- Where the byte of an address lies. -/
def offset (addr : Address) : Nat := (addr - RomImage.base).toNat

variable {addr other : Address}

theorem offset_eq (haddr : RomImage.base ≤ addr) : offset addr = addr.toNat - 3 :=
  UInt16.toNat_sub_of_le addr RomImage.base haddr

theorem offset_lt (haddr : RomImage.base ≤ addr) : offset addr < 65533 := by
  have hlt := addr.toNat_lt
  rw [offset_eq haddr]
  omega

def get (store : Store) (addr : Address) (haddr : RomImage.base ≤ addr) : Byte :=
  have inRange : offset addr < 65533 := offset_lt haddr
  store.cells[offset addr]

def set (store : Store) (addr : Address) (haddr : RomImage.base ≤ addr) (byte : Byte) :
    Store :=
  ⟨store.cells.set (offset addr) byte (offset_lt haddr)⟩

@[simp] theorem get_zero (haddr : RomImage.base ≤ addr) : zero.get addr haddr = 0 := by
  simp [get, zero]

theorem get_set (store : Store) (haddr : RomImage.base ≤ addr)
    (hother : RomImage.base ≤ other) (byte : Byte) :
    (store.set addr haddr byte).get other hother =
      if addr = other then byte else store.get other hother := by
  simp only [get, set, Vector.getElem_set, offset, UInt16.toNat_inj, UInt16.sub_left_inj]

theorem toNat_base_add {position : Nat} (hposition : position < 65533) :
    (RomImage.base + UInt16.ofNat position).toNat = 3 + position := by
  have hbase : RomImage.base.toNat = 3 := rfl
  rw [UInt16.toNat_add, UInt16.toNat_ofNat', hbase]
  omega

theorem base_le_add {position : Nat} (hposition : position < 65533) :
    RomImage.base ≤ RomImage.base + UInt16.ofNat position := by
  rw [UInt16.le_iff_toNat_le, toNat_base_add hposition]
  exact Nat.le_add_right 3 position

theorem offset_base_add {position : Nat} (hposition : position < 65533) :
    offset (RomImage.base + UInt16.ofNat position) = position := by
  rw [offset_eq (base_le_add hposition), toNat_base_add hposition, Nat.add_sub_cancel_left]

@[ext] theorem ext {store store' : Store}
    (h : ∀ addr haddr, store.get addr haddr = store'.get addr haddr) :
    store = store' := by
  cases store with
  | mk cells =>
    cases store' with
    | mk cells' =>
      congr
      apply Vector.ext
      intro position hposition
      have hcell := h (RomImage.base + UInt16.ofNat position) (base_le_add hposition)
      simpa only [get, offset_base_add hposition] using hcell

/-- Copies bytes into the store from `position` on; none is placed behind its end. -/
def copy (store : Store) (position : Nat) : List Byte → Store
  | [] => store
  | byte :: rest =>
    if hposition : position < 65533 then
      copy ⟨store.cells.set position byte hposition⟩ (position + 1) rest
    else store

/-- The image at the beginning, zero behind it. -/
def ofRom (rom : RomImage) : Store := zero.copy 0 rom.bytes

end Store

end WordMachine
