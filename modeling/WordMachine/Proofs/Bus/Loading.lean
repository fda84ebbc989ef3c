import Mathlib.Data.List.Induction
import Mathlib.Order.Bounds.Basic
import WordMachine.Proofs.Bus.Layout

/-!
# Loading any number of bytes

Bytes are loaded one behind the other, past the last address to the first one, and a sequence
that is longer than the address space comes round to its own beginning.  An address then has
the byte that came to it last (`get_load`).  Loading adds bytes at the end of what it has loaded
(`load_append`), so the law goes by induction on the bytes from the end.

What goes all the way round leaves nothing of the memory, nor of the bytes loaded before it.  Of
a long sequence only the last 65536 bytes are therefore left, and all of them are.
-/

namespace WordMachine

/-- Of `count` bytes that are loaded from `start` on, the byte `i` comes to `addr`, and no later
one does. -/
def LastAt (start addr : Address) (count i : Nat) : Prop :=
  IsGreatest {j | j < count ∧ (start.toNat + j) % 65536 = addr.toNat} i

section LastAt

variable {start addr : Address} {count i : Nat}

theorem add_ofNat_eq_iff :
    start + UInt16.ofNat i = addr ↔ (start.toNat + i) % 65536 = addr.toNat := by
  rw [← UInt16.toNat_inj, UInt16.toNat_add, UInt16.toNat_ofNat']
  omega

theorem lastAt_end (hreaches : (start.toNat + count) % 65536 = addr.toNat) :
    LastAt start addr (count + 1) count := by
  constructor
  · exact ⟨Nat.lt_succ_self count, hreaches⟩
  · rintro j ⟨hj, -⟩
    exact Nat.le_of_lt_succ hj

theorem LastAt.succ (h : LastAt start addr count i)
    (hmisses : (start.toNat + count) % 65536 ≠ addr.toNat) :
    LastAt start addr (count + 1) i := by
  obtain ⟨⟨hi, hreaches⟩, hlast⟩ := h
  constructor
  · exact ⟨Nat.lt_succ_of_lt hi, hreaches⟩
  · rintro j ⟨hj, hreached⟩
    rcases Nat.lt_succ_iff_lt_or_eq.mp hj with hlt | rfl
    · exact hlast ⟨hlt, hreached⟩
    · exact absurd hreached hmisses

end LastAt

namespace Memory

variable {memory : Memory} {start addr : Address} {bytes : List Byte}

theorem load_append (memory : Memory) (start : Address) (bytes bytes' : List Byte) :
    memory.load start (bytes ++ bytes') =
      (memory.load start bytes).load (start + UInt16.ofNat bytes.length) bytes' := by
  induction bytes generalizing memory start with
  | nil =>
      have hstart : start + UInt16.ofNat ([] : List Byte).length = start := UInt16.add_zero start
      rw [hstart]
      rfl
  | cons byte rest ih =>
      have hbehind : start + UInt16.ofNat (byte :: rest).length =
          start + 1 + UInt16.ofNat rest.length := by
        rw [List.length_cons, Nat.add_comm, UInt16.ofNat_add, ← UInt16.add_assoc]
        rfl
      rw [List.cons_append, load, ih, hbehind, load]

theorem get_load (memory : Memory) (start addr : Address) (bytes : List Byte) :
    (∃ i, LastAt start addr bytes.length i ∧
      bytes[i]? = some ((memory.load start bytes).get addr)) ∨
    (∀ i < bytes.length, (start.toNat + i) % 65536 ≠ addr.toNat) ∧
      (memory.load start bytes).get addr = memory.get addr := by
  induction bytes using List.reverseRecOn with
  | nil =>
      refine .inr ⟨?_, rfl⟩
      intro i hi
      exact absurd hi (Nat.not_lt_zero i)
  | append_singleton bytes byte ih =>
      have hload : (memory.load start (bytes ++ [byte])).get addr =
          if start + UInt16.ofNat bytes.length = addr then byte
          else (memory.load start bytes).get addr := by
        rw [load_append, load, load, get_set]
      rw [hload, List.length_append, List.length_singleton]
      by_cases hreaches : start + UInt16.ofNat bytes.length = addr
      · rw [if_pos hreaches]
        refine .inl ⟨bytes.length, lastAt_end (add_ofNat_eq_iff.mp hreaches), ?_⟩
        exact List.getElem?_concat_length
      · have hmisses := mt add_ofNat_eq_iff.mpr hreaches
        rw [if_neg hreaches]
        rcases ih with ⟨i, hlast, hbyte⟩ | ⟨hnone, hkept⟩
        · refine .inl ⟨i, hlast.succ hmisses, ?_⟩
          rw [List.getElem?_append_left hlast.1.1, hbyte]
        · refine .inr ⟨?_, hkept⟩
          intro i hi
          rcases Nat.lt_succ_iff_lt_or_eq.mp hi with hlt | rfl
          · exact hnone i hlt
          · exact hmisses

/-- The memory does not matter at an address that the bytes have come to. -/
theorem get_load_of_lastAt
    {i : Nat} (hlast : LastAt start addr bytes.length i) (memory : Memory) :
    bytes[i]? = some ((memory.load start bytes).get addr) := by
  rcases get_load memory start addr bytes with ⟨j, hother, hbyte⟩ | ⟨hnone, -⟩
  · rw [hlast.unique hother, hbyte]
  · exact absurd hlast.1.2 (hnone i hlast.1.1)

theorem load_load (memory : Memory) (start : Address) (bytes : List Byte) :
    (memory.load start bytes).load start bytes = memory.load start bytes := by
  ext1 addr
  rcases get_load (memory.load start bytes) start addr bytes with
    ⟨i, hlast, hbyte⟩ | ⟨-, hkept⟩
  · have hfirst := get_load_of_lastAt hlast memory
    exact Option.some.inj (hbyte.symm.trans hfirst)
  · exact hkept

/-- Bytes that come to every address leave nothing of the memory. -/
theorem load_of_full (hfull : 65536 ≤ bytes.length) (memory memory' : Memory) (start : Address) :
    memory.load start bytes = memory'.load start bytes := by
  ext1 addr
  rcases get_load memory start addr bytes with ⟨i, hlast, hbyte⟩ | ⟨hnone, -⟩
  · have hother := get_load_of_lastAt hlast memory'
    exact Option.some.inj (hbyte.symm.trans hother)
  · have haddr := addr.toNat_lt
    have hreaches : start + UInt16.ofNat (addr - start).toNat = addr := by
      rw [UInt16.ofNat_toNat, UInt16.add_comm, UInt16.sub_add_cancel]
    exact absurd (add_ofNat_eq_iff.mp hreaches)
      (hnone _ (Nat.lt_of_lt_of_le (addr - start).toNat_lt hfull))

theorem load_drop (memory : Memory) (start : Address) (bytes : List Byte) :
    memory.load (start + UInt16.ofNat (bytes.length - 65536)) (bytes.drop (bytes.length - 65536)) =
      memory.load start bytes := by
  rcases Nat.le_total bytes.length 65536 with hshort | hlong
  · have hstart : start + UInt16.ofNat 0 = start := UInt16.add_zero start
    rw [Nat.sub_eq_zero_of_le hshort, List.drop_zero, hstart]
  · have hfull : 65536 ≤ (bytes.drop (bytes.length - 65536)).length := by
      rw [List.length_drop]
      omega
    have hhidden : (bytes.take (bytes.length - 65536)).length = bytes.length - 65536 :=
      List.length_take_of_le (Nat.sub_le _ _)
    have hsplit := load_append memory start (bytes.take (bytes.length - 65536))
      (bytes.drop (bytes.length - 65536))
    rw [List.take_append_drop, hhidden] at hsplit
    rw [hsplit]
    exact load_of_full hfull _ _ _

theorem holds_load (hfits : bytes.length ≤ 65536) (memory : Memory) (start : Address) :
    (memory.load start bytes).Holds start bytes := by
  apply List.ext_getElem
  · rw [bytesFrom, List.length_map, List.length_range]
  · intro i _ hi
    have hposition : (start + UInt16.ofNat i - start).toNat = i := by
      rw [UInt16.add_comm, UInt16.add_sub_cancel]
      exact UInt16.toNat_ofNat_of_lt' (Nat.lt_of_lt_of_le hi hfits)
    simp only [bytesFrom, List.getElem_map, List.getElem_range]
    rw [get_load_of_fits hfits, hposition, List.getElem?_eq_getElem hi, Option.getD_some]

/-- The law of loading.  Each address has the byte of the largest index that comes to it, and
what it had before if none does.  Loading two sequences in one is loading the second one behind
the first one, loading a sequence twice is loading it once, and of a sequence the last 65536
bytes are loaded and lie in memory, whatever was in front of them. -/
theorem load_any_length (memory : Memory) (start : Address) (bytes : List Byte) :
    let loaded := memory.load start bytes
    let hidden := bytes.length - 65536
    (∀ addr,
      (∃ i, IsGreatest {j | j < bytes.length ∧ (start.toNat + j) % 65536 = addr.toNat} i ∧
        bytes[i]? = some (loaded.get addr)) ∨
      (∀ i < bytes.length, (start.toNat + i) % 65536 ≠ addr.toNat) ∧
        loaded.get addr = memory.get addr) ∧
    (∀ bytes', memory.load start (bytes ++ bytes') =
      loaded.load (start + UInt16.ofNat bytes.length) bytes') ∧
    loaded.load start bytes = loaded ∧
    loaded = memory.load (start + UInt16.ofNat hidden) (bytes.drop hidden) ∧
    loaded.Holds (start + UInt16.ofNat hidden) (bytes.drop hidden) := by
  intro loaded hidden
  refine ⟨?_, ?_, ?_, ?_, ?_⟩
  · intro addr
    exact get_load memory start addr bytes
  · exact load_append memory start bytes
  · exact load_load memory start bytes
  · exact (load_drop memory start bytes).symm
  · have hfits : (bytes.drop hidden).length ≤ 65536 := by
      rw [List.length_drop]
      omega
    have hlast : loaded = _ := (load_drop memory start bytes).symm
    rw [hlast]
    exact holds_load hfits memory _

end Memory

end WordMachine
