import WordMachine.Proofs.Bus.Memory

/-!
# What lies where in memory

`Within` is a range of addresses, which may go past the last address to the first
one.  `Holds` says that given bytes lie from an address on, and `Stacked` that words
lie on a stack, which pushes build up (`Stacked.push`).

Both speak about a range, and two memories that agree there agree on them: what is
written outside does not matter.
-/

namespace WordMachine

/-- One of the `count` addresses from `start` on. -/
def Within (addr start : Address) (count : Nat) : Prop :=
  (addr - start).toNat < count

instance (addr start : Address) (count : Nat) : Decidable (Within addr start count) :=
  inferInstanceAs (Decidable (_ < _))

section Ranges

variable {addr start : Address} {count : Nat}

theorem within_iff_exists :
    Within addr start count ↔ ∃ i < count, addr = start + UInt16.ofNat i := by
  unfold Within
  constructor
  · intro hlt
    refine ⟨(addr - start).toNat, hlt, ?_⟩
    rw [UInt16.ofNat_toNat, UInt16.add_comm, UInt16.sub_add_cancel]
  · rintro ⟨i, hlt, rfl⟩
    rw [UInt16.add_comm, UInt16.add_sub_cancel, UInt16.toNat_ofNat']
    exact Nat.lt_of_le_of_lt (Nat.mod_le _ _) hlt

theorem within_start (hpos : 0 < count) : Within start start count := by
  simpa [Within] using hpos

theorem within_two_iff : Within addr start 2 ↔ addr = start ∨ addr = start + 1 := by
  rw [within_iff_exists]
  constructor
  · rintro ⟨i, hi, rfl⟩
    rcases Nat.lt_succ_iff_lt_or_eq.mp hi with hzero | rfl
    · obtain rfl := Nat.lt_one_iff.mp hzero
      exact .inl (UInt16.add_zero start)
    · exact .inr rfl
  · rintro (rfl | rfl)
    · exact ⟨0, Nat.two_pos, (UInt16.add_zero addr).symm⟩
    · exact ⟨1, Nat.one_lt_two, rfl⟩

theorem Within.mono {count' : Nat} (h : Within addr start count) (hle : count ≤ count') :
    Within addr start count' :=
  Nat.lt_of_lt_of_le h hle

/-- A later part of a range is in the range. -/
theorem Within.of_add {skipped : Nat}
    (h : Within addr (start + UInt16.ofNat skipped) count) :
    Within addr start (skipped + count) := by
  have haddr := addr.toNat_lt
  have hstart := start.toNat_lt
  simp only [Within, UInt16.toNat_sub, UInt16.toNat_add, UInt16.toNat_ofNat'] at h ⊢
  omega

/-- Two ranges one behind the other share no address, unless the second one comes
round to the first. -/
theorem Within.not_within_add {count' : Nat}
    (h : Within addr start count) (hroom : count + count' ≤ 65536) :
    ¬ Within addr (start + UInt16.ofNat count) count' := by
  have haddr := addr.toNat_lt
  have hstart := start.toNat_lt
  simp only [Within, UInt16.toNat_sub, UInt16.toNat_add, UInt16.toNat_ofNat'] at h ⊢
  omega

end Ranges

namespace Memory

variable {memory memory' : Memory} {addr start : Address}

/-- From `start` on lie these bytes. -/
def Holds (memory : Memory) (start : Address) (bytes : List Byte) : Prop :=
  memory.bytesFrom start bytes.length = bytes

instance (memory : Memory) (start : Address) (bytes : List Byte) :
    Decidable (memory.Holds start bytes) :=
  inferInstanceAs (Decidable (_ = _))

theorem bytesFrom_succ (memory : Memory) (start : Address) (count : Nat) :
    memory.bytesFrom start (count + 1) =
      memory.get start :: memory.bytesFrom (start + 1) count := by
  unfold bytesFrom
  rw [List.range_succ_eq_map, List.map_cons, List.map_map]
  congr 1
  · exact congrArg memory.get (UInt16.add_zero start)
  · apply List.map_congr_left
    intro i _
    have hoffset : start + UInt16.ofNat (i + 1) = start + 1 + UInt16.ofNat i := by
      rw [UInt16.ofNat_add, UInt16.add_comm (UInt16.ofNat i), UInt16.add_assoc]
      rfl
    exact congrArg memory.get hoffset

theorem bytesFrom_congr
    {count : Nat}
    (hsame : ∀ addr, Within addr start count → memory'.get addr = memory.get addr) :
    memory'.bytesFrom start count = memory.bytesFrom start count := by
  apply List.map_congr_left
  intro i hi
  exact hsame _ (within_iff_exists.mpr ⟨i, List.mem_range.mp hi, rfl⟩)

@[simp] theorem holds_cons {byte : Byte} {bytes : List Byte} :
    memory.Holds start (byte :: bytes) ↔
      memory.get start = byte ∧ memory.Holds (start + 1) bytes := by
  rw [Holds, List.length_cons, bytesFrom_succ, List.cons.injEq]
  rfl

theorem holds_append {bytes bytes' : List Byte} :
    memory.Holds start (bytes ++ bytes') ↔
      memory.Holds start bytes ∧
        memory.Holds (start + UInt16.ofNat bytes.length) bytes' := by
  induction bytes generalizing start with
  | nil =>
      have hstart : start + UInt16.ofNat ([] : List Byte).length = start := UInt16.add_zero start
      have hnil : memory.Holds start [] := rfl
      rw [hstart, List.nil_append]
      exact (and_iff_right hnil).symm
  | cons byte rest ih =>
      have hbehind : start + UInt16.ofNat (byte :: rest).length =
          start + 1 + UInt16.ofNat rest.length := by
        rw [List.length_cons, Nat.add_comm, UInt16.ofNat_add, ← UInt16.add_assoc]
        rfl
      rw [List.cons_append, holds_cons, holds_cons, ih, hbehind, and_assoc]

theorem Holds.congr
    {bytes : List Byte} (h : memory.Holds start bytes)
    (hsame : ∀ addr, Within addr start bytes.length → memory'.get addr = memory.get addr) :
    memory'.Holds start bytes := by
  rw [Holds, bytesFrom_congr hsame]
  exact h

/-! ## Loaded bytes -/

/-- What is loaded without coming round to its own start lies where it was put, and
everything else stays. -/
theorem get_load_of_fits
    {bytes : List Byte} (hfits : bytes.length ≤ 65536) (memory : Memory) (start addr : Address) :
    (memory.load start bytes).get addr =
      bytes[(addr - start).toNat]?.getD (memory.get addr) := by
  induction bytes generalizing memory start with
  | nil => rfl
  | cons byte rest ih =>
      rw [List.length_cons] at hfits
      have haddr := addr.toNat_lt
      have hstart := start.toNat_lt
      rw [load, ih (by omega), get_set]
      by_cases heq : start = addr
      · subst heq
        have hbehind : rest.length ≤ (start - (start + 1)).toNat := by
          simp only [UInt16.toNat_sub, UInt16.toNat_add, UInt16.toNat_one]
          omega
        rw [if_pos rfl, List.getElem?_eq_none hbehind, UInt16.sub_self]
        rfl
      · have hne : start.toNat ≠ addr.toNat := fun hnat => heq (UInt16.toNat_inj.mp hnat)
        have hnext : (addr - start).toNat = (addr - (start + 1)).toNat + 1 := by
          simp only [UInt16.toNat_sub, UInt16.toNat_add, UInt16.toNat_one]
          omega
        rw [if_neg heq, hnext, List.getElem?_cons_succ]

/-! ## Words -/

theorem getWord_of_holds {word : Word}
    (h : memory.Holds start [word.lowByte, word.highByte]) :
    memory.getWord start = word := by
  obtain ⟨hlow, hrest⟩ := holds_cons.mp h
  obtain ⟨hhigh, -⟩ := holds_cons.mp hrest
  rw [getWord, hlow, hhigh, Word.ofBytes_lowByte_highByte]

theorem getWord_congr
    (hsame : ∀ addr, Within addr start 2 → memory'.get addr = memory.get addr) :
    memory'.getWord start = memory.getWord start := by
  have hhigh : Within (start + 1) start 2 :=
    within_iff_exists.mpr ⟨1, Nat.one_lt_two, rfl⟩
  rw [getWord, hsame start (within_start Nat.two_pos), hsame (start + 1) hhigh, getWord]

@[simp] theorem getWord_setWord (memory : Memory) (start : Address) (word : Word) :
    (memory.setWord start word).getWord start = word := by
  rw [getWord, get_setWord_low, get_setWord_high, Word.ofBytes_lowByte_highByte]

theorem get_setWord_of_not_within
    {word : Word} (hout : ¬ Within addr start 2) :
    (memory.setWord start word).get addr = memory.get addr := by
  have hlow : start ≠ addr := by
    rintro rfl
    exact hout (within_start Nat.two_pos)
  have hhigh : start + 1 ≠ addr := by
    rintro rfl
    exact hout (within_iff_exists.mpr ⟨1, Nat.one_lt_two, rfl⟩)
  rw [setWord, get_set, if_neg hhigh, get_set, if_neg hlow]

/-! ## Stacks of words -/

/-- The words of `stack` lie one above the other from `base` on, the head of the
list on top. -/
def Stacked (memory : Memory) (base : Address) : List Word → Prop
  | [] => True
  | top :: rest =>
      memory.getWord (base + UInt16.ofNat (2 * rest.length)) = top ∧
        memory.Stacked base rest

variable {base : Address} {stack : List Word}

theorem Stacked.congr
    (h : memory.Stacked base stack)
    (hsame : ∀ addr, Within addr base (2 * stack.length) →
      memory'.get addr = memory.get addr) :
    memory'.Stacked base stack := by
  induction stack with
  | nil => trivial
  | cons top rest ih =>
      obtain ⟨htop, hrest⟩ := h
      constructor
      · rw [getWord_congr, htop]
        exact fun addr hin => hsame addr hin.of_add
      · apply ih hrest
        intro addr hin
        exact hsame addr (hin.mono (Nat.mul_le_mul_left 2 (Nat.le_succ _)))

/-- A word that is written on top of a stack is on it, as long as the stack does
not come round to its own bottom. -/
theorem Stacked.push
    (h : memory.Stacked base stack) (word : Word)
    (hroom : 2 * (stack.length + 1) ≤ 65536) :
    (memory.setWord (base + UInt16.ofNat (2 * stack.length)) word).Stacked base
      (word :: stack) := by
  constructor
  · exact getWord_setWord _ _ _
  · apply h.congr
    intro addr hin
    apply get_setWord_of_not_within
    exact hin.not_within_add hroom

end Memory

end WordMachine
