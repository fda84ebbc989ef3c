import Mathlib.Algebra.Group.Nat.Defs
import WordMachine.Word

/-!
# Words as integers

A word stands for an integer below 65536.  The operations that wrap around compute on
these integers modulo 65536; the others never leave the range.
-/

namespace WordMachine.Word

theorem toNat_complement (word : Word) : (~~~word).toNat = 65535 - word.toNat := by
  rw [UInt16.toNat_not]
  rfl

/-- A difference below zero comes round to the other end of the range. -/
theorem toNat_sub_int (x y : Word) :
    ((x - y).toNat : Int) = ((x.toNat : Int) - y.toNat) % 65536 := by
  have hx := x.toNat_lt
  have hy := y.toNat_lt
  rw [UInt16.toNat_sub]
  omega

theorem toNat_shiftLeft (value count : Word) :
    (shiftLeft value count).toNat = value.toNat * 2 ^ count.toNat % 65536 := by
  unfold shiftLeft
  split
  next hcount =>
      have hsmall : count.toNat % 16 = count.toNat :=
        Nat.mod_eq_of_lt (UInt16.lt_iff_toNat_lt.mp hcount)
      rw [UInt16.toNat_shiftLeft, hsmall, Nat.shiftLeft_eq]
  next hcount =>
      have hlarge : 16 ≤ count.toNat := UInt16.le_iff_toNat_le.mp (UInt16.not_lt.mp hcount)
      have hdvd : 65536 ∣ value.toNat * 2 ^ count.toNat :=
        Nat.dvd_mul_left_of_dvd (Nat.pow_dvd_pow 2 hlarge) _
      exact (Nat.mod_eq_zero_of_dvd hdvd).symm

theorem toNat_shiftRight (value count : Word) :
    (shiftRight value count).toNat = value.toNat / 2 ^ count.toNat := by
  unfold shiftRight
  split
  next hcount =>
      have hsmall : count.toNat % 16 = count.toNat :=
        Nat.mod_eq_of_lt (UInt16.lt_iff_toNat_lt.mp hcount)
      rw [UInt16.toNat_shiftRight, hsmall, Nat.shiftRight_eq_div_pow]
  next hcount =>
      have hlarge : 16 ≤ count.toNat := UInt16.le_iff_toNat_le.mp (UInt16.not_lt.mp hcount)
      have hvalue : value.toNat < 2 ^ count.toNat :=
        Nat.lt_of_lt_of_le value.toNat_lt (Nat.pow_le_pow_right Nat.two_pos hlarge)
      exact (Nat.div_eq_of_lt hvalue).symm

theorem toNat_ofBytes (low high : Byte) :
    (ofBytes low high).toNat = 256 * high.toNat + low.toNat := by
  have hlow := low.toNat_lt
  have hhigh := high.toNat_lt
  simp [ofBytes]
  omega

theorem toNat_ofBytes_mod (low high : Byte) : (ofBytes low high % 256).toNat = low.toNat := by
  simp [ofBytes]

end WordMachine.Word
