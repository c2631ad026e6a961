import Mathlib.Tactic.Common
import Mathlib.Algebra.Group.Nat.Defs

/-!
# Masks, shifts and sums of 32-bit words as arithmetic
-/

namespace OsLearn

theorem nat_and_mask (x n k : Nat) : x &&& ((2 ^ k - 1) <<< n) = x / 2 ^ n % 2 ^ k * 2 ^ n := by
  apply Nat.eq_of_testBit_eq
  intro i
  rw [Nat.testBit_and, Nat.testBit_shiftLeft, Nat.testBit_two_pow_sub_one, ← Nat.shiftLeft_eq,
    Nat.testBit_shiftLeft, Nat.testBit_mod_two_pow, Nat.testBit_div_two_pow]
  by_cases h : i ≥ n
  · simp only [h, decide_true, Bool.true_and]
    rw [Nat.sub_add_cancel h, Bool.and_comm]
  · simp [h]

theorem nat_or_add (a b n : Nat) (hb : b < 2 ^ n) : 2 ^ n * a ||| b = 2 ^ n * a + b :=
  (Nat.two_pow_add_eq_or_of_lt hb a).symm

theorem u32_and_one (e : UInt32) : e &&& 1 ≠ 0 ↔ e.toNat % 2 = 1 := by
  rw [ne_eq, ← UInt32.toNat_inj, UInt32.toNat_and]
  show ¬ e.toNat &&& 1 = 0 ↔ _
  rw [Nat.and_one_is_mod]
  omega

theorem u32_and_page (e : UInt32) : (e &&& 0xfffff000).toNat = e.toNat / 2 ^ 12 * 2 ^ 12 := by
  have he := e.toNat_lt
  rw [UInt32.toNat_and]
  show e.toNat &&& ((2 ^ 20 - 1) <<< 12) = _
  rw [nat_and_mask, Nat.mod_eq_of_lt (by omega)]

theorem u32_and_offset (e : UInt32) : (e &&& 0xfff).toNat = e.toNat % 2 ^ 12 := by
  rw [UInt32.toNat_and]
  show e.toNat &&& (2 ^ 12 - 1) = _
  rw [Nat.and_two_pow_sub_one_eq_mod]

theorem u32_and_low16 (e : UInt32) : (e &&& 0xffff).toNat = e.toNat % 2 ^ 16 := by
  rw [UInt32.toNat_and]
  show e.toNat &&& (2 ^ 16 - 1) = _
  rw [Nat.and_two_pow_sub_one_eq_mod]

theorem u32_low16 (e : UInt32) : (e &&& 0xffff).toUInt16.toNat = e.toNat % 2 ^ 16 := by
  rw [UInt32.toNat_toUInt16, u32_and_low16, Nat.mod_mod]

theorem u32_shr (e : UInt32) (n : Nat) (hn : n < 32) : (e >>> UInt32.ofNat n).toNat = e.toNat / 2 ^ n := by
  rw [UInt32.toNat_shiftRight, UInt32.toNat_ofNat_of_lt' (by show n < 2 ^ 32; omega), Nat.mod_eq_of_lt hn,
    Nat.shiftRight_eq_div_pow]

theorem toNat_add_small (a : UInt32) (n : Nat) (h : a.toNat + n < 2 ^ 32) :
    (a + UInt32.ofNat n).toNat = a.toNat + n := by
  rw [UInt32.toNat_add, UInt32.toNat_ofNat', Nat.mod_eq_of_lt (a := n) (by omega), Nat.mod_eq_of_lt h]

theorem add_ofNat_succ (a : UInt32) (n : Nat) : a + UInt32.ofNat (n + 1) = a + 1 + UInt32.ofNat n := by
  rw [UInt32.add_assoc, UInt32.add_comm 1, UInt32.ofNat_add]
  rfl

end OsLearn
