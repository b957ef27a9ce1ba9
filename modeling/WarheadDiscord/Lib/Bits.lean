import Mathlib.Algebra.Order.Ring.Nat
import Mathlib.Data.Nat.Bitwise

/-!
# Bit operations as arithmetic

Fields that are put together with shifts and `|||` and taken apart with shifts and `&&&`, told
as sums, quotients and remainders.
-/

namespace WarheadDiscord.Lib

/-- **A field above the bits that are used is added.** -/
theorem or_shiftLeft {a i : Nat} (h : a < 2 ^ i) (b : Nat) : a ||| b <<< i = a + 2 ^ i * b := by
  rw [Nat.shiftLeft_eq, Nat.mul_comm, Nat.or_comm, ← Nat.two_pow_add_eq_or_of_lt h, Nat.add_comm]

theorem shiftLeft_or {b i : Nat} (h : b < 2 ^ i) (a : Nat) : a <<< i ||| b = 2 ^ i * a + b := by
  rw [Nat.or_comm, or_shiftLeft h, Nat.add_comm]

theorem shiftLeft_or_shiftLeft {x w : Nat} (h : x < 2 ^ w) (a i : Nat) :
    a <<< (w + i) ||| x <<< i = (2 ^ w * a + x) <<< i := by
  rw [Nat.shiftLeft_add, ← Nat.shiftLeft_or_distrib, shiftLeft_or h]

theorem shiftRight_and (n i w : Nat) : n >>> i &&& (2 ^ w - 1) = n / 2 ^ i % 2 ^ w := by
  rw [Nat.shiftRight_eq_div_pow, Nat.and_two_pow_sub_one_eq_mod]

theorem and_shiftLeft_one_ne_zero_iff (n i : Nat) : n &&& 1 <<< i ≠ 0 ↔ n / 2 ^ i % 2 = 1 := by
  rw [Nat.one_shiftLeft, Nat.and_two_pow, Nat.testBit_eq_decide_div_mod_eq]
  by_cases h : n / 2 ^ i % 2 = 1 <;> simp [h]

end WarheadDiscord.Lib
