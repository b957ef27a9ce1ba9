import Mathlib.Algebra.Order.Ring.Nat

/-!
# Unsigned arithmetic

Sums, differences and products modulo `M`, on the numbers below `M`, and the signed integers of 32
bits that they become.

* `wrapAdd_le_iff`: what a bounds check of a sum lets through.
-/

namespace WarheadDiscord.Lib

def wrapAdd (M a b : Nat) : Nat := (a + b) % M

def wrapSub (M a b : Nat) : Nat := (a + (M - b)) % M

def wrapMul (M a b : Nat) : Nat := a * b % M

variable {M a b s : Nat}

theorem wrapAdd_of_lt (h : a + b < M) : wrapAdd M a b = a + b := Nat.mod_eq_of_lt h

theorem wrapAdd_of_le (ha : a < M) (hb : b < M) (h : M ≤ a + b) : wrapAdd M a b = a + b - M := by
  rw [wrapAdd, Nat.mod_eq_sub_mod h, Nat.mod_eq_of_lt (by omega)]

theorem wrapSub_of_le (ha : a < M) (h : b ≤ a) : wrapSub M a b = a - b := by
  have hsum : a + (M - b) = a - b + M := by omega
  rw [wrapSub, hsum, Nat.add_mod_right, Nat.mod_eq_of_lt (by omega)]

theorem wrapMul_of_lt (h : a * b < M) : wrapMul M a b = a * b := Nat.mod_eq_of_lt h

/-- The conversion to a signed integer of 32 bits. -/
def toInt32 (n : Nat) : Int := Int.bmod n (2 ^ 32)

theorem toInt32_of_lt {n : Nat} (h : n < 2 ^ 31) : toInt32 n = n :=
  Int.bmod_eq_of_le (by omega) (by omega)

/-- **A checked sum is in bounds or has wrapped.** -/
theorem wrapAdd_le_iff (ha : a < M) (hb : b < M) :
    wrapAdd M a b ≤ s ↔ a + b ≤ s ∨ (M ≤ a + b ∧ a + b - M ≤ s) := by
  by_cases h : a + b < M
  · rw [wrapAdd_of_lt h]
    omega
  · rw [wrapAdd_of_le ha hb (by omega)]
    omega

end WarheadDiscord.Lib
