import Mathlib.Algebra.Order.Ring.Nat
import Mathlib.Data.List.Basic
import Mathlib.Data.Nat.Size
import Mathlib.Tactic.Common

/-!
# Numbers as bytes

`toLE w n` writes the low `w` bytes of `n`, least significant first, and `ofLE`
reads such bytes back.  `toBE` and `ofBE` are the same in the other order.
`ofLE_toLE` and `toLE_ofLE` say that the two are inverse to each other, the
first on the numbers that fit `w` bytes.  `numBytes_le` says which these are, by the
number of significant bytes.
-/

namespace WarheadDiscord.Lib

/-- The number whose bytes are given, least significant first. -/
def ofLE : List UInt8 → Nat
  | [] => 0
  | b :: bs => b.toNat + 256 * ofLE bs

/-- The low `w` bytes of a number, least significant first. -/
def toLE : Nat → Nat → List UInt8
  | 0, _ => []
  | w + 1, n => UInt8.ofNat n :: toLE w (n / 256)

/-- The number whose bytes are given, most significant first. -/
def ofBE (bs : List UInt8) : Nat := ofLE bs.reverse

/-- The low `w` bytes of a number, most significant first. -/
def toBE (w n : Nat) : List UInt8 := (toLE w n).reverse

@[simp] theorem toLE_length (w n : Nat) : (toLE w n).length = w := by
  induction w generalizing n with
  | zero => rfl
  | succ w ih => rw [toLE, List.length_cons, ih]

@[simp] theorem toBE_length (w n : Nat) : (toBE w n).length = w := by
  rw [toBE, List.length_reverse, toLE_length]

theorem ofLE_lt (bs : List UInt8) : ofLE bs < 256 ^ bs.length := by
  induction bs with
  | nil => exact Nat.one_pos
  | cons b bs ih =>
    have hb := b.toNat_lt
    rw [ofLE, List.length_cons, Nat.pow_succ]
    omega

theorem ofBE_lt (bs : List UInt8) : ofBE bs < 256 ^ bs.length := by
  have h := ofLE_lt bs.reverse
  rwa [List.length_reverse] at h

/-- Reading what was written gives the number modulo the width. -/
theorem ofLE_toLE_mod (w n : Nat) : ofLE (toLE w n) = n % 256 ^ w := by
  induction w generalizing n with
  | zero => rw [toLE, ofLE, Nat.pow_zero, Nat.mod_one]
  | succ w ih =>
    have hsplit : n % 256 ^ (w + 1) = n % 256 + 256 * (n / 256 % 256 ^ w) := by
      rw [Nat.pow_succ', Nat.mod_mul]
    rw [toLE, ofLE, ih, hsplit, UInt8.toNat_ofNat']

theorem ofLE_toLE {w n : Nat} (h : n < 256 ^ w) : ofLE (toLE w n) = n := by
  rw [ofLE_toLE_mod, Nat.mod_eq_of_lt h]

theorem ofBE_toBE_mod (w n : Nat) : ofBE (toBE w n) = n % 256 ^ w := by
  rw [ofBE, toBE, List.reverse_reverse, ofLE_toLE_mod]

theorem ofBE_toBE {w n : Nat} (h : n < 256 ^ w) : ofBE (toBE w n) = n := by
  rw [ofBE_toBE_mod, Nat.mod_eq_of_lt h]

theorem toLE_ofLE (bs : List UInt8) : toLE bs.length (ofLE bs) = bs := by
  induction bs with
  | nil => rfl
  | cons b bs ih =>
    have hb := b.toNat_lt
    have hmod : UInt8.ofNat (b.toNat + 256 * ofLE bs) = b := by
      apply UInt8.toNat_inj.mp
      rw [UInt8.toNat_ofNat']
      omega
    have hdiv : (b.toNat + 256 * ofLE bs) / 256 = ofLE bs := by omega
    rw [List.length_cons, ofLE, toLE, hmod, hdiv, ih]

theorem toBE_ofBE (bs : List UInt8) : toBE bs.length (ofBE bs) = bs := by
  have h := toLE_ofLE bs.reverse
  rw [List.length_reverse] at h
  rw [toBE, ofBE, h, List.reverse_reverse]

/-- The number of significant bytes. -/
def numBytes (n : Nat) : Nat := (n.size + 7) / 8

theorem numBytes_le {n w : Nat} : numBytes n ≤ w ↔ n < 256 ^ w := by
  have hpow : 256 ^ w = 2 ^ (8 * w) := by rw [Nat.pow_mul]
  rw [hpow, ← Nat.size_le, numBytes]
  omega

theorem numBytes_eq_zero {n : Nat} : numBytes n = 0 ↔ n = 0 := by
  rw [← Nat.le_zero, numBytes_le, Nat.pow_zero, Nat.lt_one_iff]

theorem ofLE_inj {xs ys : List UInt8} (hl : xs.length = ys.length) (h : ofLE xs = ofLE ys) :
    xs = ys := by
  rw [← toLE_ofLE xs, ← toLE_ofLE ys, hl, h]

theorem ofBE_inj {xs ys : List UInt8} (hl : xs.length = ys.length) (h : ofBE xs = ofBE ys) :
    xs = ys := by
  rw [← toBE_ofBE xs, ← toBE_ofBE ys, hl, h]

end WarheadDiscord.Lib
