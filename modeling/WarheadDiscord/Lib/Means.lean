import Mathlib.Algebra.Order.Ring.Nat
import Mathlib.Tactic.Linarith
import Mathlib.Tactic.Ring

/-!
# Means

The mean of some numbers, and their mean with each of them as its own weight, both rounded down.

* `sum_mul_sum_le`, `squares_le_sum_mul_sum`: the square of a sum against the sum of the squares.
* `mean_le_weighted`, `weighted_le`: the weighted mean is between the mean and the greatest number.
* `div_eq_iff_of_le`: a quotient that is not too small.
* `mod_div_eq_iff`: a quotient whose dividend is reduced.
* `mod_div_mod_eq_iff`: one whose divisor is reduced too.
-/

namespace WarheadDiscord.Lib

def squares (l : List ℕ) : ℕ := (l.map fun x => x * x).sum

@[simp] theorem squares_cons (x : ℕ) (l : List ℕ) : squares (x :: l) = x * x + squares l := by
  rw [squares, List.map_cons, List.sum_cons, ← squares]

theorem two_mul_sum_le (x : ℕ) (l : List ℕ) :
    2 * x * l.sum ≤ l.length * (x * x) + squares l := by
  induction l with
  | nil => simp [squares]
  | cons y l ih =>
    have hxy : 2 * x * y ≤ x * x + y * y := by
      have h := two_mul_le_add_sq x y
      rwa [sq, sq] at h
    rw [List.sum_cons, List.length_cons, squares_cons]
    linarith

/-- **The square of a sum** is at most the sum of the squares, as often as there are numbers. -/
theorem sum_mul_sum_le (l : List ℕ) : l.sum * l.sum ≤ l.length * squares l := by
  induction l with
  | nil => simp
  | cons x l ih =>
    have hcross := two_mul_sum_le x l
    rw [List.sum_cons, List.length_cons, squares_cons]
    linarith

theorem sum_le_squares (l : List ℕ) : l.sum ≤ squares l := by
  induction l with
  | nil => simp
  | cons x l ih =>
    have hx : x ≤ x * x := Nat.le_mul_self x
    rw [List.sum_cons, squares_cons]
    omega

theorem squares_le_sum_mul_sum (l : List ℕ) : squares l ≤ l.sum * l.sum := by
  induction l with
  | nil => simp [squares]
  | cons x l ih =>
    have hcross := Nat.zero_le (2 * x * l.sum)
    rw [List.sum_cons, squares_cons]
    linarith

theorem mean_le_weighted (l : List ℕ) : l.sum / l.length ≤ squares l / l.sum := by
  rcases Nat.eq_zero_or_pos l.sum with hzero | hpos
  · simp [hzero]
  · have hlength : 0 < l.length := by
      rw [List.length_pos_iff]
      rintro rfl
      simp at hpos
    rw [Nat.le_div_iff_mul_le hpos]
    refine Nat.le_of_mul_le_mul_left ?_ hlength
    calc l.length * (l.sum / l.length * l.sum)
        = l.length * (l.sum / l.length) * l.sum := by rw [Nat.mul_assoc]
      _ ≤ l.sum * l.sum := Nat.mul_le_mul_right _ (Nat.mul_div_le _ _)
      _ ≤ l.length * squares l := sum_mul_sum_le l

theorem weighted_le {l : List ℕ} {m : ℕ} (h : ∀ x ∈ l, x ≤ m) : squares l / l.sum ≤ m := by
  apply Nat.div_le_of_le_mul
  induction l with
  | nil => simp [squares]
  | cons x l ih =>
    have hx : x * x ≤ x * m := Nat.mul_le_mul_left x (h x List.mem_cons_self)
    have hl := ih fun y hy => h y (List.mem_cons_of_mem x hy)
    rw [List.sum_cons, squares_cons, Nat.add_mul]
    exact Nat.add_le_add hx hl

theorem div_eq_iff_of_le {a d q : ℕ} (hd : 0 < d) (hle : q ≤ a / d) :
    a / d = q ↔ a < d * (q + 1) := by
  rw [Nat.mul_comm, ← Nat.div_lt_iff_lt_mul hd, Nat.lt_succ_iff]
  exact ⟨Nat.le_of_eq, fun h => Nat.le_antisymm h hle⟩

/-- A dividend that is reduced modulo more than the divisor gives another quotient. -/
theorem mod_div_eq_iff {M q w : ℕ} (hpos : 0 < w) (hw : w < M) : q % M / w = q / w ↔ q < M := by
  constructor
  · intro h
    by_contra hle
    have hdiv : 1 ≤ q / M := (Nat.le_div_iff_mul_le (by omega)).mpr (by omega)
    have hstep : q % M + w ≤ q := by
      have hq := Nat.mod_add_div q M
      have hM : M * 1 ≤ M * (q / M) := Nat.mul_le_mul_left M hdiv
      omega
    have hlt : q % M / w + 1 ≤ q / w := by
      rw [← Nat.add_div_right _ hpos]
      exact Nat.div_le_div_right hstep
    omega
  · intro h
    rw [Nat.mod_eq_of_lt h]

/-- If both are reduced, the quotients can still agree by accident. -/
theorem mod_div_mod_eq_iff {M q w : ℕ} (hM : 0 < M) (hle : w ≤ q) (hmul : q ≤ w * w) :
    q % M / (w % M) = q / w ↔
      q < M ∨ M ≤ w ∧ w % M * (q / w) ≤ q % M ∧ q % M < w % M * (q / w + 1) := by
  by_cases hw : w < M
  · rw [Nat.mod_eq_of_lt hw]
    rcases Nat.eq_zero_or_pos w with rfl | hpos
    · have hq : q = 0 := Nat.le_zero.mp hmul
      rw [Nat.div_zero, Nat.div_zero, hq]
      exact iff_of_true rfl (Or.inl hM)
    · rw [mod_div_eq_iff hpos hw, or_iff_left fun h => Nat.not_le.mpr hw h.1]
  · have hw : M ≤ w := Nat.not_lt.mp hw
    have hwpos : 0 < w := Nat.lt_of_lt_of_le hM hw
    have hqpos : 0 < q / w := Nat.div_pos hle hwpos
    rw [or_iff_right (Nat.not_lt.mpr (Nat.le_trans hw hle)), and_iff_right hw]
    rcases Nat.eq_zero_or_pos (w % M) with hzero | hpos
    · rw [hzero, Nat.div_zero, Nat.zero_mul, Nat.zero_mul]
      exact iff_of_false (Nat.ne_of_lt hqpos) fun h => Nat.not_lt_zero _ h.2
    · rw [Nat.mul_comm, Nat.mul_comm (w % M) (q / w + 1), ← Nat.le_div_iff_mul_le hpos,
        ← Nat.div_lt_iff_lt_mul hpos, Nat.lt_succ_iff]
      exact ⟨fun h => ⟨Nat.le_of_eq h.symm, Nat.le_of_eq h⟩, fun h => Nat.le_antisymm h.2 h.1⟩

end WarheadDiscord.Lib
