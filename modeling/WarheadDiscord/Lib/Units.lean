import Mathlib.Algebra.BigOperators.Group.List.Basic
import Mathlib.Algebra.Order.Ring.Nat
import Mathlib.Tactic.Common

/-!
# Numbers in units

A number is split into units of given sizes, the first of them as often as it goes, and the next
ones in what is left.

* `split`: the amount of each unit.
* `shown`: the first few units whose amount is not zero.
* `value_split`: the units make up the number, but for what the last one leaves.
* `shown_spec`: a few of them are too little by less than one of the last of these.
-/

namespace WarheadDiscord.Lib.Units

variable {ι : Type*} {size : ι → ℕ} {units : List ι} {n k : ℕ}

def split (size : ι → ℕ) : List ι → ℕ → List (ι × ℕ)
  | [], _ => []
  | i :: units, n => (i, n / size i) :: split size units (n % size i)

/-- What all the units leave. -/
def rest (size : ι → ℕ) : List ι → ℕ → ℕ
  | [], n => n
  | i :: units, n => rest size units (n % size i)

/-- What some amounts of units make up. -/
def value (size : ι → ℕ) (amounts : List (ι × ℕ)) : ℕ := (amounts.map fun p => size p.1 * p.2).sum

/-- The units whose amount is not zero. -/
def nonzero (amounts : List (ι × ℕ)) : List (ι × ℕ) := amounts.filter fun p => p.2 ≠ 0

def shown (k : ℕ) (amounts : List (ι × ℕ)) : List (ι × ℕ) := (nonzero amounts).take k

@[simp] theorem value_nil : value size [] = 0 := rfl

@[simp] theorem value_cons (p : ι × ℕ) (amounts : List (ι × ℕ)) :
    value size (p :: amounts) = size p.1 * p.2 + value size amounts := by
  rw [value, List.map_cons, List.sum_cons, ← value]

/-- **The units make up the number.** -/
theorem value_split (size : ι → ℕ) (units : List ι) (n : ℕ) :
    value size (split size units n) + rest size units n = n := by
  induction units generalizing n with
  | nil => exact Nat.zero_add n
  | cons i units ih =>
    rw [split, rest, value_cons, Nat.add_assoc, ih, Nat.div_add_mod]

theorem value_nonzero (amounts : List (ι × ℕ)) :
    value size (nonzero amounts) = value size amounts := by
  induction amounts with
  | nil => rfl
  | cons p amounts ih =>
    rw [nonzero] at ih ⊢
    by_cases hp : p.2 = 0
    · rw [List.filter_cons_of_neg (by simpa using hp), value_cons, hp, Nat.mul_zero, Nat.zero_add,
        ih]
    · rw [List.filter_cons_of_pos (by simpa using hp), value_cons, value_cons, ih]

theorem length_split (units : List ι) (n : ℕ) : (split size units n).length = units.length := by
  induction units generalizing n with
  | nil => rfl
  | cons i units ih => rw [split, List.length_cons, List.length_cons, ih]

theorem shown_of_length_le (hk : units.length ≤ k) :
    shown k (split size units n) = nonzero (split size units n) := by
  refine List.take_of_length_le (Nat.le_trans (List.length_filter_le _ _) ?_)
  rw [length_split]
  exact hk

/-- **The first few units** are at most the number, and too little by less than one of the last of
them. -/
theorem shown_spec (hpos : ∀ i ∈ units, 0 < size i) (n k : ℕ) :
    value size (shown k (split size units n)) ≤ n ∧
      ∀ p ∈ (shown k (split size units n)).getLast?,
        n - value size (shown k (split size units n)) < size p.1 := by
  induction units generalizing n k with
  | nil =>
    rw [split, shown, nonzero, List.filter_nil, List.take_nil]
    exact ⟨Nat.zero_le n, fun p hp => by cases hp⟩
  | cons i units ih =>
    have hi : 0 < size i := hpos i List.mem_cons_self
    have hdiv := Nat.div_add_mod n (size i)
    have ih := ih (fun j hj => hpos j (List.mem_cons_of_mem i hj)) (n % size i)
    rw [split, shown, nonzero]
    by_cases hzero : n / size i = 0
    · -- Nothing is left out.
      rw [hzero, Nat.mul_zero, Nat.zero_add] at hdiv
      rw [List.filter_cons_of_neg (by rw [decide_eq_true_eq]; exact not_not.mpr hzero)]
      have hrest := ih k
      rw [hdiv] at hrest ⊢
      exact hrest
    · rw [List.filter_cons_of_pos (by rw [decide_eq_true_eq]; exact hzero)]
      cases k with
      | zero => exact ⟨Nat.zero_le n, fun p hp => by cases hp⟩
      | succ k =>
        obtain ⟨hle, hlast⟩ := ih k
        rw [shown, nonzero] at hle hlast
        rw [List.take_succ_cons, value_cons]
        refine ⟨by dsimp only; omega, fun p hp => ?_⟩
        cases htail :
            ((split size units (n % size i)).filter fun p => decide (p.2 ≠ 0)).take k with
        | nil =>
          rw [htail] at hp
          obtain rfl : (i, n / size i) = p := Option.some.inj hp
          have hmod := Nat.mod_lt n hi
          rw [value_nil]
          dsimp only
          omega
        | cons q qs =>
          rw [htail] at hp hle hlast
          rw [List.getLast?_cons_cons] at hp
          have hlt := hlast p hp
          dsimp only
          omega

end WarheadDiscord.Lib.Units
