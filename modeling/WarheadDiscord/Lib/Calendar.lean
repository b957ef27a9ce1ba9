import Mathlib.Algebra.Order.Ring.Nat
import Mathlib.Tactic.IntervalCases

/-!
# The civil calendar

Days are counted from the first of January 1970, years from 1970, and the days of a month and
the months of a year from zero.  A day is found by walking over the years and then over the
months, and counted by adding up their lengths.

* `total`, `locate`: the start of a segment of a line, and the segment of a position.
* `locate_spec`, `locate_total_add`: the two are inverse to each other.
* `civil`, `dayNumber`: the same for years and months.
-/

namespace WarheadDiscord.Lib

/-! ### Segments of a line -/

/-- Where segment `k` starts, for segments of the given lengths. -/
def total (len : Nat → Nat) : Nat → Nat
  | 0 => 0
  | k + 1 => total len k + len k

/-- The walk from segment `k` on, to the one that `n` falls into, and the place in it. -/
def locateFrom (len : Nat → Nat) : Nat → Nat → Nat → Nat × Nat
  | 0, k, n => (k, n)
  | fuel + 1, k, n => if n < len k then (k, n) else locateFrom len fuel (k + 1) (n - len k)

/-- The segment of a position, and the place in it. -/
def locate (len : Nat → Nat) (n : Nat) : Nat × Nat := locateFrom len n 0 n

section Segments

variable {len : Nat → Nat} {k m n r : Nat}

theorem total_mono (h : k ≤ m) : total len k ≤ total len m := by
  induction m, h using Nat.le_induction with
  | base => exact Nat.le_refl _
  | succ m _ ih => exact Nat.le_trans ih (Nat.le_add_right _ _)

/-- **A place in a segment is before the segments behind it.** -/
theorem total_add_lt_iff (h : r < len k) : total len k + r < total len m ↔ k < m := by
  constructor
  · intro hlt
    by_contra hle
    have hmono : total len m ≤ total len k := total_mono (by omega)
    omega
  · intro hlt
    have hmono : total len (k + 1) ≤ total len m := total_mono (by omega)
    rw [total] at hmono
    omega

theorem locateFrom_spec (hpos : ∀ k, 0 < len k) : ∀ (fuel k n : Nat), n ≤ fuel →
    total len (locateFrom len fuel k n).1 + (locateFrom len fuel k n).2 = total len k + n ∧
      (locateFrom len fuel k n).2 < len (locateFrom len fuel k n).1 := by
  intro fuel
  induction fuel with
  | zero =>
    intro k n hn
    have h0 : n = 0 := by omega
    subst h0
    exact ⟨rfl, hpos k⟩
  | succ fuel ih =>
    intro k n hn
    rw [locateFrom]
    by_cases hlt : n < len k
    · rw [if_pos hlt]
      exact ⟨rfl, hlt⟩
    · have hk := hpos k
      obtain ⟨hsum, hplace⟩ := ih (k + 1) (n - len k) (by omega)
      rw [if_neg hlt, hsum, total]
      exact ⟨by omega, hplace⟩

/-- **The segment that is found holds the position.** -/
theorem locate_spec (hpos : ∀ k, 0 < len k) (n : Nat) :
    total len (locate len n).1 + (locate len n).2 = n ∧
      (locate len n).2 < len (locate len n).1 := by
  have h := locateFrom_spec hpos n 0 n (Nat.le_refl n)
  rw [total, Nat.zero_add] at h
  exact h

end Segments

/-! ### Years and months -/

def IsLeap (year : Nat) : Prop := year % 4 = 0 ∧ (year % 100 ≠ 0 ∨ year % 400 = 0)

instance (year : Nat) : Decidable (IsLeap year) := inferInstanceAs (Decidable (_ ∧ _))

/-- The length of year `1970 + k`. -/
def yearLength (k : Nat) : Nat := if IsLeap (1970 + k) then 366 else 365

/-- The length of month `m` of year `1970 + k`. -/
def monthLength (k m : Nat) : Nat :=
  if m = 1 then if IsLeap (1970 + k) then 29 else 28
  else if m = 3 ∨ m = 5 ∨ m = 8 ∨ m = 10 then 30
  else 31

theorem yearLength_pos (k : Nat) : 0 < yearLength k := by
  rw [yearLength]
  split <;> decide

theorem monthLength_pos (k m : Nat) : 0 < monthLength k m := by
  rw [monthLength]
  split
  · split <;> decide
  · split <;> decide

theorem monthLength_le (k m : Nat) : monthLength k m ≤ 31 := by
  rw [monthLength]
  split
  · split <;> decide
  · split <;> decide

theorem total_monthLength (k : Nat) : total (monthLength k) 12 = yearLength k := by
  by_cases h : IsLeap (1970 + k) <;> simp [total, monthLength, yearLength, h]

/-- A date: the year from 1970, the month and the day of the month, each from zero. -/
structure Civil where
  year : Nat
  month : Nat
  day : Nat
  deriving DecidableEq, Repr

/-- The date of a day. -/
def civil (days : Nat) : Civil :=
  let (year, dayOfYear) := locate yearLength days
  let (month, day) := locate (monthLength year) dayOfYear
  ⟨year, month, day⟩

/-- The day of a date.  Months behind December belong to the next year, and days behind the end
of the month to the next month. -/
def dayNumber (c : Civil) : Nat :=
  total yearLength (c.year + c.month / 12) +
    total (monthLength (c.year + c.month / 12)) (c.month % 12) + c.day

/-- A month of the year and a day of the month. -/
structure Civil.Exists (c : Civil) : Prop where
  month_lt : c.month < 12
  day_lt : c.day < monthLength c.year c.month

theorem civil_exists (days : Nat) : (civil days).Exists := by
  obtain ⟨-, hyear⟩ := locate_spec yearLength_pos days
  obtain ⟨hsum, hday⟩ := locate_spec (monthLength_pos (locate yearLength days).1)
    (locate yearLength days).2
  refine ⟨?_, hday⟩
  rw [← total_monthLength, ← hsum] at hyear
  exact (total_add_lt_iff hday).mp hyear

/-- The day of the year of a date. -/
def Civil.dayOfYear (c : Civil) : Nat := total (monthLength c.year) c.month + c.day

theorem Civil.Exists.dayNumber_eq {c : Civil} (h : c.Exists) :
    dayNumber c = total yearLength c.year + c.dayOfYear := by
  rw [dayNumber, Nat.div_eq_of_lt h.month_lt, Nat.mod_eq_of_lt h.month_lt, Nat.add_zero,
    Nat.add_assoc]
  rfl

theorem Civil.Exists.dayOfYear_lt {c : Civil} (h : c.Exists) : c.dayOfYear < yearLength c.year := by
  rw [← total_monthLength]
  exact (total_add_lt_iff h.day_lt).mpr h.month_lt

/-- **Every day has its date.** -/
theorem dayNumber_civil (days : Nat) : dayNumber (civil days) = days := by
  obtain ⟨hyear, -⟩ := locate_spec yearLength_pos days
  obtain ⟨hmonth, -⟩ := locate_spec (monthLength_pos (locate yearLength days).1)
    (locate yearLength days).2
  rw [(civil_exists days).dayNumber_eq]
  exact (congrArg (_ + ·) hmonth).trans hyear

/-- **The years are in order.** -/
theorem dayNumber_lt_iff {c : Civil} (h : c.Exists) (m : Nat) :
    dayNumber c < total yearLength m ↔ c.year < m := by
  rw [h.dayNumber_eq]
  exact total_add_lt_iff h.dayOfYear_lt

theorem total_le_dayNumber_iff {c : Civil} (h : c.Exists) (m : Nat) :
    total yearLength m ≤ dayNumber c ↔ m ≤ c.year := by
  rw [← not_lt, dayNumber_lt_iff h, not_lt]

/-- A date that exists in a leap year, in another year, is not behind its end. -/
theorem dayNumber_lt_of_month {c : Civil} (hm : c.month < 12) (hd : c.day < 31)
    (hfeb : c.month = 1 → c.day < 29) :
    dayNumber c < total yearLength (c.year + 1) := by
  obtain ⟨year, month, day⟩ := c
  dsimp only at hm hd hfeb
  have hday : total (monthLength year) month + day < yearLength year := by
    rw [yearLength]
    interval_cases month <;> by_cases hleap : IsLeap (1970 + year) <;>
      simp [total, monthLength, hleap] <;> omega
  rw [dayNumber, Nat.div_eq_of_lt hm, Nat.mod_eq_of_lt hm, Nat.add_zero, total]
  dsimp only
  omega

end WarheadDiscord.Lib
