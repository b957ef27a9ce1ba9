import Mathlib.Algebra.Order.Ring.Int
import Mathlib.Algebra.Order.Ring.Nat

/-!
# `Timer.cpp`

The units that `ToTimeString` splits a duration into.  The number of microseconds is signed, and
all constants but the one of the first remainder are unsigned, so the other units are those of
the number modulo `2 ^ 64`.

* `timeUnits_total`: the units of a duration that is not negative make it up.
-/

namespace WarheadDiscord.Time

/-! ### `Warhead::TimeDiff` -/

def milliseconds : UInt64 := 1000

def seconds : UInt64 := 1000 * milliseconds

def minutes : UInt64 := 60 * seconds

def hours : UInt64 := 60 * minutes

def days : UInt64 := 24 * hours

/-! ### Units -/

structure TimeUnits where
  microsecs : UInt64
  millisecs : UInt64
  secs : UInt64
  minutes : UInt64
  hours : UInt64
  days : UInt64
  deriving DecidableEq, Repr

/-- The numbers at the start of `ToTimeString`. -/
def timeUnits (count : Int64) : TimeUnits where
  microsecs := (count % 1000).toUInt64
  millisecs := count.toUInt64 / milliseconds % 1000
  secs := count.toUInt64 / seconds % 60
  minutes := count.toUInt64 / minutes % 60
  hours := count.toUInt64 / hours % 24
  days := count.toUInt64 / days

/-- The microseconds that the units make up. -/
def TimeUnits.total (u : TimeUnits) : Nat :=
  u.microsecs.toNat + 1000 * (u.millisecs.toNat + 1000 * (u.secs.toNat +
    60 * (u.minutes.toNat + 60 * (u.hours.toNat + 24 * u.days.toNat))))

theorem toUInt64_toNat {count : Int64} (h : 0 ≤ count) :
    (count.toUInt64.toNat : Int) = count.toInt := by
  rw [Int64.toNat_toUInt64_of_le h, Int64.cast_toNatClampNeg _ h]

theorem mod_toUInt64 {count : Int64} (h : 0 ≤ count) :
    (count % 1000).toUInt64.toNat = count.toUInt64.toNat % 1000 := by
  have hnat := toUInt64_toNat h
  have hint : (count % 1000).toInt = count.toInt % 1000 := by
    rw [Int64.toInt_mod, ← hnat]
    rfl
  have hnonneg : 0 ≤ count % 1000 := by
    rw [Int64.le_iff_toInt_le, hint]
    exact Int.emod_nonneg _ (by decide)
  have := toUInt64_toNat hnonneg
  omega

theorem timeUnits_toNat {count : Int64} (h : 0 ≤ count) :
    (timeUnits count).microsecs.toNat = count.toUInt64.toNat % 1000 ∧
      (timeUnits count).millisecs.toNat = count.toUInt64.toNat / 1000 % 1000 ∧
      (timeUnits count).secs.toNat = count.toUInt64.toNat / 1000000 % 60 ∧
      (timeUnits count).minutes.toNat = count.toUInt64.toNat / 60000000 % 60 ∧
      (timeUnits count).hours.toNat = count.toUInt64.toNat / 3600000000 % 24 ∧
      (timeUnits count).days.toNat = count.toUInt64.toNat / 86400000000 := by
  refine ⟨mod_toUInt64 h, ?_, ?_, ?_, ?_, ?_⟩
  · rw [timeUnits, UInt64.toNat_mod, UInt64.toNat_div]
    rfl
  · rw [timeUnits, UInt64.toNat_mod, UInt64.toNat_div]
    rfl
  · rw [timeUnits, UInt64.toNat_mod, UInt64.toNat_div]
    rfl
  · rw [timeUnits, UInt64.toNat_mod, UInt64.toNat_div]
    rfl
  · rw [timeUnits, UInt64.toNat_div]
    rfl

/-- **The units of a duration that is not negative make it up.** -/
theorem timeUnits_total {count : Int64} (h : 0 ≤ count) :
    ((timeUnits count).total : Int) = count.toInt := by
  have hsplit : ∀ n : Nat, n = n % 1000 + 1000 * (n / 1000 % 1000 + 1000 * (n / 1000000 % 60 +
      60 * (n / 60000000 % 60 + 60 * (n / 3600000000 % 24 + 24 * (n / 86400000000))))) := by
    intro n
    omega
  obtain ⟨hmicro, hms, hs, hm, hh, hd⟩ := timeUnits_toNat h
  have htotal : (timeUnits count).total = count.toUInt64.toNat := by
    rw [TimeUnits.total, hmicro, hms, hs, hm, hh, hd, ← hsplit]
  rw [htotal, toUInt64_toNat h]

/-- A duration of minus one microsecond has an enormous number of each unit. -/
example : timeUnits (-1) = ⟨0xffffffffffffffff, 551, 49, 1, 8, 213503982⟩ := by decide

end WarheadDiscord.Time
