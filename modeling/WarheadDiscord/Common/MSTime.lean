import Mathlib.Algebra.Order.Ring.Nat
import Mathlib.Tactic.Common

/-!
# Differences of `getMSTime`

The milliseconds since the start, of which 32 bits are kept.  When these start again from zero,
`getMSTimeDiff` counts from `0xFFFFFFFF` and is short by one.

* `getMSTimeDiff_spec`: the difference, with and without such a restart.
* `durations_sum`: the differences add up to the time less the restarts.
* `durations_iff`: when they add up to the time.
-/

namespace WarheadDiscord.Time

/-- `getMSTime`, when `now` milliseconds have passed since the start. -/
def getMSTime (now : Nat) : UInt32 := UInt32.ofNat now

def getMSTimeDiff (oldMSTime newMSTime : UInt32) : UInt32 :=
  if oldMSTime > newMSTime then (0xFFFFFFFF - oldMSTime) + newMSTime
  else newMSTime - oldMSTime

def getMSTimeDiffToNow (now : Nat) (oldMSTime : UInt32) : UInt32 :=
  getMSTimeDiff oldMSTime (getMSTime now)

/-- `UpdateTime::_RecordUpdateTimeDuration`: the difference, and the new `_recordedTime`. -/
def recordUpdateTimeDuration (recordedTime : UInt32) (now : Nat) : UInt32 × UInt32 :=
  (getMSTimeDiffToNow now recordedTime, getMSTime now)

/-- The differences of its calls at some times. -/
def durations (recordedTime : UInt32) : List Nat → List UInt32
  | [] => []
  | now :: times =>
    (recordUpdateTimeDuration recordedTime now).1 ::
      durations (recordUpdateTimeDuration recordedTime now).2 times

/-! ### Two readings -/

theorem toNat_getMSTime (now : Nat) : (getMSTime now).toNat = now % 2 ^ 32 := UInt32.toNat_ofNat'

/-- How often the 32 bits have started again. -/
def restarts (now : Nat) : Nat := now / 2 ^ 32

/-- **The difference is short by one where the 32 bits start again.** -/
theorem getMSTimeDiff_spec {t₀ t₁ : Nat} (hle : t₀ ≤ t₁) (hlt : t₁ - t₀ < 2 ^ 32) :
    (getMSTimeDiff (getMSTime t₀) (getMSTime t₁)).toNat + (restarts t₁ - restarts t₀) =
      t₁ - t₀ := by
  have h₀ := toNat_getMSTime t₀
  have h₁ := toNat_getMSTime t₁
  rw [getMSTimeDiff, restarts, restarts]
  by_cases hwrap : getMSTime t₀ > getMSTime t₁
  · have hnat : (getMSTime t₁).toNat < (getMSTime t₀).toNat := UInt32.lt_iff_toNat_lt.mp hwrap
    have hmax : (0xFFFFFFFF : UInt32).toNat = 4294967295 := rfl
    rw [if_pos hwrap, UInt32.toNat_add, UInt32.toNat_sub, hmax]
    omega
  · have hnat : (getMSTime t₀).toNat ≤ (getMSTime t₁).toNat :=
      UInt32.le_iff_toNat_le.mp (UInt32.not_lt.mp hwrap)
    rw [if_neg hwrap, UInt32.toNat_sub]
    omega

/-! ### Many readings -/

/-- Each reading is not before the one in front of it, and less than `2 ^ 32` milliseconds later. -/
def Readings : Nat → List Nat → Prop
  | _, [] => True
  | t, t' :: times => t ≤ t' ∧ t' - t < 2 ^ 32 ∧ Readings t' times

/-- The times between the readings. -/
def elapsed : Nat → List Nat → List Nat
  | _, [] => []
  | t, t' :: times => (t' - t) :: elapsed t' times

theorem Readings.le_last {t : Nat} {times : List Nat} (h : Readings t times) :
    t ≤ times.getLastD t := by
  induction times generalizing t with
  | nil => exact Nat.le_refl t
  | cons t' times ih =>
    rw [List.getLastD_cons]
    exact Nat.le_trans h.1 (ih h.2.2)

theorem durations_cons (t t' : Nat) (times : List Nat) :
    durations (getMSTime t) (t' :: times) =
      getMSTimeDiff (getMSTime t) (getMSTime t') :: durations (getMSTime t') times := rfl

theorem restarts_le {t₀ t₁ : Nat} (h : t₀ ≤ t₁) : restarts t₀ ≤ restarts t₁ :=
  Nat.div_le_div_right h

/-- **The differences add up to the time between the first reading and the last**, less one for
each restart. -/
theorem durations_sum {t : Nat} {times : List Nat} (h : Readings t times) :
    ((durations (getMSTime t) times).map UInt32.toNat).sum +
      (restarts (times.getLastD t) - restarts t) = times.getLastD t - t := by
  induction times generalizing t with
  | nil => simp [durations]
  | cons t' times ih =>
    obtain ⟨hle, hlt, hrest⟩ := h
    have hfirst := getMSTimeDiff_spec hle hlt
    have hsum := ih hrest
    have hlast := hrest.le_last
    have hstart := restarts_le hle
    have hend := restarts_le hlast
    rw [durations_cons, List.map_cons, List.sum_cons, List.getLastD_cons]
    omega

theorem durations_exact {t : Nat} {times : List Nat} (h : Readings t times)
    (hsame : restarts (times.getLastD t) = restarts t) :
    (durations (getMSTime t) times).map UInt32.toNat = elapsed t times := by
  induction times generalizing t with
  | nil => rfl
  | cons t' times ih =>
    obtain ⟨hle, hlt, hrest⟩ := h
    rw [List.getLastD_cons] at hsame
    have hstart := restarts_le hle
    have hend := restarts_le hrest.le_last
    have hfirst := getMSTimeDiff_spec hle hlt
    have hnone : restarts t' - restarts t = 0 := by omega
    rw [hnone, Nat.add_zero] at hfirst
    rw [durations_cons, List.map_cons, elapsed, hfirst, ih hrest (by omega)]

/-- **When the differences are exact.**  Each of them is the time between its readings, and
together they are the time from the first reading to the last, if and only if the 32 bits do not
start again in between. -/
theorem durations_iff (t : Nat) (times : List Nat) (h : Readings t times) :
    ((durations (getMSTime t) times).map UInt32.toNat = elapsed t times ∧
        ((durations (getMSTime t) times).map UInt32.toNat).sum = times.getLastD t - t) ↔
      restarts (times.getLastD t) = restarts t := by
  have hsum := durations_sum h
  have hend := restarts_le h.le_last
  constructor
  · rintro ⟨-, htotal⟩
    omega
  · intro hsame
    exact ⟨durations_exact h hsame, by omega⟩

theorem durations_iff_two :
    (durations (getMSTime 5) [7, 7]).map UInt32.toNat = elapsed 5 [7, 7] ∧
      ((durations (getMSTime 5) [7, 7]).map UInt32.toNat).sum = 2 :=
  (durations_iff 5 [7, 7] ⟨by decide, by decide, by decide, by decide, trivial⟩).mpr (by decide)

/-- **One millisecond is lost**: the readings are one apart, and the difference is zero. -/
theorem getMSTimeDiff_restart :
    Readings 4294967295 [4294967296] ∧ elapsed 4294967295 [4294967296] = [1] ∧
      (getMSTimeDiff (getMSTime 4294967295) (getMSTime 4294967296)).toNat = 0 :=
  ⟨⟨by decide, by decide, trivial⟩, by decide, by decide⟩

end WarheadDiscord.Time
