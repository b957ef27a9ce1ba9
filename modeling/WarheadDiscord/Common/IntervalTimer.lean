import Mathlib.Algebra.Order.Ring.Int
import WarheadDiscord.Common.Fault
import WarheadDiscord.Lib.Machine

/-!
# `IntervalTimer`

`Reset` takes the remainder by the interval, which is zero until it is set.

* `Safe`: the state and the operation are not those of a division by zero.
* `run_reset`: one `Update` with the `Reset` behind it.
* `Fits`: the sums of the updates are in the range of `time_t`.
* `intervalTimer_iff`: when no run divides by zero, and when the phase is kept.
-/

namespace WarheadDiscord

open Lib

/-- The members, of type `time_t`. -/
structure IntervalTimer where
  interval : Int64 := 0
  current : Int64 := 0
  deriving DecidableEq, Repr

namespace IntervalTimer

/-- The remainder by an interval that is zero. -/
def divisionByZero : Fault := .undefinedBehaviour "_current %= 0"

/-- A sum that `time_t` cannot represent. -/
def signedOverflow : Fault := .undefinedBehaviour "_current += diff"

def update (t : IntervalTimer) (diff : Int64) : Except Fault IntervalTimer :=
  if t.current.toInt + diff.toInt < -2 ^ 63 ∨ 2 ^ 63 ≤ t.current.toInt + diff.toInt then
    .error signedOverflow
  else
    let current := t.current + diff
    .ok { t with current := if current < 0 then 0 else current }

def passed (t : IntervalTimer) : Bool := t.current ≥ t.interval

def reset (t : IntervalTimer) : Except Fault IntervalTimer :=
  if t.current ≥ t.interval then
    if t.interval = 0 then .error divisionByZero
    else .ok { t with current := t.current % t.interval }
  else .ok t

inductive Op where
  | setInterval (interval : Int64)
  | setCurrent (current : Int64)
  | update (diff : Int64)
  | passed
  | reset
  deriving DecidableEq, Repr

def step (t : IntervalTimer) : Op → Except Fault IntervalTimer
  | .setInterval interval => .ok { t with interval := interval }
  | .setCurrent current => .ok { t with current := current }
  | .update diff => t.update diff
  -- The result of `Passed` does not change the timer.
  | .passed => .ok t
  | .reset => t.reset

/-! ### Division by zero -/

/-- `Reset` is not called while the interval is zero, unless the time is negative. -/
def Safe (t : IntervalTimer) (op : Op) : Prop :=
  op = .reset → ¬ (t.interval = 0 ∧ 0 ≤ t.current)

theorem step_divides_iff (t : IntervalTimer) (op : Op) :
    t.step op = .error divisionByZero ↔ ¬ Safe t op := by
  cases op with
  | setInterval interval => simp [step, Safe]
  | setCurrent current => simp [step, Safe]
  | update diff =>
    rw [step, update]
    split
    · simp [Safe, signedOverflow, divisionByZero]
    · simp [Safe]
  | passed => simp [step, Safe]
  | reset =>
    rw [step, reset]
    by_cases hpassed : t.current ≥ t.interval
    · rw [if_pos hpassed]
      by_cases hzero : t.interval = 0
      · rw [if_pos hzero]
        rw [hzero] at hpassed
        exact iff_of_true rfl fun hsafe => hsafe rfl ⟨hzero, hpassed⟩
      · rw [if_neg hzero]
        exact iff_of_false (fun h => by cases h) fun hunsafe => hunsafe fun _ h => hzero h.1
    · rw [if_neg hpassed]
      refine iff_of_false (fun h => by cases h) fun hunsafe => hunsafe fun _ h => hpassed ?_
      rw [h.1]
      exact h.2

/-- **A run divides by zero** exactly when one of its steps is not safe. -/
theorem run_divides_iff (ops : List Op) (t : IntervalTimer) :
    run step t ops ≠ .error divisionByZero ↔ Meets step Safe t ops := by
  induction ops generalizing t with
  | nil =>
    refine iff_of_true (fun h => ?_) trivial
    cases h
  | cons op ops ih =>
    have hstep := not_congr (step_divides_iff t op)
    rw [not_not] at hstep
    cases hs : t.step op with
    | ok t' =>
      rw [hs] at hstep
      have hsafe : Safe t op := hstep.mp fun h => by cases h
      rw [run_cons_of_ok hs, meets_cons_ok hs, ih, and_iff_right hsafe]
    | error e =>
      rw [hs] at hstep
      rw [run, hs, meets_cons_error hs]
      exact hstep

/-! ### The phase -/

/-- `Update`, with `Reset` behind it. -/
def cycle (diffs : List Int64) : List Op := diffs.flatMap fun diff => [.update diff, .reset]

theorem cycle_cons (diff : Int64) (diffs : List Int64) :
    cycle (diff :: diffs) = [.update diff, .reset] ++ cycle diffs := rfl

/-- Every `Update` has a sum that `time_t` can represent, when `elapsed` has passed before. -/
def Fits (interval : Int) : Int → List Int64 → Prop
  | _, [] => True
  | elapsed, diff :: diffs =>
    elapsed % interval + diff.toInt < 2 ^ 63 ∧ Fits interval (elapsed + diff.toInt) diffs

section Phase

variable {interval : Int64} {t : IntervalTimer} {diff : Int64} {elapsed : Int}

/-- The timer shows the phase of a time. -/
def Shows (interval : Int64) (elapsed : Int) (t : IntervalTimer) : Prop :=
  t.interval = interval ∧ t.current.toInt = elapsed % interval.toInt

theorem Shows.bounds (hpos : 0 < interval) (ht : Shows interval elapsed t) :
    0 < interval.toInt ∧ 0 ≤ t.current.toInt ∧ t.current.toInt < interval.toInt := by
  have hinterval : 0 < interval.toInt := Int64.lt_iff_toInt_lt.mp hpos
  rw [ht.2]
  exact ⟨hinterval, Int.emod_nonneg _ (Int.ne_of_gt hinterval), Int.emod_lt_of_pos _ hinterval⟩

theorem update_of_fits (hcurrent : 0 ≤ t.current.toInt) (hdiff : 0 ≤ diff.toInt)
    (hfits : t.current.toInt + diff.toInt < 2 ^ 63) :
    t.update diff = .ok { t with current := t.current + diff } ∧
      (t.current + diff).toInt = t.current.toInt + diff.toInt := by
  have hsum : (t.current + diff).toInt = t.current.toInt + diff.toInt := by
    rw [Int64.toInt_add, Int.bmod_eq_of_le (by omega) (by omega)]
  have hnonneg : ¬ t.current + diff < 0 := by
    rw [Int64.lt_iff_toInt_lt, hsum, Int64.toInt_zero]
    omega
  refine ⟨?_, hsum⟩
  rw [update, if_neg (by omega)]
  dsimp only
  rw [if_neg hnonneg]

/-- `Reset` takes the remainder, also where it is not needed. -/
theorem reset_of_nonneg (hinterval : 0 < t.interval.toInt) (hcurrent : 0 ≤ t.current.toInt) :
    ∃ t', t.reset = .ok t' ∧ t'.interval = t.interval ∧
      t'.current.toInt = t.current.toInt % t.interval.toInt := by
  rw [reset]
  by_cases hpassed : t.current ≥ t.interval
  · have hne : t.interval ≠ 0 := by
      intro hzero
      rw [hzero] at hinterval
      exact absurd hinterval (by decide)
    rw [if_pos hpassed, if_neg hne]
    refine ⟨_, rfl, rfl, ?_⟩
    rw [Int64.toInt_mod, Int.tmod_eq_emod_of_nonneg hcurrent]
  · have hlt : t.current.toInt < t.interval.toInt :=
      Int64.lt_iff_toInt_lt.mp (Int64.not_le.mp hpassed)
    rw [if_neg hpassed]
    exact ⟨t, rfl, rfl, (Int.emod_eq_of_lt hcurrent hlt).symm⟩

/-- **One `Update` with the `Reset` behind it.** -/
theorem run_reset (hpos : 0 < interval) (ht : Shows interval elapsed t) (hdiff : 0 ≤ diff)
    (hfits : elapsed % interval.toInt + diff.toInt < 2 ^ 63) :
    ∃ t', run step t [.update diff, .reset] = .ok t' ∧
      Shows interval (elapsed + diff.toInt) t' := by
  obtain ⟨hinterval, hcurrent, -⟩ := ht.bounds hpos
  have hdiff : 0 ≤ diff.toInt := Int64.le_iff_toInt_le.mp hdiff
  obtain ⟨hupdate, hsum⟩ := update_of_fits hcurrent hdiff (ht.2 ▸ hfits)
  obtain ⟨t', hreset, hsame, hrest⟩ := reset_of_nonneg
    (t := { t with current := t.current + diff }) (by rw [ht.1]; exact hinterval)
    (by dsimp only; omega)
  refine ⟨t', ?_, hsame.trans ht.1, ?_⟩
  · rw [run_cons_of_ok (show step t (.update diff) = _ from hupdate),
      run_cons_of_ok (show step _ .reset = _ from hreset), run]
  · rw [hrest, hsum, ht.2, ht.1, Int.emod_add_emod]

theorem run_overflow (ht : Shows interval elapsed t)
    (hfits : ¬ elapsed % interval.toInt + diff.toInt < 2 ^ 63) (ops : List Op) :
    run step t (.update diff :: ops) = .error signedOverflow := by
  have hupdate : step t (.update diff) = .error signedOverflow := by
    rw [step, update, ht.2]
    exact if_pos (Or.inr (Int.not_lt.mp hfits))
  rw [run, hupdate]

/-- **The phase is kept** exactly as long as the sums fit. -/
theorem phase_iff (hpos : 0 < interval) (diffs : List Int64) (hdiffs : ∀ diff ∈ diffs, 0 ≤ diff)
    (ht : Shows interval elapsed t) :
    (∀ some, some <+: diffs → ∃ t', run step t (cycle some) = .ok t' ∧
        Shows interval (elapsed + (some.map Int64.toInt).sum) t') ↔
      Fits interval.toInt elapsed diffs := by
  induction diffs generalizing t elapsed with
  | nil =>
    refine iff_of_true (fun some hsome => ?_) trivial
    obtain rfl := List.prefix_nil.mp hsome
    refine ⟨t, rfl, ?_⟩
    rw [List.map_nil, List.sum_nil, Int.add_zero]
    exact ht
  | cons diff diffs ih =>
    rw [Fits]
    by_cases hfits : elapsed % interval.toInt + diff.toInt < 2 ^ 63
    · obtain ⟨t', hrun, ht'⟩ := run_reset hpos ht (hdiffs diff List.mem_cons_self) hfits
      have ih := ih (fun d hd => hdiffs d (List.mem_cons_of_mem _ hd)) ht'
      rw [and_iff_right hfits, ← ih]
      constructor
      · intro hall some hsome
        obtain ⟨u, hu, hshows⟩ := hall (diff :: some) (List.cons_prefix_cons.mpr ⟨rfl, hsome⟩)
        rw [cycle_cons, run_append_of_ok hrun] at hu
        rw [List.map_cons, List.sum_cons, ← Int.add_assoc] at hshows
        exact ⟨u, hu, hshows⟩
      · intro hall some hsome
        cases some with
        | nil =>
          refine ⟨t, rfl, ?_⟩
          rw [List.map_nil, List.sum_nil, Int.add_zero]
          exact ht
        | cons first some =>
          obtain ⟨rfl, htail⟩ := List.cons_prefix_cons.mp hsome
          obtain ⟨u, hu, hshows⟩ := hall some htail
          rw [cycle_cons, run_append_of_ok hrun, List.map_cons, List.sum_cons, ← Int.add_assoc]
          exact ⟨u, hu, hshows⟩
    · refine iff_of_false (fun hall => ?_) fun h => hfits h.1
      obtain ⟨t', hrun, -⟩ := hall [diff] (by simp)
      rw [cycle, List.flatMap_singleton, run_overflow ht hfits] at hrun
      cases hrun

end Phase

/-- **When a run does not divide by zero, and when the phase is kept** however the updates are
cut. -/
theorem intervalTimer_iff (ops : List Op) {interval : Int64} (hpos : 0 < interval)
    (diffs : List Int64) (hdiffs : ∀ diff ∈ diffs, 0 ≤ diff) :
    (run step {} ops ≠ .error divisionByZero ↔ Meets step Safe {} ops) ∧
      ((∀ some, some <+: diffs →
          ∃ t, run step {} (.setInterval interval :: cycle some) = .ok t ∧ t.interval = interval ∧
            t.current.toInt = (some.map Int64.toInt).sum % interval.toInt) ↔
        Fits interval.toInt 0 diffs) := by
  refine ⟨run_divides_iff ops {}, ?_⟩
  have hshows : Shows interval 0 { interval := interval } := ⟨rfl, by simp⟩
  have hset : ∀ ops, run step {} (.setInterval interval :: ops) =
      run step { interval := interval } ops := fun ops => rfl
  have hphase := phase_iff hpos diffs hdiffs hshows
  simp only [Shows, Int.zero_add] at hphase
  simpa only [hset] using hphase

theorem intervalTimer_iff_ten :
    run step {} [.setInterval 10, .reset] ≠ .error divisionByZero ∧
      ∃ t, run step {} (.setInterval 10 :: cycle [7, 25]) = .ok t ∧ t.interval = 10 ∧
        t.current.toInt = (List.map Int64.toInt [7, 25]).sum % Int64.toInt 10 := by
  have hdiffs : ∀ diff ∈ [(7 : Int64), 25], 0 ≤ diff := by
    rintro diff (_ | ⟨_, _ | ⟨_, ⟨⟩⟩⟩) <;> decide
  have hfits : Fits (Int64.toInt 10) 0 [7, 25] := ⟨by decide, by decide, trivial⟩
  have hsafe : Meets step Safe {} [.setInterval 10, .reset] := by
    refine ⟨nofun, fun t ht => ?_⟩
    cases ht
    exact ⟨fun _ h => absurd h.1 (by decide), fun _ _ => trivial⟩
  obtain ⟨hrun, hphase⟩ :=
    intervalTimer_iff [.setInterval 10, .reset] (show 0 < (10 : Int64) by decide) [7, 25] hdiffs
  exact ⟨hrun.mpr hsafe, hphase.mpr hfits _ (List.prefix_refl _)⟩

theorem intervalTimer_zero :
    run step {} [.reset] = .error divisionByZero ∧
      run step {} (.setInterval 10 :: cycle [5, 9223372036854775807]) =
        .error signedOverflow := by
  decide

end IntervalTimer

end WarheadDiscord
