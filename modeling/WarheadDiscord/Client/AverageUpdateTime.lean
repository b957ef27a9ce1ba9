import Mathlib.Algebra.Group.Action.Defs
import Mathlib.Algebra.Order.BigOperators.Group.List
import WarheadDiscord.Client.UpdateTime
import WarheadDiscord.Lib.Means

/-!
# Averages of the update times

`UpdateWithDiff` divides the sum of the table by 500 if the last slot is not zero, and else by the
index, as if the table was not full.  `GetTimeWeightedAverageUpdateTime` sums up squares in 32 bits.

* `average_of_divisor`, `average_kept`: the average from the history of the diffs.
* `averageUpdateTime_iff`: when it is the mean of the last 500.
* `weightedAverage_eq`: the quotient of the reduced sums.
* `weightedAverage_iff`: when it is the quotient of the sums.
-/

namespace WarheadDiscord.UpdateTime

open Lib

/-! ### The average -/

/-- The diff in the last slot, or zero while there is none. -/
def lastSlot (diffs : List UInt32) : UInt32 := (lastRound diffs).getLastD 0

/-- What the sum of the table is divided by. -/
def divisor (diffs : List UInt32) : Nat :=
  if lastSlot diffs ≠ 0 then avgDiffCount else diffs.length % avgDiffCount

section Average

variable {u : UpdateTime} {diffs : List UInt32}

theorem lastRound_of_lt (h : diffs.length < avgDiffCount) : lastRound diffs = [] := by
  rw [lastRound, complete, Nat.div_eq_of_lt h, Nat.mul_zero, List.take_zero, List.drop_nil]

theorem lastSlot_of_lt (h : diffs.length < avgDiffCount) : lastSlot diffs = 0 := by
  rw [lastSlot, lastRound_of_lt h]
  rfl

theorem getLast?_lastRound (h : avgDiffCount ≤ complete diffs) :
    (lastRound diffs).getLast? = diffs[complete diffs - 1]? := by
  have hpos : 0 < avgDiffCount := by decide
  rw [lastRound, List.getLast?_eq_getElem?, List.length_drop, List.length_take,
    Nat.min_eq_left (complete_le diffs), Nat.sub_sub_self h, List.getElem?_drop,
    List.getElem?_take_of_lt (by omega)]
  congr 1
  omega

theorem Records.lastSlot_eq (h : Records u diffs) :
    u.updateTimeDataTable[avgDiffCount - 1] = lastSlot diffs := by
  have hget (d : UInt32) (hd : u.updateTimeDataTable[avgDiffCount - 1]? = some d) :
      u.updateTimeDataTable[avgDiffCount - 1] = d := by
    rw [Vector.getElem?_eq_getElem (by decide)] at hd
    exact Option.some.inj hd
  by_cases hlt : diffs.length < avgDiffCount
  · rw [lastSlot_of_lt hlt]
    apply hget
    rw [← Vector.getElem?_toList]
    exact h.ring.unwritten (by decide) (Nat.le_sub_one_of_lt hlt)
  · have hle := complete_le diffs
    have hround : avgDiffCount ≤ complete diffs ∧
        diffs.length ≤ complete diffs - 1 + avgDiffCount ∧
        (complete diffs - 1) % avgDiffCount = avgDiffCount - 1 := by
      simp only [complete, avgDiffCount] at hlt ⊢
      omega
    obtain ⟨hcomplete, hrecent, hmod⟩ := hround
    have hpos : 0 < avgDiffCount := by decide
    have hin : complete diffs - 1 < diffs.length := by omega
    have hslot := h.slot hin hrecent
    rw [hmod, List.getElem?_eq_getElem hin] at hslot
    rw [hget _ hslot, lastSlot, List.getLastD_eq_getLast?, getLast?_lastRound hcomplete,
      List.getElem?_eq_getElem hin, Option.getD_some]

theorem averageUpdateTime_updateWithDiff (u : UpdateTime) (diff : UInt32) :
    (u.updateWithDiff diff).averageUpdateTime =
      if (u.updateWithDiff diff).updateTimeDataTable[avgDiffCount - 1] ≠ 0 then
        (u.updateWithDiff diff).totalUpdateTime / UInt32.ofNat avgDiffCount
      else if (u.updateWithDiff diff).updateTimeTableIndex.val ≠ 0 then
        (u.updateWithDiff diff).totalUpdateTime /
          UInt32.ofNat (u.updateWithDiff diff).updateTimeTableIndex.val
      else u.averageUpdateTime := rfl

theorem Records.toNat_total_div (h : Records u diffs) {n : Nat} (hn : n ≤ avgDiffCount) :
    (u.totalUpdateTime / UInt32.ofNat n).toNat = recentSum diffs % 2 ^ 32 / n := by
  have hsize : n < 2 ^ 32 := Nat.lt_of_le_of_lt hn (by decide)
  rw [UInt32.toNat_div, h.total, h.tableSum_eq, UInt32.toNat_ofNat_of_lt' hsize]

theorem divisor_le (diffs : List UInt32) : divisor diffs ≤ avgDiffCount := by
  rw [divisor]
  split
  · exact Nat.le_refl avgDiffCount
  · exact Nat.le_of_lt (Nat.mod_lt _ (by decide))

theorem divisor_eq_zero : divisor diffs = 0 ↔
    lastSlot diffs = 0 ∧ diffs.length % avgDiffCount = 0 := by
  rw [divisor]
  split
  case isTrue h => exact iff_of_false (by decide) fun hzero => h hzero.1
  case isFalse h => exact (and_iff_right (not_not.mp h)).symm

theorem average_of_divisor (all : List UInt32) (hpos : divisor all ≠ 0) :
    (after all).getAverageUpdateTime.toNat = recentSum all % 2 ^ 32 / divisor all := by
  rcases all.eq_nil_or_concat' with rfl | ⟨diffs, diff, rfl⟩
  · exact absurd rfl hpos
  have h := (records_after diffs).updateWithDiff diff
  have hquotient := h.toNat_total_div (divisor_le (diffs ++ [diff]))
  rw [after_concat, ← hquotient, getAverageUpdateTime, averageUpdateTime_updateWithDiff,
    h.lastSlot_eq, h.index]
  rw [divisor] at hpos ⊢
  by_cases hlast : lastSlot (diffs ++ [diff]) ≠ 0
  · rw [if_pos hlast, if_pos hlast]
  · rw [if_neg hlast] at hpos
    rw [if_neg hlast, if_neg hlast, if_pos hpos]

theorem average_kept (diffs : List UInt32) (diff : UInt32)
    (hzero : divisor (diffs ++ [diff]) = 0) :
    (after (diffs ++ [diff])).getAverageUpdateTime = (after diffs).getAverageUpdateTime := by
  have h := (records_after diffs).updateWithDiff diff
  obtain ⟨hlast, hlength⟩ := divisor_eq_zero.mp hzero
  rw [after_concat, getAverageUpdateTime, averageUpdateTime_updateWithDiff, h.lastSlot_eq, h.index,
    if_neg (not_not.mpr hlast), if_neg (not_not.mpr hlength), getAverageUpdateTime]

theorem recentSum_concat_zero (diffs : List UInt32) :
    recentSum (diffs ++ [0]) ≤ recentSum diffs := by
  have h := records_after diffs
  have hsum := tableSum_updateWithDiff (after diffs) 0
  rw [(h.updateWithDiff 0).tableSum_eq, h.tableSum_eq, UInt32.toNat_zero, Nat.add_zero] at hsum
  rw [← hsum]
  exact Nat.le_add_right _ _

theorem lastSlot_concat_of_last (diff : UInt32)
    (h : ¬ diffs.length % avgDiffCount + 1 < avgDiffCount) : lastSlot (diffs ++ [diff]) = diff := by
  rw [lastSlot, lastRound_concat_of_last diff h, List.getLastD_concat]

theorem divisor_of_concat_eq_zero {diff : UInt32} (hzero : divisor (diffs ++ [diff]) = 0) :
    diff = 0 ∧ divisor diffs ≠ 0 := by
  obtain ⟨hlast, hlength⟩ := divisor_eq_zero.mp hzero
  have hround : diffs.length % avgDiffCount = avgDiffCount - 1 := by
    rw [List.length_append, List.length_singleton] at hlength
    simp only [avgDiffCount] at hlength ⊢
    omega
  constructor
  · rw [← hlast]
    exact (lastSlot_concat_of_last diff (by rw [hround]; decide)).symm
  · rw [Ne, divisor_eq_zero, hround]
    exact fun h => absurd h.2 (by decide)

end Average

/-! ### When it is the mean -/

/-- Any 500 diffs in a row have a sum that fits into `uint32`. -/
def SumsFit (diffs : List UInt32) : Prop :=
  ∀ i, (((diffs.drop i).take avgDiffCount).map UInt32.toNat).sum < 2 ^ 32

theorem SumsFit.recentSum_lt {diffs : List UInt32} (h : SumsFit diffs) :
    recentSum diffs < 2 ^ 32 := by
  have hsum := h (diffs.length - avgDiffCount)
  rw [← recent, List.take_of_length_le (by
    rw [length_recent]
    exact Nat.min_le_right _ _)] at hsum
  exact hsum

theorem SumsFit.of_concat {diffs : List UInt32} {diff : UInt32} (h : SumsFit (diffs ++ [diff])) :
    SumsFit diffs := by
  intro i
  have hsum := h i
  rw [List.drop_append, List.take_append, List.map_append, List.sum_append] at hsum
  exact Nat.lt_of_le_of_lt (Nat.le_add_right _ _) hsum

theorem sumsFit_of_le {diffs : List UInt32} {m : Nat} (h : ∀ d ∈ diffs, d.toNat ≤ m)
    (hm : avgDiffCount * m < 2 ^ 32) : SumsFit diffs := by
  intro i
  have hsum := List.sum_le_card_nsmul (((diffs.drop i).take avgDiffCount).map UInt32.toNat) m (by
    intro x hx
    obtain ⟨d, hd, rfl⟩ := List.mem_map.mp hx
    exact h d (List.mem_of_mem_drop (List.mem_of_mem_take hd)))
  rw [List.length_map, smul_eq_mul] at hsum
  calc _ ≤ _ := hsum
    _ ≤ avgDiffCount * m := Nat.mul_le_mul_right m (List.length_take_le _ _)
    _ < 2 ^ 32 := hm

/-- The sum of the last call that has set the average, and what it was divided by. -/
theorem average_eq (diffs : List UInt32) (diff : UInt32) (hfit : SumsFit (diffs ++ [diff])) :
    (after (diffs ++ [diff])).getAverageUpdateTime.toNat =
      if divisor (diffs ++ [diff]) ≠ 0 then recentSum (diffs ++ [diff]) / divisor (diffs ++ [diff])
      else recentSum diffs / divisor diffs := by
  split
  case isTrue hpos =>
    rw [average_of_divisor _ hpos, Nat.mod_eq_of_lt hfit.recentSum_lt]
  case isFalse hzero =>
    have hzero : divisor (diffs ++ [diff]) = 0 := not_not.mp hzero
    have hpos : divisor diffs ≠ 0 := (divisor_of_concat_eq_zero hzero).2
    rw [average_kept diffs diff hzero, average_of_divisor _ hpos,
      Nat.mod_eq_of_lt hfit.of_concat.recentSum_lt]

/-- **When the average is the mean of the last 500 diffs.**  If there are 500 and the last slot has
a zero, the sum must be too small for the other divisor, or for the sum before, to matter. -/
theorem averageUpdateTime_iff (diffs : List UInt32) (diff : UInt32)
    (hfit : SumsFit (diffs ++ [diff])) :
    (after (diffs ++ [diff])).getAverageUpdateTime.toNat =
        recentSum (diffs ++ [diff]) / min (diffs ++ [diff]).length avgDiffCount ↔
      (diffs ++ [diff]).length < avgDiffCount ∨ lastSlot (diffs ++ [diff]) ≠ 0 ∨
      (diffs ++ [diff]).length % avgDiffCount ≠ 0 ∧
        recentSum (diffs ++ [diff]) < (diffs ++ [diff]).length % avgDiffCount *
          (recentSum (diffs ++ [diff]) / avgDiffCount + 1) ∨
      (diffs ++ [diff]).length % avgDiffCount = 0 ∧
        recentSum diffs < divisor diffs * (recentSum (diffs ++ [diff]) / avgDiffCount + 1) := by
  have hnonempty : (diffs ++ [diff]).length ≠ 0 := by simp
  rw [average_eq diffs diff hfit]
  by_cases hlt : (diffs ++ [diff]).length < avgDiffCount
  · have hdivisor : divisor (diffs ++ [diff]) = (diffs ++ [diff]).length := by
      rw [divisor, lastSlot_of_lt hlt, if_neg (not_not.mpr rfl), Nat.mod_eq_of_lt hlt]
    rw [hdivisor, if_pos hnonempty, Nat.min_eq_left (Nat.le_of_lt hlt)]
    exact iff_of_true rfl (Or.inl hlt)
  rw [Nat.min_eq_right (Nat.not_lt.mp hlt)]
  by_cases hlast : lastSlot (diffs ++ [diff]) ≠ 0
  · rw [divisor, if_pos hlast, if_pos (by decide)]
    exact iff_of_true rfl (Or.inr (Or.inl hlast))
  have hdivisor : divisor (diffs ++ [diff]) = (diffs ++ [diff]).length % avgDiffCount := by
    rw [divisor, if_neg hlast]
  rw [hdivisor]
  by_cases hmod : (diffs ++ [diff]).length % avgDiffCount ≠ 0
  · have hle := Nat.le_of_lt (Nat.mod_lt (diffs ++ [diff]).length (show 0 < avgDiffCount by decide))
    rw [if_pos hmod, div_eq_iff_of_le (Nat.pos_of_ne_zero hmod)
      (Nat.div_le_div_left hle (Nat.pos_of_ne_zero hmod))]
    simp only [hlt, hlast, hmod, ne_eq, not_false_eq_true, true_and, false_and, false_or, or_false]
  · obtain ⟨rfl, hpos⟩ := divisor_of_concat_eq_zero (hdivisor.trans (not_not.mp hmod))
    have hsum := recentSum_concat_zero diffs
    rw [if_neg hmod, div_eq_iff_of_le (Nat.pos_of_ne_zero hpos)
      (Nat.div_le_div hsum (divisor_le diffs) hpos)]
    simp only [hlt, hlast, not_not.mp hmod, ne_eq, not_true_eq_false, true_and, false_and, false_or]

/-- A table that is full: 499 diffs of a second and one of 7 milliseconds. -/
theorem averageUpdateTime_iff_full :
    SumsFit (List.replicate 499 1000 ++ [7]) ∧
      (after (List.replicate 499 1000 ++ [7])).getAverageUpdateTime.toNat =
        recentSum (List.replicate 499 1000 ++ [7]) /
          min (List.replicate 499 1000 ++ [(7 : UInt32)]).length avgDiffCount := by
  have hfit : SumsFit (List.replicate 499 1000 ++ [7]) := by
    refine sumsFit_of_le (m := 1000) (fun d hd => ?_) (by decide)
    simp only [List.mem_append, List.mem_replicate, List.mem_singleton] at hd
    obtain ⟨-, rfl⟩ | rfl := hd <;> decide
  have hlast : lastSlot (List.replicate 499 1000 ++ [7]) = 7 := by
    apply lastSlot_concat_of_last
    rw [List.length_replicate]
    decide
  refine ⟨hfit, (averageUpdateTime_iff _ 7 hfit).mpr (.inr (.inl ?_))⟩
  rw [hlast]
  decide

/-- 499 diffs of a second, a zero in the last slot, and one more. -/
def wrapped : List UInt32 := List.replicate (avgDiffCount - 1) 1000 ++ [0]

/-- The sum is divided by one. -/
theorem average_after_zero :
    SumsFit (wrapped ++ [1]) ∧ (after (wrapped ++ [1])).getAverageUpdateTime.toNat = 498001 ∧
      recentSum (wrapped ++ [1]) / min (wrapped ++ [1]).length avgDiffCount = 996 := by
  have hfit : SumsFit (wrapped ++ [1]) := by
    refine sumsFit_of_le (m := 1000) (fun d hd => ?_) (by decide)
    simp only [wrapped, List.mem_append, List.mem_replicate, List.mem_singleton] at hd
    obtain (⟨-, rfl⟩ | rfl) | rfl := hd <;> decide
  have hlength : wrapped.length = avgDiffCount := by
    rw [wrapped, List.length_append, List.length_replicate]
    rfl
  have hsum : recentSum (wrapped ++ [1]) = 498001 := by
    rw [recentSum, recent, List.length_append, hlength, List.length_singleton,
      Nat.add_sub_cancel_left, wrapped, List.append_assoc, List.drop_append_of_le_length (by
        rw [List.length_replicate]
        decide), List.drop_replicate, List.map_append, List.map_replicate, List.sum_append,
      List.sum_replicate]
    rfl
  have hlast : lastSlot (wrapped ++ [1]) = 0 := by
    rw [lastSlot, lastRound_concat_of_lt 1 (by rw [hlength]; decide), ← lastSlot]
    apply lastSlot_concat_of_last
    rw [List.length_replicate]
    decide
  have hdivisor : divisor (wrapped ++ [1]) = 1 := by
    rw [divisor, hlast, if_neg (not_not.mpr rfl), List.length_append, hlength]
    rfl
  refine ⟨hfit, ?_, ?_⟩
  · rw [average_of_divisor _ (by rw [hdivisor]; decide), hdivisor, hsum, Nat.div_one,
      Nat.mod_eq_of_lt (by decide)]
  · rw [hsum, List.length_append, hlength]
    rfl

/-! ### The weighted average -/

theorem weigh_cons (diff : UInt32) (diffs : List UInt32) (sums : UInt32 × UInt32) :
    weigh (diff :: diffs) sums = weigh diffs (sums.1 + diff * diff, sums.2 + diff) := rfl

/-- Both sums are those of the naturals, modulo 2^32. -/
theorem toNat_weigh (diffs : List UInt32) (sums : UInt32 × UInt32) :
    (weigh diffs sums).1.toNat =
        (sums.1.toNat + squares (diffs.map UInt32.toNat)) % 2 ^ 32 ∧
      (weigh diffs sums).2.toNat =
        (sums.2.toNat + (diffs.map UInt32.toNat).sum) % 2 ^ 32 := by
  induction diffs generalizing sums with
  | nil =>
    have h1 : sums.1.toNat % 2 ^ 32 = sums.1.toNat := Nat.mod_eq_of_lt (UInt32.toNat_lt _)
    have h2 : sums.2.toNat % 2 ^ 32 = sums.2.toNat := Nat.mod_eq_of_lt (UInt32.toNat_lt _)
    exact ⟨h1.symm, h2.symm⟩
  | cons diff diffs ih =>
    obtain ⟨hsum, hweightsum⟩ := ih (sums.1 + diff * diff, sums.2 + diff)
    rw [weigh_cons, hsum, hweightsum, List.map_cons, squares_cons, List.sum_cons]
    constructor
    · rw [UInt32.toNat_add, UInt32.toNat_mul, Nat.add_mod_mod, Nat.mod_add_mod, Nat.add_assoc]
    · rw [UInt32.toNat_add, Nat.mod_add_mod, Nat.add_assoc]

theorem getTimeWeightedAverageUpdateTime_eq (u : UpdateTime) :
    u.getTimeWeightedAverageUpdateTime =
      if (weigh u.updateTimeDataTable.toList (0, 0)).2 = 0 then 0
      else (weigh u.updateTimeDataTable.toList (0, 0)).1 /
        (weigh u.updateTimeDataTable.toList (0, 0)).2 := rfl

/-- The sum of the squares of the last 500 diffs. -/
def recentSquares (diffs : List UInt32) : Nat :=
  squares ((recent avgDiffCount diffs).map UInt32.toNat)

/-- **The weighted average** is the quotient of the two sums modulo 2^32. -/
theorem weightedAverage_eq (diffs : List UInt32) :
    (after diffs).getTimeWeightedAverageUpdateTime.toNat =
      recentSquares diffs % 2 ^ 32 / (recentSum diffs % 2 ^ 32) := by
  have h := records_after diffs
  have hsquares : squares ((after diffs).updateTimeDataTable.toList.map UInt32.toNat) =
      recentSquares diffs := by
    have hsum := h.ring.sum_map (fun d => d.toNat * d.toNat) rfl
    rw [recentSquares, squares, squares, List.map_map, List.map_map]
    exact hsum
  obtain ⟨hsum, hweightsum⟩ := toNat_weigh (after diffs).updateTimeDataTable.toList (0, 0)
  rw [hsquares, UInt32.toNat_zero, Nat.zero_add] at hsum
  rw [UInt32.toNat_zero, Nat.zero_add] at hweightsum
  have htable : ((after diffs).updateTimeDataTable.toList.map UInt32.toNat).sum =
    recentSum diffs := h.tableSum_eq
  rw [htable] at hweightsum
  rw [getTimeWeightedAverageUpdateTime_eq, ← hsum, ← hweightsum]
  split
  case isTrue hzero => rw [hzero, UInt32.toNat_zero, Nat.div_zero]
  case isFalse hpos => exact UInt32.toNat_div _ _

theorem exists_isPeak (l : List UInt32) : ∃ m, IsPeak l m := by
  induction l with
  | nil => exact ⟨0, isPeak_nil⟩
  | cons d l ih =>
    obtain ⟨m, hm⟩ := ih
    exact ⟨stdMax d m, (isPeak_singleton d).append hm⟩

theorem mean_recent_le (diffs : List UInt32) :
    recentSum diffs / min diffs.length avgDiffCount ≤ recentSquares diffs / recentSum diffs := by
  have hmean := mean_le_weighted ((recent avgDiffCount diffs).map UInt32.toNat)
  rwa [List.length_map, length_recent] at hmean

theorem weighted_recent_le {diffs : List UInt32} {m : UInt32}
    (h : IsPeak (recent avgDiffCount diffs) m) :
    recentSquares diffs / recentSum diffs ≤ m.toNat := by
  apply weighted_le
  intro x hx
  obtain ⟨d, hd, rfl⟩ := List.mem_map.mp hx
  exact UInt32.le_iff_toNat_le.mp (h.1 d hd)

/-- When both sums are reduced, the quotients only agree if the divisor is small. -/
theorem recentSum_mod_le {diffs : List UInt32} (hsum : 2 ^ 32 ≤ recentSum diffs)
    (heq : recentSquares diffs % 2 ^ 32 / (recentSum diffs % 2 ^ 32) =
      recentSquares diffs / recentSum diffs) : recentSum diffs % 2 ^ 32 ≤ avgDiffCount := by
  by_contra hlarge
  have hlength : 0 < min diffs.length avgDiffCount := by
    rw [← length_recent, List.length_pos_iff]
    intro hnil
    rw [recentSum, hnil] at hsum
    exact absurd hsum (by decide)
  have hmean : recentSum diffs / avgDiffCount ≤ recentSquares diffs / recentSum diffs :=
    Nat.le_trans (Nat.div_le_div_left (Nat.min_le_right _ _) hlength) (mean_recent_le diffs)
  have hleast : 2 ^ 32 / avgDiffCount ≤ recentSum diffs / avgDiffCount := Nat.div_le_div_right hsum
  have hgreatest : recentSquares diffs % 2 ^ 32 / (recentSum diffs % 2 ^ 32) ≤
      2 ^ 32 / (avgDiffCount + 1) :=
    Nat.div_le_div (Nat.le_of_lt (Nat.mod_lt _ (by decide))) (Nat.not_le.mp hlarge) (by decide)
  rw [heq] at hgreatest
  exact absurd (Nat.le_trans (Nat.le_trans hleast hmean) hgreatest) (by decide)

/-- **When the weighted average is the quotient of the sums**, and so between the mean and the
greatest of the last 500 diffs.  The squares must fit into `uint32`, or both sums must be too large
for it and still have the same quotient by accident. -/
theorem weightedAverage_iff (diffs : List UInt32) :
    ((after diffs).getTimeWeightedAverageUpdateTime.toNat =
          recentSquares diffs / recentSum diffs ∧
        recentSum diffs / min diffs.length avgDiffCount ≤
          (after diffs).getTimeWeightedAverageUpdateTime.toNat ∧
        ∃ m, IsPeak (recent avgDiffCount diffs) m ∧
          (after diffs).getTimeWeightedAverageUpdateTime ≤ m) ↔
      recentSquares diffs < 2 ^ 32 ∨ 2 ^ 32 ≤ recentSum diffs ∧
        recentSum diffs % 2 ^ 32 ≤ avgDiffCount ∧
        recentSum diffs % 2 ^ 32 * (recentSquares diffs / recentSum diffs) ≤
          recentSquares diffs % 2 ^ 32 ∧
        recentSquares diffs % 2 ^ 32 <
          recentSum diffs % 2 ^ 32 * (recentSquares diffs / recentSum diffs + 1) := by
  have hquotient := mod_div_mod_eq_iff (M := 2 ^ 32) (by decide) (sum_le_squares _)
    (squares_le_sum_mul_sum ((recent avgDiffCount diffs).map UInt32.toNat))
  rw [← recentSum, ← recentSquares, ← weightedAverage_eq] at hquotient
  constructor
  · rintro ⟨heq, -⟩
    rcases hquotient.mp heq with hfit | ⟨hsum, hbounds⟩
    · exact Or.inl hfit
    · rw [weightedAverage_eq] at heq
      exact Or.inr ⟨hsum, recentSum_mod_le hsum heq, hbounds⟩
  · intro hwhen
    have heq := hquotient.mpr (hwhen.imp_right fun h => ⟨h.1, h.2.2⟩)
    obtain ⟨m, hm⟩ := exists_isPeak (recent avgDiffCount diffs)
    refine ⟨heq, ?_, m, hm, ?_⟩
    · rw [heq]
      exact mean_recent_le diffs
    · rw [UInt32.le_iff_toNat_le, heq]
      exact weighted_recent_le hm

/-- One diff of 65536 has a square that is reduced to zero. -/
theorem weightedAverage_reduced :
    (after [65536]).getTimeWeightedAverageUpdateTime.toNat = 0 ∧
      recentSquares [65536] / recentSum [65536] = 65536 := by
  have hvalues : recentSquares [65536] = 65536 * 65536 ∧ recentSum [65536] = 65536 := ⟨rfl, rfl⟩
  rw [weightedAverage_eq, hvalues.1, hvalues.2]
  exact ⟨by decide, by decide⟩

end WarheadDiscord.UpdateTime
