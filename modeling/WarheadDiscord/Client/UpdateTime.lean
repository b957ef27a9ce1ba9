import Mathlib.Algebra.Order.Ring.Nat
import WarheadDiscord.Lib.RingBuffer

/-!
# `UpdateTime`

`UpdateTime.cpp`.  The time differences of the updates go into a table of 500 slots, round and
round, together with their sum and three maxima.  `GetMaxUpdateTimeOfCurrentTable` looks back to
the start of the last round that is complete.

* `ring_updateWithDiff`: the table and its index are a ring buffer.
* `Records`: what all the fields have to do with the history.
* `Records.updateWithDiff`: one call keeps it.  `records_after`: so it always holds.
* `updateTime_spec`: what this says about the getters.
-/

namespace WarheadDiscord

open Lib

abbrev avgDiffCount : Nat := 500

/-- The members of `UpdateTime`, apart from `_recordedTime`. -/
structure UpdateTime where
  updateTimeDataTable : Vector UInt32 avgDiffCount
  averageUpdateTime : UInt32
  totalUpdateTime : UInt32
  updateTimeTableIndex : Fin avgDiffCount
  maxUpdateTime : UInt32
  maxUpdateTimeOfLastTable : UInt32
  maxUpdateTimeOfCurrentTable : UInt32

namespace UpdateTime

/-- The constructor. -/
def new : UpdateTime where
  updateTimeDataTable := Vector.replicate avgDiffCount 0
  averageUpdateTime := 0
  totalUpdateTime := 0
  updateTimeTableIndex := ⟨0, by decide⟩
  maxUpdateTime := 0
  maxUpdateTimeOfLastTable := 0
  maxUpdateTimeOfCurrentTable := 0

def getAverageUpdateTime (u : UpdateTime) : UInt32 := u.averageUpdateTime

/-- The loop of `GetTimeWeightedAverageUpdateTime`, from `sum` and `weightsum`. -/
def weigh (diffs : List UInt32) (sums : UInt32 × UInt32) : UInt32 × UInt32 :=
  diffs.foldl (fun (sum, weightsum) diff => (sum + diff * diff, weightsum + diff)) sums

def getTimeWeightedAverageUpdateTime (u : UpdateTime) : UInt32 :=
  let (sum, weightsum) := weigh u.updateTimeDataTable.toList (0, 0)
  if weightsum = 0 then 0 else sum / weightsum

def getMaxUpdateTime (u : UpdateTime) : UInt32 := u.maxUpdateTime

/-- `std::max`. -/
def stdMax (a b : UInt32) : UInt32 := if a < b then b else a

def getMaxUpdateTimeOfCurrentTable (u : UpdateTime) : UInt32 :=
  stdMax u.maxUpdateTimeOfCurrentTable u.maxUpdateTimeOfLastTable

def getLastUpdateTime (u : UpdateTime) : UInt32 :=
  if u.updateTimeTableIndex.val ≠ 0 then u.updateTimeDataTable[u.updateTimeTableIndex.val - 1]
  else u.updateTimeDataTable[avgDiffCount - 1]

/-- The index behind `++_updateTimeTableIndex`, and back at zero behind the last slot. -/
def nextIndex (i : Fin avgDiffCount) : Fin avgDiffCount :=
  if h : i.val + 1 < avgDiffCount then ⟨i.val + 1, h⟩ else ⟨0, by decide⟩

def updateWithDiff (u : UpdateTime) (diff : UInt32) : UpdateTime :=
  let total := u.totalUpdateTime - u.updateTimeDataTable[u.updateTimeTableIndex] + diff
  let table := u.updateTimeDataTable.set u.updateTimeTableIndex diff
  let maxOfCurrent := stdMax u.maxUpdateTimeOfCurrentTable diff
  let wraps := avgDiffCount ≤ u.updateTimeTableIndex.val + 1
  let index := nextIndex u.updateTimeTableIndex
  { updateTimeDataTable := table
    averageUpdateTime :=
      if table[avgDiffCount - 1] ≠ 0 then total / UInt32.ofNat avgDiffCount
      else if index.val ≠ 0 then total / UInt32.ofNat index.val
      else u.averageUpdateTime
    totalUpdateTime := total
    updateTimeTableIndex := index
    maxUpdateTime := stdMax u.maxUpdateTime diff
    maxUpdateTimeOfLastTable := if wraps then maxOfCurrent else u.maxUpdateTimeOfLastTable
    maxUpdateTimeOfCurrentTable := if wraps then 0 else maxOfCurrent }

/-- The state after some calls of `UpdateWithDiff`. -/
def after (diffs : List UInt32) : UpdateTime := diffs.foldl updateWithDiff new

theorem after_concat (diffs : List UInt32) (diff : UInt32) :
    after (diffs ++ [diff]) = (after diffs).updateWithDiff diff := by
  rw [after, List.foldl_append]
  rfl

/-! ### The table -/

/-- The table and its index. -/
def ring (u : UpdateTime) : Ring UInt32 avgDiffCount where
  table := u.updateTimeDataTable.toList
  next := u.updateTimeTableIndex.val
  length_table := Vector.length_toList
  next_lt := u.updateTimeTableIndex.isLt

theorem val_nextIndex (i : Fin avgDiffCount) : (nextIndex i).val = (i.val + 1) % avgDiffCount := by
  rw [nextIndex]
  by_cases h : i.val + 1 < avgDiffCount
  · rw [dif_pos h, Nat.mod_eq_of_lt h]
  · have heq : i.val + 1 = avgDiffCount := by omega
    rw [dif_neg h, heq, Nat.mod_self]

theorem ring_updateWithDiff (u : UpdateTime) (diff : UInt32) :
    (u.updateWithDiff diff).ring = u.ring.push diff := by
  simp only [ring, Ring.push, updateWithDiff, Vector.toList_set, val_nextIndex]

/-- The sum of the table, without the bounds of `uint32`. -/
def tableSum (u : UpdateTime) : Nat := (u.ring.table.map UInt32.toNat).sum

theorem tableSum_updateWithDiff (u : UpdateTime) (diff : UInt32) :
    (u.updateWithDiff diff).tableSum + u.updateTimeDataTable[u.updateTimeTableIndex].toNat =
      u.tableSum + diff.toNat := by
  have hlt : u.ring.next < u.ring.table.length := u.ring.length_table.symm ▸ u.ring.next_lt
  have hsum := sum_map_set hlt diff UInt32.toNat
  rw [tableSum, ring_updateWithDiff]
  exact hsum

/-! ### Maxima -/

/-- `m` is the greatest of some numbers, or zero if there are none. -/
def IsPeak (l : List UInt32) (m : UInt32) : Prop := (∀ d ∈ l, d ≤ m) ∧ (m ∈ l ∨ l = [] ∧ m = 0)

theorem isPeak_nil : IsPeak [] 0 := ⟨fun _ h => absurd h List.not_mem_nil, Or.inr ⟨rfl, rfl⟩⟩

theorem le_stdMax (a b : UInt32) : a ≤ stdMax a b ∧ b ≤ stdMax a b := by
  rw [stdMax]
  by_cases h : a < b
  · rw [if_pos h]
    exact ⟨UInt32.le_of_lt h, UInt32.le_refl b⟩
  · rw [if_neg h]
    exact ⟨UInt32.le_refl a, UInt32.not_lt.mp h⟩

theorem stdMax_zero (a : UInt32) : stdMax a 0 = a ∧ stdMax 0 a = a := by
  constructor
  · rw [stdMax, if_neg (UInt32.not_lt.mpr UInt32.zero_le)]
  · rw [stdMax]
    by_cases h : 0 < a
    · rw [if_pos h]
    · rw [if_neg h]
      exact UInt32.le_antisymm UInt32.zero_le (UInt32.not_lt.mp h)

theorem IsPeak.append {l r : List UInt32} {a b : UInt32} (hl : IsPeak l a) (hr : IsPeak r b) :
    IsPeak (l ++ r) (stdMax a b) := by
  constructor
  · intro d hd
    rcases List.mem_append.mp hd with hd | hd
    · exact UInt32.le_trans (hl.1 d hd) (le_stdMax a b).1
    · exact UInt32.le_trans (hr.1 d hd) (le_stdMax a b).2
  · rcases hl.2 with ha | ⟨rfl, rfl⟩
    · rcases hr.2 with hb | ⟨rfl, rfl⟩
      · left
        rw [stdMax]
        split
        · exact List.mem_append_right l hb
        · exact List.mem_append_left r ha
      · rw [(stdMax_zero a).1, List.append_nil]
        exact Or.inl ha
    · rw [(stdMax_zero b).2, List.nil_append]
      exact hr.2

theorem IsPeak.perm {l r : List UInt32} {m : UInt32} (h : IsPeak l m) (hperm : l.Perm r) :
    IsPeak r m := by
  refine ⟨fun d hd => h.1 d (hperm.mem_iff.mpr hd), ?_⟩
  rcases h.2 with hm | ⟨rfl, hzero⟩
  · exact Or.inl (hperm.mem_iff.mp hm)
  · exact Or.inr ⟨hperm.nil_eq.symm, hzero⟩

theorem isPeak_singleton (d : UInt32) : IsPeak [d] d := by
  refine ⟨fun e he => ?_, Or.inl (List.mem_singleton.mpr rfl)⟩
  rw [List.mem_singleton.mp he]
  exact UInt32.le_refl d

theorem IsPeak.of_ne_nil {l : List UInt32} {m : UInt32} (h : IsPeak l m) (hl : l ≠ []) :
    m ∈ l ∧ ∀ d ∈ l, d ≤ m := by
  rcases h.2 with hm | ⟨hnil, -⟩
  · exact ⟨hm, h.1⟩
  · exact absurd hnil hl

/-! ### The history -/

/-- The number of diffs in the rounds that are complete. -/
def complete (diffs : List UInt32) : Nat := avgDiffCount * (diffs.length / avgDiffCount)

/-- The diffs of the last round that is complete. -/
def lastRound (diffs : List UInt32) : List UInt32 :=
  (diffs.take (complete diffs)).drop (complete diffs - avgDiffCount)

/-- What the members have to do with the diffs so far. -/
structure Records (u : UpdateTime) (diffs : List UInt32) : Prop where
  ring : u.ring.Holds 0 diffs
  total : u.totalUpdateTime.toNat = u.tableSum % 2 ^ 32
  max : IsPeak diffs u.maxUpdateTime
  current : IsPeak (diffs.drop (complete diffs)) u.maxUpdateTimeOfCurrentTable
  last : IsPeak (lastRound diffs) u.maxUpdateTimeOfLastTable

theorem Records.index {u : UpdateTime} {diffs : List UInt32} (h : Records u diffs) :
    u.updateTimeTableIndex.val = diffs.length % avgDiffCount := h.ring.next

theorem table_new : new.ring.table = List.replicate avgDiffCount 0 := Vector.toList_replicate

theorem records_new : Records new [] where
  ring := Ring.holds_nil table_new rfl
  total := by
    rw [tableSum, table_new, List.map_replicate, List.sum_replicate]
    rfl
  max := isPeak_nil
  current := isPeak_nil
  last := isPeak_nil

section Step

variable {u : UpdateTime} {diffs : List UInt32}

theorem complete_le (diffs : List UInt32) : complete diffs ≤ diffs.length :=
  Nat.mul_div_le diffs.length avgDiffCount

theorem complete_concat_of_lt (diff : UInt32)
    (h : diffs.length % avgDiffCount + 1 < avgDiffCount) :
    complete (diffs ++ [diff]) = complete diffs := by
  rw [complete, complete, List.length_append, List.length_singleton]
  simp only [avgDiffCount] at h ⊢
  omega

theorem complete_concat_of_last (diff : UInt32)
    (h : ¬ diffs.length % avgDiffCount + 1 < avgDiffCount) :
    complete (diffs ++ [diff]) = diffs.length + 1 ∧
      complete (diffs ++ [diff]) = complete diffs + avgDiffCount := by
  rw [complete, complete, List.length_append, List.length_singleton]
  simp only [avgDiffCount] at h ⊢
  omega

theorem drop_complete_concat (diffs : List UInt32) (diff : UInt32) :
    (diffs ++ [diff]).drop (complete diffs) = diffs.drop (complete diffs) ++ [diff] :=
  List.drop_append_of_le_length (complete_le diffs)

theorem lastRound_concat_of_lt (diff : UInt32)
    (h : diffs.length % avgDiffCount + 1 < avgDiffCount) :
    lastRound (diffs ++ [diff]) = lastRound diffs := by
  rw [lastRound, complete_concat_of_lt diff h, List.take_append_of_le_length (complete_le diffs),
    ← lastRound]

theorem lastRound_concat_of_last (diff : UInt32)
    (h : ¬ diffs.length % avgDiffCount + 1 < avgDiffCount) :
    lastRound (diffs ++ [diff]) = diffs.drop (complete diffs) ++ [diff] := by
  obtain ⟨hall, hnext⟩ := complete_concat_of_last diff h
  rw [lastRound, List.take_of_length_le (by rw [hall]; simp), hnext, Nat.add_sub_cancel,
    drop_complete_concat]

theorem Records.total_updateWithDiff (h : Records u diffs) (diff : UInt32) :
    (u.updateWithDiff diff).totalUpdateTime.toNat =
      (u.updateWithDiff diff).tableSum % 2 ^ 32 := by
  have hsum := tableSum_updateWithDiff u diff
  have hold : u.updateTimeDataTable[u.updateTimeTableIndex].toNat < 2 ^ 32 := UInt32.toNat_lt _
  have htotal : (u.updateWithDiff diff).totalUpdateTime =
      u.totalUpdateTime - u.updateTimeDataTable[u.updateTimeTableIndex] + diff := rfl
  rw [htotal, UInt32.toNat_add, UInt32.toNat_sub, h.total]
  omega

/-- **One call of `UpdateWithDiff`.** -/
theorem Records.updateWithDiff (h : Records u diffs) (diff : UInt32) :
    Records (u.updateWithDiff diff) (diffs ++ [diff]) := by
  have hindex := h.index
  have hcurrent : IsPeak (diffs.drop (complete diffs) ++ [diff])
      (stdMax u.maxUpdateTimeOfCurrentTable diff) := h.current.append (isPeak_singleton diff)
  refine ⟨?_, h.total_updateWithDiff diff, h.max.append (isPeak_singleton diff), ?_, ?_⟩
  · rw [ring_updateWithDiff]
    exact h.ring.push diff
  · by_cases hlt : diffs.length % avgDiffCount + 1 < avgDiffCount
    · rw [complete_concat_of_lt diff hlt, drop_complete_concat]
      simpa only [UpdateTime.updateWithDiff, hindex, if_neg (Nat.not_le.mpr hlt)] using hcurrent
    · rw [(complete_concat_of_last diff hlt).1, List.drop_of_length_le (by simp)]
      simpa only [UpdateTime.updateWithDiff, hindex, if_pos (Nat.not_lt.mp hlt)] using isPeak_nil
  · by_cases hlt : diffs.length % avgDiffCount + 1 < avgDiffCount
    · rw [lastRound_concat_of_lt diff hlt]
      simpa only [UpdateTime.updateWithDiff, hindex, if_neg (Nat.not_le.mpr hlt)] using h.last
    · rw [lastRound_concat_of_last diff hlt]
      simpa only [UpdateTime.updateWithDiff, hindex, if_pos (Nat.not_lt.mp hlt)] using hcurrent

end Step

/-- **Every history is recorded.** -/
theorem records_after (diffs : List UInt32) : Records (after diffs) diffs := by
  induction diffs using List.reverseRecOn with
  | nil => exact records_new
  | append_singleton diffs diff ih =>
    rw [after_concat]
    exact ih.updateWithDiff diff

/-- The sum of the last 500 diffs. -/
def recentSum (diffs : List UInt32) : Nat := ((recent avgDiffCount diffs).map UInt32.toNat).sum

theorem Records.tableSum_eq {u : UpdateTime} {diffs : List UInt32} (h : Records u diffs) :
    u.tableSum = recentSum diffs := h.ring.sum_map UInt32.toNat rfl

/-! ### The getters -/

section Getters

variable {u : UpdateTime} {diffs : List UInt32}

theorem Records.slot (h : Records u diffs) {k : Nat} (hk : k < diffs.length)
    (hrecent : diffs.length ≤ k + avgDiffCount) :
    u.updateTimeDataTable[k % avgDiffCount]? = diffs[k]? := by
  rw [← Vector.getElem?_toList]
  exact h.ring.slot hk hrecent

/-- The slot before the index, or the last one, was written last. -/
theorem Records.getLastUpdateTime {diff : UInt32} (h : Records u (diffs ++ [diff])) :
    u.getLastUpdateTime = diff := by
  have hval := h.index
  rw [List.length_append, List.length_singleton] at hval
  have hslot := h.slot (k := diffs.length) (by simp) (by simp [avgDiffCount])
  rw [List.getElem?_concat_length] at hslot
  rw [UpdateTime.getLastUpdateTime]
  by_cases hzero : u.updateTimeTableIndex.val ≠ 0
  · have hplace : u.updateTimeTableIndex.val - 1 = diffs.length % avgDiffCount := by
      simp only [avgDiffCount] at hval ⊢
      omega
    rw [if_pos hzero]
    rw [← hplace, Vector.getElem?_eq_getElem (by omega)] at hslot
    exact Option.some.inj hslot
  · have hplace : avgDiffCount - 1 = diffs.length % avgDiffCount := by
      simp only [avgDiffCount] at hval ⊢
      omega
    rw [if_neg hzero]
    rw [← hplace, Vector.getElem?_eq_getElem (by decide)] at hslot
    exact Option.some.inj hslot

/-- The two maxima together reach back to the start of the last round that is complete. -/
theorem Records.getMaxUpdateTimeOfCurrentTable (h : Records u diffs) :
    IsPeak (diffs.drop (complete diffs - avgDiffCount)) u.getMaxUpdateTimeOfCurrentTable := by
  have hlength : complete diffs - avgDiffCount ≤ (diffs.take (complete diffs)).length := by
    rw [List.length_take, Nat.min_eq_left (complete_le diffs)]
    exact Nat.sub_le _ _
  have hsplit : diffs.drop (complete diffs - avgDiffCount) =
      lastRound diffs ++ diffs.drop (complete diffs) := by
    rw [lastRound, ← List.drop_append_of_le_length hlength, List.take_append_drop]
  rw [hsplit]
  exact (h.current.append h.last).perm List.perm_append_comm

end Getters

/-- **The members and the getters, after any calls.**  The last 500 diffs are in the slots of their
numbers, and the other slots have never been written; the sum is that of these diffs, modulo 2^32;
the last one and the greatest of all are given, and the greatest since the start of the last round
that is complete, or of all while there is none. -/
theorem updateTime_spec (diffs : List UInt32) (diff : UInt32) :
    (∀ k < (diffs ++ [diff]).length, (diffs ++ [diff]).length ≤ k + avgDiffCount →
      (after (diffs ++ [diff])).updateTimeDataTable[k % avgDiffCount]? = (diffs ++ [diff])[k]?) ∧
    (∀ i < avgDiffCount, (diffs ++ [diff]).length ≤ i →
      (after (diffs ++ [diff])).updateTimeDataTable[i]? = some 0) ∧
    (after (diffs ++ [diff])).totalUpdateTime.toNat = recentSum (diffs ++ [diff]) % 2 ^ 32 ∧
    (after (diffs ++ [diff])).getLastUpdateTime = diff ∧
    ((after (diffs ++ [diff])).getMaxUpdateTime ∈ diffs ++ [diff] ∧
      ∀ d ∈ diffs ++ [diff], d ≤ (after (diffs ++ [diff])).getMaxUpdateTime) ∧
    ((after (diffs ++ [diff])).getMaxUpdateTimeOfCurrentTable ∈
        (diffs ++ [diff]).drop (complete (diffs ++ [diff]) - avgDiffCount) ∧
      ∀ d ∈ (diffs ++ [diff]).drop (complete (diffs ++ [diff]) - avgDiffCount),
        d ≤ (after (diffs ++ [diff])).getMaxUpdateTimeOfCurrentTable) := by
  have h := records_after (diffs ++ [diff])
  have hne : (diffs ++ [diff]).drop (complete (diffs ++ [diff]) - avgDiffCount) ≠ [] := by
    have hle := complete_le (diffs ++ [diff])
    have hlength : 0 < (diffs ++ [diff]).length := by simp
    rw [Ne, List.drop_eq_nil_iff]
    simp only [avgDiffCount]
    omega
  refine ⟨fun k hk hrecent => h.slot hk hrecent, fun i hi hnew => ?_, ?_, h.getLastUpdateTime,
    h.max.of_ne_nil (by simp), h.getMaxUpdateTimeOfCurrentTable.of_ne_nil hne⟩
  · rw [← Vector.getElem?_toList]
    exact h.ring.unwritten hi hnew
  · rw [h.total, h.tableSum_eq]

end UpdateTime

end WarheadDiscord
