import Mathlib.Algebra.BigOperators.Group.List.Basic
import Mathlib.Data.List.Rotate
import Mathlib.Tactic.Common

/-!
# Ring buffers

A table of `size` slots, all `z` at first, that is written slot after slot and from the first one
again behind the last.

* `Ring`: the slots and the next one to be written.  `Ring.push` writes it.
* `window`: the last `size` elements of a history that starts with `z` in every slot.
* `Ring.Holds`: read from the next slot on, the table is the window of a history.
* `Holds.slot`, `Holds.unwritten`: where each of the last elements is.
* `Holds.sum_map`: sums over the table.
-/

namespace WarheadDiscord.Lib

variable {α β : Type*} {size : ℕ} {z : α}

/-- A table and the slot that is written next. -/
structure Ring (α : Type*) (size : ℕ) where
  table : List α
  next : ℕ
  length_table : table.length = size
  next_lt : next < size

def Ring.push (r : Ring α size) (a : α) : Ring α size where
  table := r.table.set r.next a
  next := (r.next + 1) % size
  length_table := by rw [List.length_set, r.length_table]
  next_lt := Nat.mod_lt _ (Nat.lt_of_le_of_lt (Nat.zero_le _) r.next_lt)

/-- The last elements of a history. -/
def recent (size : ℕ) (history : List α) : List α := history.drop (history.length - size)

/-- The same, with `z` for what is missing. -/
def window (size : ℕ) (z : α) (history : List α) : List α :=
  List.replicate (size - history.length) z ++ recent size history

/-! ### Windows -/

theorem length_recent (size : ℕ) (history : List α) :
    (recent size history).length = min history.length size := by
  rw [recent, List.length_drop]
  omega

theorem window_eq_drop (size : ℕ) (z : α) (history : List α) :
    window size z history = (List.replicate size z ++ history).drop history.length := by
  rw [List.drop_append, List.drop_replicate, List.length_replicate, window, recent]

theorem window_concat (hsize : 0 < size) (z : α) (history : List α) (a : α) :
    window size z (history ++ [a]) = (window size z history).tail ++ [a] := by
  have hle : history.length + 1 ≤ (List.replicate size z ++ history).length := by
    rw [List.length_append, List.length_replicate]
    omega
  rw [window_eq_drop, window_eq_drop, List.length_append, List.length_singleton,
    ← List.append_assoc, List.drop_append_of_le_length hle, List.tail_drop]

/-! ### Rings -/

theorem rotate_set {l : List α} {i : ℕ} (h : i < l.length) (a : α) :
    (l.set i a).rotate (i + 1) = (l.rotate i).tail ++ [a] := by
  have hset : i + 1 ≤ (l.set i a).length := by
    rw [List.length_set]
    exact h
  rw [List.rotate_eq_drop_append_take hset, List.rotate_eq_drop_append_take (Nat.le_of_lt h),
    List.drop_set_of_lt (Nat.lt_succ_self i), List.drop_eq_getElem_cons h, List.cons_append,
    List.tail_cons, List.append_assoc, List.take_succ_eq_append_getElem hset, List.getElem_set_self,
    List.take_set_of_le (Nat.le_refl i)]

theorem sum_map_set [AddCommMonoid β] {l : List α} {i : ℕ} (h : i < l.length) (a : α)
    (f : α → β) : ((l.set i a).map f).sum + f l[i] = (l.map f).sum + f a := by
  have hsplit : (l.map f).sum =
      ((l.take i).map f).sum + (f l[i] + ((l.drop (i + 1)).map f).sum) := by
    conv_lhs => rw [← List.take_append_drop i l, List.drop_eq_getElem_cons h]
    rw [List.map_append, List.sum_append, List.map_cons, List.sum_cons]
  have hset : ((l.set i a).map f).sum =
      ((l.take i).map f).sum + (f a + ((l.drop (i + 1)).map f).sum) := by
    rw [List.set_eq_take_append_cons_drop, if_pos h, List.map_append, List.sum_append,
      List.map_cons, List.sum_cons]
  rw [hset, hsplit]
  ac_rfl

/-- The table is the window of the history, from the next slot on. -/
structure Ring.Holds (r : Ring α size) (z : α) (history : List α) : Prop where
  next : r.next = history.length % size
  rotate : r.table.rotate r.next = window size z history

theorem Ring.holds_nil {r : Ring α size} (htable : r.table = List.replicate size z)
    (hnext : r.next = 0) : r.Holds z [] where
  next := by rw [hnext, List.length_nil, Nat.zero_mod]
  rotate := by simp [htable, hnext, window, recent]

theorem Ring.Holds.push {r : Ring α size} {history : List α} (h : r.Holds z history) (a : α) :
    (r.push a).Holds z (history ++ [a]) where
  next := by
    have hnext : (r.push a).next = (r.next + 1) % size := rfl
    rw [hnext, h.next, List.length_append, List.length_singleton, Nat.mod_add_mod]
  rotate := by
    have hsize : 0 < size := Nat.lt_of_le_of_lt (Nat.zero_le _) r.next_lt
    have hlt : r.next < r.table.length := r.length_table.symm ▸ r.next_lt
    have hturn := List.rotate_mod (r.table.set r.next a) (r.next + 1)
    rw [List.length_set, r.length_table] at hturn
    rw [window_concat hsize, ← h.rotate, ← rotate_set hlt]
    exact hturn

section Slots

variable {r : Ring α size} {history : List α}

/-- **Each of the last elements is in the slot of its number.** -/
theorem Ring.Holds.slot (h : r.Holds z history) {k : ℕ} (hk : k < history.length)
    (hrecent : history.length ≤ k + size) :
    r.table[k % size]? = history[k]? := by
  have hsize : 0 < size := Nat.lt_of_le_of_lt (Nat.zero_le _) r.next_lt
  have hlength := r.length_table
  have hplace : k + size - history.length < r.table.length := by omega
  have hindex : (k + size - history.length + r.next) % r.table.length = k % size := by
    rw [hlength, h.next, Nat.add_mod_mod, Nat.sub_add_cancel hrecent, Nat.add_mod_right]
  have hrotate := List.getElem?_rotate hplace (n := r.next)
  rw [hindex, h.rotate, window_eq_drop, List.getElem?_drop] at hrotate
  rw [← hrotate, List.getElem?_append_right (by rw [List.length_replicate]; omega),
    List.length_replicate]
  congr 1
  omega

theorem Ring.Holds.unwritten (h : r.Holds z history) {i : ℕ} (hi : i < size)
    (hnew : history.length ≤ i) : r.table[i]? = some z := by
  have hlength := r.length_table
  have hnext : r.next = history.length := by
    rw [h.next, Nat.mod_eq_of_lt (Nat.lt_of_le_of_lt hnew hi)]
  have hplace : i - history.length < r.table.length := by omega
  have hindex : (i - history.length + r.next) % r.table.length = i := by
    rw [hnext, Nat.sub_add_cancel hnew, hlength, Nat.mod_eq_of_lt hi]
  have hrotate := List.getElem?_rotate hplace (n := r.next)
  rw [hindex, h.rotate, window, List.getElem?_append_left (by
    rw [List.length_replicate]
    omega)] at hrotate
  rw [← hrotate, List.getElem?_replicate_of_lt (by omega)]

/-- **A sum over the table** is one over the last elements of the history. -/
theorem Ring.Holds.sum_map [AddCommMonoid β] (h : r.Holds z history) (f : α → β) (hz : f z = 0) :
    (r.table.map f).sum = ((recent size history).map f).sum := by
  have hperm : (r.table.map f).Perm ((window size z history).map f) := by
    rw [← h.rotate]
    exact (List.rotate_perm r.table r.next).symm.map f
  rw [hperm.sum_eq, window, List.map_append, List.sum_append, List.map_replicate, hz,
    List.sum_replicate, nsmul_zero, zero_add]

end Slots

end WarheadDiscord.Lib
