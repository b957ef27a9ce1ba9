import Mathlib.Algebra.Order.Ring.Nat

/-!
# Texts of blocks

A list that is made of blocks of one length, and its elements by the number of the block and the
place in it.

* `length_flatMap_of_length`, `getElem?_flatMap_of_length`: the length and the elements.
* `take_drop_succ`: the next elements, one after the other.
-/

namespace WarheadDiscord.Lib

variable {α β : Type*} {block : α → List β} {n : Nat}

theorem length_flatMap_of_length (hblock : ∀ a, (block a).length = n) (l : List α) :
    (l.flatMap block).length = l.length * n := by
  induction l with
  | nil => rw [List.flatMap_nil, List.length_nil, List.length_nil, Nat.zero_mul]
  | cons a l ih =>
    rw [List.flatMap_cons, List.length_append, hblock, ih, List.length_cons, Nat.succ_mul,
      Nat.add_comm]

/-- **An element of a text of blocks.** -/
theorem getElem?_flatMap_of_length (hblock : ∀ a, (block a).length = n) (l : List α) (i : Nat)
    {j : Nat} (hj : j < n) :
    (l.flatMap block)[i * n + j]? = l[i]?.bind fun a => (block a)[j]? := by
  induction l generalizing i with
  | nil => rfl
  | cons a l ih =>
    rw [List.flatMap_cons]
    cases i with
    | zero =>
      rw [Nat.zero_mul, Nat.zero_add, List.getElem?_append_left (by rw [hblock]; exact hj)]
      rfl
    | succ i =>
      have hsub : (i + 1) * n + j - n = i * n + j := by
        rw [Nat.succ_mul]
        omega
      rw [List.getElem?_append_right (by rw [hblock, Nat.succ_mul]; omega), hblock, hsub, ih,
        List.getElem?_cons_succ]

theorem take_drop_succ {l : List α} {i : Nat} {a : α} (h : l[i]? = some a) (k : Nat) :
    (l.drop i).take (k + 1) = a :: (l.drop (i + 1)).take k := by
  obtain ⟨hi, rfl⟩ := List.getElem?_eq_some_iff.mp h
  rw [List.drop_eq_getElem_cons hi, List.take_succ_cons]

end WarheadDiscord.Lib
