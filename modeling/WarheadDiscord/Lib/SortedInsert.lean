import Mathlib.Data.List.Pairwise
import Mathlib.Order.Lattice
import Mathlib.Tactic.Common

/-!
# Insertion into a sorted list

`insertSorted key a l` puts `a` behind every element of `l` whose key is not greater, as
a multimap does with an element of a key that it has.

* `insertSorted_perm`: it adds `a` and nothing else.
* `pairwise_insertSorted`: what holds between the elements in their order still holds
  afterwards, if `a` has it to the ones before and the ones behind.  The sortedness and
  the order of insertion among equal keys are instances.
-/

namespace WarheadDiscord.Lib

variable {α κ : Type*} [LinearOrder κ]

def insertSorted (key : α → κ) (a : α) : List α → List α
  | [] => [a]
  | x :: xs => if key a < key x then a :: x :: xs else x :: insertSorted key a xs

variable {key : α → κ} {a : α} {l : List α} {R : α → α → Prop}

theorem insertSorted_perm (key : α → κ) (a : α) (l : List α) :
    (insertSorted key a l).Perm (a :: l) := by
  induction l with
  | nil => exact List.Perm.refl _
  | cons x xs ih =>
    rw [insertSorted]
    by_cases h : key a < key x
    · rw [if_pos h]
    · rw [if_neg h]
      exact (ih.cons x).trans (List.Perm.swap a x xs)

@[simp] theorem mem_insertSorted {x : α} : x ∈ insertSorted key a l ↔ x = a ∨ x ∈ l := by
  rw [(insertSorted_perm key a l).mem_iff, List.mem_cons]

/-- **What insertion keeps.**  In a list that is sorted, the ones before `a` have a key that is
not greater than its own, and the ones behind it a greater one. -/
theorem pairwise_insertSorted (hs : l.Pairwise fun x y => key x ≤ key y) (hl : l.Pairwise R)
    (hbefore : ∀ x ∈ l, key x ≤ key a → R x a) (hbehind : ∀ x ∈ l, key a < key x → R a x) :
    (insertSorted key a l).Pairwise R := by
  induction l with
  | nil => exact List.pairwise_singleton R a
  | cons x xs ih =>
    obtain ⟨hx, hxs⟩ := List.pairwise_cons.mp hs
    rw [insertSorted]
    by_cases h : key a < key x
    · rw [if_pos h]
      refine List.pairwise_cons.mpr ⟨fun y hy => hbehind y hy ?_, hl⟩
      rcases List.mem_cons.mp hy with rfl | hy
      · exact h
      · exact lt_of_lt_of_le h (hx y hy)
    · rw [if_neg h]
      obtain ⟨hr, hrs⟩ := List.pairwise_cons.mp hl
      refine List.pairwise_cons.mpr ⟨fun y hy => ?_, ih hxs hrs ?_ ?_⟩
      · rcases mem_insertSorted.mp hy with rfl | hy
        · exact hbefore x (by simp) (not_lt.mp h)
        · exact hr y hy
      · exact fun y hy => hbefore y (by simp [hy])
      · exact fun y hy => hbehind y (by simp [hy])

theorem filter_insertSorted {p : α → Bool} (h : p a = false) :
    (insertSorted key a l).filter p = l.filter p := by
  induction l with
  | nil => simp [insertSorted, h]
  | cons x xs ih =>
    rw [insertSorted]
    by_cases hlt : key a < key x
    · rw [if_pos hlt, List.filter_cons_of_neg (by simp [h])]
    · rw [if_neg hlt, List.filter_cons, List.filter_cons, ih]

/-! ### One after the other -/

/-- All of `cache`, in its order. -/
def insertSortedAll (key : α → κ) (cache l : List α) : List α :=
  cache.foldl (fun l a => insertSorted key a l) l

variable {cache : List α}

theorem insertSortedAll_cons (key : α → κ) (a : α) (cache l : List α) :
    insertSortedAll key (a :: cache) l = insertSortedAll key cache (insertSorted key a l) := rfl

theorem insertSortedAll_perm (key : α → κ) (cache : List α) :
    ∀ l, (insertSortedAll key cache l).Perm (cache ++ l) := by
  induction cache with
  | nil => exact fun l => List.Perm.refl l
  | cons a cache ih =>
    intro l
    rw [insertSortedAll_cons]
    exact (ih _).trans (((insertSorted_perm key a l).append_left cache).trans List.perm_middle)

theorem pairwise_insertSortedAll (cache : List α) : ∀ l : List α,
    l.Pairwise (fun x y => key x ≤ key y) →
      (insertSortedAll key cache l).Pairwise fun x y => key x ≤ key y := by
  induction cache with
  | nil => exact fun _ h => h
  | cons a cache ih =>
    intro l h
    exact ih _ (pairwise_insertSorted h h (fun _ _ hle => hle) fun _ _ hlt => le_of_lt hlt)

theorem filter_insertSortedAll {p : α → Bool} (h : ∀ a ∈ cache, p a = false) :
    ∀ l, (insertSortedAll key cache l).filter p = l.filter p := by
  induction cache with
  | nil => exact fun _ => rfl
  | cons a cache ih =>
    intro l
    rw [insertSortedAll_cons, ih (fun x hx => h x (List.mem_cons_of_mem a hx)),
      filter_insertSorted (h a (List.mem_cons_self ..))]

end WarheadDiscord.Lib
