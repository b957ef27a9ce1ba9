import Mathlib.Tactic.Common

/-!
# Binary search for an upper bound

`upperBound p l` halves a range of indices of `l` until it is empty, and keeps the left half where
`p` holds of the element in the middle.

* `search_spec`: where the search ends, if `p` holds from some index on.
* `getElem?_upperBound`: in a list that `p` cuts in two, it is the first element with `p`.
-/

namespace WarheadDiscord.Lib

/-- The loop, on the `len` indices from `first` on. -/
def search (p : Nat → Bool) : Nat → Nat → Nat → Nat
  | 0, first, _ => first
  | fuel + 1, first, len =>
    if len = 0 then first
    else
      let half := len / 2
      let middle := first + half
      if p middle then search p fuel first half
      else search p fuel (middle + 1) (len - half - 1)

/-- As much fuel as there are indices is enough. -/
theorem search_spec {p : Nat → Bool} {bound : Nat} (hp : ∀ i, p i = true ↔ bound ≤ i)
    {fuel first len : Nat} (hfuel : len ≤ fuel) (hfirst : first ≤ bound)
    (hlen : bound ≤ first + len) : search p fuel first len = bound := by
  induction fuel generalizing first len with
  | zero =>
    rw [search]
    omega
  | succ fuel ih =>
    rw [search]
    by_cases hzero : len = 0
    · rw [if_pos hzero]
      omega
    · rw [if_neg hzero]
      dsimp only
      by_cases hmiddle : p (first + len / 2) = true
      · rw [if_pos hmiddle]
        exact ih (by omega) hfirst ((hp _).mp hmiddle)
      · have hlt : first + len / 2 < bound := Nat.lt_of_not_le fun h => hmiddle ((hp _).mpr h)
        rw [if_neg hmiddle]
        exact ih (by omega) hlt (by omega)

variable {α : Type*}

/-- The index where the search in `l` ends.  An index behind the end is never looked at. -/
def upperBound (p : α → Bool) (l : List α) : Nat :=
  search (fun i => l[i]?.all p) l.length 0 l.length

variable {p : α → Bool} {l : List α}

/-- **The search finds the border** between the elements without `p` and those with it. -/
theorem upperBound_append {before behind : List α} (hbefore : ∀ a ∈ before, p a = false)
    (hbehind : ∀ a ∈ behind, p a = true) :
    upperBound p (before ++ behind) = before.length := by
  apply search_spec _ (Nat.le_refl _) (Nat.zero_le _) (by simp)
  intro i
  by_cases hi : before.length ≤ i
  · rw [List.getElem?_append_right hi]
    refine iff_of_true ?_ hi
    cases ha : behind[i - before.length]? with
    | none => rfl
    | some a => exact hbehind a (List.mem_of_getElem? ha)
  · have hlt : i < before.length := Nat.lt_of_not_le hi
    rw [List.getElem?_append_left hlt, List.getElem?_eq_getElem hlt]
    refine iff_of_false ?_ hi
    rw [Option.all_some, hbefore _ (List.getElem_mem hlt)]
    exact Bool.false_ne_true

/-- **The search finds the first element with `p`.** -/
theorem getElem?_upperBound (hl : l.Pairwise fun a b => p a = true → p b = true) :
    l[upperBound p l]? = l.find? p := by
  cases hfind : l.find? p with
  | none =>
    have hnone : ∀ a ∈ l, p a = false := fun a ha =>
      Bool.eq_false_iff.mpr (List.find?_eq_none.mp hfind a ha)
    have hend : upperBound p (l ++ []) = l.length :=
      upperBound_append hnone fun a ha => absurd ha List.not_mem_nil
    rw [List.append_nil] at hend
    rw [hend]
    exact List.getElem?_eq_none (Nat.le_refl _)
  | some a =>
    obtain ⟨ha, before, behind, rfl, hbefore⟩ := List.find?_eq_some_iff_append.mp hfind
    have hbehind : ∀ b ∈ a :: behind, p b = true := by
      intro b hb
      rcases List.mem_cons.mp hb with rfl | hb
      · exact ha
      · exact (List.pairwise_cons.mp (List.pairwise_append.mp hl).2.1).1 b hb ha
    rw [upperBound_append (fun b hb => by simpa using hbefore b hb) hbehind,
      List.getElem?_append_right (Nat.le_refl _), Nat.sub_self, List.getElem?_cons_zero]

end WarheadDiscord.Lib
