import Mathlib.Logic.Relation
import Mathlib.Tactic.Common

/-!
# Texts with separators

* `length_splitOn`, `notMem_of_mem_splitOn`: the parts of a text between its separators.
* `filter_splitOn_intercalate`, `intercalate_concat`: parts that are put together.
* `Cut`: the text in front of the last separator, of which there is at most one.
* `Cuts`: what cutting again and again leaves.
-/

namespace WarheadDiscord.Lib

variable {α : Type*} {sep : α}

/-! ### Parts -/

section Parts

variable [DecidableEq α]

theorem length_splitOn (sep : α) (l : List α) : (l.splitOn sep).length = l.count sep + 1 := by
  induction l with
  | nil => rfl
  | cons x l ih =>
    rw [List.splitOn_cons_eq_if_modifyHead, List.count_cons]
    by_cases h : x = sep
    · rw [if_pos (beq_iff_eq.mpr h), if_pos (beq_iff_eq.mpr h), List.length_cons, ih]
    · rw [if_neg (by simpa using h), if_neg (by simpa using h), List.length_modifyHead, ih]

theorem notMem_of_mem_splitOn {l t : List α} (h : t ∈ l.splitOn sep) : sep ∉ t := by
  induction l generalizing t with
  | nil =>
    rw [List.splitOn_nil, List.mem_singleton] at h
    simp [h]
  | cons x l ih =>
    obtain ⟨first, rest, hparts⟩ := List.exists_cons_of_ne_nil (List.splitOn_ne_nil sep l)
    rw [List.splitOn_cons_eq_if_modifyHead] at h
    rw [hparts] at h ih
    by_cases hx : x = sep
    · rw [if_pos (beq_iff_eq.mpr hx)] at h
      rcases List.mem_cons.mp h with rfl | h
      · exact List.not_mem_nil
      · exact ih h
    · rw [if_neg (by simpa using hx), List.modifyHead_cons] at h
      rcases List.mem_cons.mp h with rfl | h
      · have hfirst : sep ∉ first := ih List.mem_cons_self
        simpa [hfirst] using Ne.symm hx
      · exact ih (List.mem_cons_of_mem _ h)

theorem filter_splitOn_intercalate {parts : List (List α)} (hsep : ∀ part ∈ parts, sep ∉ part)
    (hne : ∀ part ∈ parts, part ≠ []) :
    (([sep].intercalate parts).splitOn sep).filter (· ≠ []) = parts := by
  by_cases hnil : parts = []
  · rw [hnil, List.intercalate_nil, List.splitOn_nil]
    rfl
  · rw [List.splitOn_intercalate sep hsep hnil, List.filter_eq_self]
    exact fun part hpart => by simpa using hne part hpart

end Parts

/-- What is put together with separators between the parts ends with the last one. -/
theorem intercalate_concat (sep : α) (parts : List (List α)) (last : List α) :
    [sep].intercalate (parts ++ [last]) = parts.flatMap (· ++ [sep]) ++ last := by
  induction parts with
  | nil => exact List.intercalate_singleton
  | cons part parts ih =>
    rw [List.cons_append, List.intercalate_cons_of_ne_nil (by simp), ih, List.flatMap_cons,
      List.append_assoc, List.append_assoc, List.append_assoc]

/-! ### Cutting at the last separator -/

/-- `s` is the text in front of the last separator of `t`. -/
def Cut (sep : α) (t s : List α) : Prop := ∃ rest, sep ∉ rest ∧ t = s ++ sep :: rest

/-- `s` is left of `t` after some cuts. -/
def Cuts (sep : α) : List α → List α → Prop := Relation.ReflTransGen (Cut sep)

variable {t s u : List α}

theorem Cut.length_lt (h : Cut sep t s) : s.length < t.length := by
  obtain ⟨rest, -, rfl⟩ := h
  simp

theorem Cut.subset (h : Cut sep t s) : s ⊆ t := by
  obtain ⟨rest, -, rfl⟩ := h
  exact List.subset_append_left _ _

theorem Cut.mem (h : Cut sep t s) : sep ∈ t := by
  obtain ⟨rest, -, rfl⟩ := h
  simp

theorem Cut.unique (hs : Cut sep t s) (hu : Cut sep t u) : s = u := by
  obtain ⟨rest, hrest, rfl⟩ := hs
  obtain ⟨rest', hrest', h⟩ := hu
  -- Neither of the two separators lies behind the other.
  rcases List.append_eq_append_iff.mp h with ⟨mid, rfl, hmid⟩ | ⟨mid, rfl, hmid⟩
  · cases mid with
    | nil => simp
    | cons c mid =>
      rw [List.cons_append, List.cons.injEq] at hmid
      exact absurd (by rw [hmid.2]; simp) hrest
  · cases mid with
    | nil => simp
    | cons c mid =>
      rw [List.cons_append, List.cons.injEq] at hmid
      exact absurd (by rw [hmid.2]; simp) hrest'

theorem cuts_of_notMem (h : sep ∉ t) : Cuts sep t s ↔ s = t := by
  rw [Cuts, Relation.ReflTransGen.cases_head_iff]
  constructor
  · rintro (rfl | ⟨u, hu, -⟩)
    · rfl
    · exact absurd hu.mem h
  · rintro rfl
    exact Or.inl rfl

theorem cuts_of_cut (h : Cut sep t u) : Cuts sep t s ↔ s = t ∨ Cuts sep u s := by
  rw [Cuts, Relation.ReflTransGen.cases_head_iff]
  constructor
  · rintro (rfl | ⟨v, hv, hs⟩)
    · exact Or.inl rfl
    · exact Or.inr (h.unique hv ▸ hs)
  · rintro (rfl | hs)
    · exact Or.inl rfl
    · exact Or.inr ⟨u, h, hs⟩

theorem Cuts.length_le (h : Cuts sep t s) : s.length ≤ t.length := by
  induction h with
  | refl => exact Nat.le_refl _
  | tail _ hcut ih => exact Nat.le_trans (Nat.le_of_lt hcut.length_lt) ih

end WarheadDiscord.Lib
