import Mathlib.Data.List.AList
import WarheadDiscord.Lib.Machine

/-!
# Runs that fill a table

A run over a list of items, each of which may add one entry to a table, and may raise a bound.
An entry that is there is not replaced.

* `lookup_insertNew`: one entry.
* `run_fill`: **what is in the table at the end**: of each key the first entry.
* `run_bound`: the bound at the end, as a least upper bound.
* `run_ok_iff_forall`: when the run returns, if each item fails in all states or in none.
* `findSome_prefixed`: the first entry, when the items are names with a common prefix.
-/

namespace WarheadDiscord.Lib

section Table

variable {κ β : Type*} [DecidableEq κ]

/-- An insertion that keeps what is there for the key. -/
def insertNew (table : AList fun _ : κ => β) (key : κ) (value : β) : AList fun _ : κ => β :=
  if key ∈ table then table else table.insert key value

theorem lookup_insertNew (table : AList fun _ : κ => β) (key k : κ) (value : β) :
    (insertNew table key value).lookup k =
      (table.lookup k).or (if key = k then some value else none) := by
  rw [insertNew]
  by_cases hmem : key ∈ table
  · rw [if_pos hmem]
    by_cases hk : key = k
    · subst hk
      obtain ⟨v, hv⟩ := Option.isSome_iff_exists.mp (AList.lookup_isSome.mpr hmem)
      rw [hv, Option.some_or]
    · rw [if_neg hk, Option.or_none]
  · rw [if_neg hmem]
    by_cases hk : key = k
    · subst hk
      rw [AList.lookup_insert, AList.lookup_eq_none.mpr hmem, if_pos rfl, Option.none_or]
    · rw [AList.lookup_insert_ne (Ne.symm hk), if_neg hk, Option.or_none]

end Table

section Fill

variable {σ α ε κ β : Type*} [DecidableEq κ] {step : σ → α → Except ε σ} {I : σ → Prop}

/-- **A table that is filled.** -/
theorem run_fill (look : σ → κ → Option β) (key : α → κ) (value : α → Option β) :
    ∀ (as : List α) (s t : σ),
      (∀ a ∈ as, ∀ s t, I s → step s a = .ok t → I t ∧
        ∀ k, look t k = (look s k).or (if key a = k then value a else none)) →
      I s → run step s as = .ok t →
      I t ∧ ∀ k, look t k =
        (look s k).or (as.findSome? fun a => if key a = k then value a else none) := by
  intro as
  induction as with
  | nil =>
    intro s t _ hs h
    cases h
    exact ⟨hs, fun k => by simp⟩
  | cons a as ih =>
    intro s t hstep hs h
    obtain ⟨m, hm, hr⟩ := run_cons_ok h
    obtain ⟨hi, hlook⟩ := hstep a List.mem_cons_self s m hs hm
    obtain ⟨ht, hrest⟩ := ih m t (fun b hb => hstep b (List.mem_cons_of_mem _ hb)) hi hr
    refine ⟨ht, fun k => ?_⟩
    rw [hrest k, hlook k, Option.or_assoc, List.findSome?_cons]
    cases (if key a = k then value a else none) <;> rfl

/-- **A bound that is raised.** -/
theorem run_bound {ℓ : Type*} [LE ℓ] (bound : σ → ℓ) (level : α → Option ℓ) :
    ∀ (as : List α) (s t : σ),
      (∀ a ∈ as, ∀ s t, step s a = .ok t →
        ∀ l, bound t ≤ l ↔ bound s ≤ l ∧ ∀ v, level a = some v → v ≤ l) →
      run step s as = .ok t →
      ∀ l, bound t ≤ l ↔ bound s ≤ l ∧ ∀ a ∈ as, ∀ v, level a = some v → v ≤ l := by
  intro as
  induction as with
  | nil =>
    intro s t _ h l
    cases h
    simp
  | cons a as ih =>
    intro s t hstep h l
    obtain ⟨m, hm, hr⟩ := run_cons_ok h
    rw [ih m t (fun b hb => hstep b (List.mem_cons_of_mem _ hb)) hr l,
      hstep a List.mem_cons_self s m hm l, List.forall_mem_cons, and_assoc]

/-- Items that fail in all states or in none. -/
theorem run_ok_iff_forall {C : α → Prop} : ∀ (as : List α) (s : σ),
    (∀ a ∈ as, ∀ s, (∃ t, step s a = .ok t) ↔ C a) →
    ((∃ t, run step s as = .ok t) ↔ ∀ a ∈ as, C a) := by
  intro as
  induction as with
  | nil =>
    intro s _
    exact ⟨fun _ a ha => absurd ha List.not_mem_nil, fun _ => ⟨s, rfl⟩⟩
  | cons a as ih =>
    intro s hstep
    rw [List.forall_mem_cons, ← hstep a List.mem_cons_self s]
    have hrest := fun m => ih m fun b hb => hstep b (List.mem_cons_of_mem _ hb)
    constructor
    · rintro ⟨t, ht⟩
      obtain ⟨m, hm, hr⟩ := run_cons_ok ht
      exact ⟨⟨m, hm⟩, (hrest m).mp ⟨t, hr⟩⟩
    · rintro ⟨⟨m, hm⟩, hall⟩
      rw [run_cons_of_ok hm]
      exact (hrest m).mpr hall

end Fill

section Names

variable {γ β : Type*} [DecidableEq γ]

/-- **The first entry of a name**, when the items are the names with a prefix: there is no other
item for it. -/
theorem findSome_prefixed {names : List (List γ)} {pre : List γ}
    (hpre : ∀ n ∈ names, pre <+: n) (value : List γ → Option β) (name : List γ) :
    (names.findSome? fun n => if n.drop pre.length = name then value n else none) =
      if pre ++ name ∈ names then value (pre ++ name) else none := by
  induction names with
  | nil => simp
  | cons n names ih =>
    have hn : n.drop pre.length = name ↔ pre ++ name = n := by
      obtain ⟨rest, rfl⟩ := hpre n List.mem_cons_self
      rw [List.drop_left, List.append_cancel_left_eq]
      exact eq_comm
    rw [List.findSome?_cons, ih fun n hn => hpre n (List.mem_cons_of_mem _ hn)]
    simp only [List.mem_cons, hn]
    by_cases heq : pre ++ name = n
    · subst heq
      cases value (pre ++ name) <;> simp
    · simp [heq]

end Names

end WarheadDiscord.Lib
