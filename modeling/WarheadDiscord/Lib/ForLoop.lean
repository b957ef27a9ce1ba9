import Mathlib.Tactic.Common

/-!
# Loops with an index

`for (i = init; i != last; i = next(i)) body(i)`, where the body and the next index may fail.

* `forLoop`: the loop, with fuel for its turns.
* `forLoop_rule`: the loop ends behind the last index, and keeps an invariant.
-/

namespace WarheadDiscord.Lib

variable {ι σ ε : Type*} [DecidableEq ι] {outOfFuel : ε} {next : ι → Except ε ι}
  {body : ι → σ → Except ε σ} {last : ι}

def forLoop (outOfFuel : ε) (next : ι → Except ε ι) (body : ι → σ → Except ε σ) (last : ι) :
    Nat → ι → σ → Except ε σ
  | 0, _, _ => .error outOfFuel
  | fuel + 1, i, s =>
    if i = last then .ok s
    else
      match body i s with
      | .error e => .error e
      | .ok s =>
        match next i with
        | .error e => .error e
        | .ok i => forLoop outOfFuel next body last fuel i s

section Rule

variable {idx : Nat → ι} {Inv : Nat → σ → Prop} {n : Nat}

/-- The turns from the `k`-th on, by induction on how many are left. -/
theorem forLoop_from (hlast : idx n = last) (hne : ∀ k < n, idx k ≠ last)
    (hnext : ∀ k < n, next (idx k) = .ok (idx (k + 1)))
    (hbody : ∀ k < n, ∀ s, Inv k s → ∃ t, body (idx k) s = .ok t ∧ Inv (k + 1) t)
    {left k fuel : Nat} {s : σ} (hk : k + left = n) (hfuel : left < fuel) (hs : Inv k s) :
    ∃ t, forLoop outOfFuel next body last fuel (idx k) s = .ok t ∧ Inv n t := by
  induction left generalizing k fuel s with
  | zero =>
    obtain ⟨fuel, rfl⟩ : ∃ f, fuel = f + 1 := ⟨fuel - 1, by omega⟩
    rw [Nat.add_zero] at hk
    rw [← hk] at hlast ⊢
    exact ⟨s, by rw [forLoop, if_pos hlast], hs⟩
  | succ left ih =>
    obtain ⟨fuel, rfl⟩ : ∃ f, fuel = f + 1 := ⟨fuel - 1, by omega⟩
    have hlt : k < n := by omega
    obtain ⟨s', hs', hinv⟩ := hbody k hlt s hs
    obtain ⟨t, ht, hend⟩ := ih (k := k + 1) (by omega) (Nat.lt_of_succ_lt_succ hfuel) hinv
    refine ⟨t, ?_, hend⟩
    rw [forLoop, if_neg (hne k hlt), hs', hnext k hlt]
    exact ht

/-- **A loop over `n` indices**, with what holds in front of each turn. -/
theorem forLoop_rule (idx : Nat → ι) (Inv : Nat → σ → Prop) {fuel : Nat} {s : σ}
    (hfuel : n < fuel) (hlast : idx n = last) (hne : ∀ k < n, idx k ≠ last)
    (hnext : ∀ k < n, next (idx k) = .ok (idx (k + 1)))
    (hbody : ∀ k < n, ∀ s, Inv k s → ∃ t, body (idx k) s = .ok t ∧ Inv (k + 1) t)
    (hs : Inv 0 s) :
    ∃ t, forLoop outOfFuel next body last fuel (idx 0) s = .ok t ∧ Inv n t :=
  forLoop_from hlast hne hnext hbody (Nat.zero_add n) hfuel hs

end Rule

end WarheadDiscord.Lib
