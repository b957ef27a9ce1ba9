import WarheadDiscord.Lib.Machine

/-!
# How a computation can end

`Ends E P x` says of a computation `x` that can fail: if it returns, then with a value
that has `P`, and if it fails, then with a failure that has `E`.  It is the triple of a
program logic for `Except`, without the precondition.

* `Ends.bind`: the rule for a sequence.
* `ends_run`: the rule for a run, whose steps keep an invariant.
* `Returns`: the case that no failure is allowed.
-/

namespace WarheadDiscord.Lib

variable {α β ε : Type _} {σ τ : Type*}

/-- The value has `P`, or the failure has `E`. -/
def Ends (E : ε → Prop) (P : α → Prop) : Except ε α → Prop
  | .ok a => P a
  | .error e => E e

section Rules

variable {E : ε → Prop} {P Q : α → Prop} {x : Except ε α}

theorem Ends.of_ok {a : α} (h : Ends E P x) (hx : x = .ok a) : P a := by
  subst hx
  exact h

theorem Ends.of_error {e : ε} (h : Ends E P x) (hx : x = .error e) : E e := by
  subst hx
  exact h

theorem Ends.mono (h : Ends E P x) (hpq : ∀ a, P a → Q a) : Ends E Q x := by
  cases x with
  | ok a => exact hpq a h
  | error e => exact h

/-- **The rule for a sequence.** -/
theorem Ends.bind {R : β → Prop} {f : α → Except ε β} (h : Ends E P x)
    (hf : ∀ a, P a → Ends E R (f a)) : Ends E R (x >>= f) := by
  cases x with
  | ok a => exact hf a h
  | error e => exact h

/-- The computation returns, with a value that has `P`. -/
abbrev Returns (P : α → Prop) (x : Except ε α) : Prop := Ends (fun _ => False) P x

theorem Returns.exists_ok (h : Returns P x) : ∃ a, x = .ok a ∧ P a := by
  cases x with
  | ok a => exact ⟨a, rfl, h⟩
  | error e => exact h.elim

theorem returns_require {p : Prop} [Decidable p] {e : ε} (hp : p) :
    Returns (fun _ => True) (if p then (.ok () : Except ε Unit) else .error e) := by
  rw [if_pos hp]
  trivial

/-- **The rule for a run.** -/
theorem ends_run {step : σ → τ → Except ε σ} {I : σ → Prop}
    (hstep : ∀ s a, I s → Ends E I (step s a)) :
    ∀ (as : List τ) (s : σ), I s → Ends E I (run step s as) := by
  intro as
  induction as with
  | nil => intro s hs; exact hs
  | cons a as ih =>
    intro s hs
    have h := hstep s a hs
    rw [run]
    cases ha : step s a with
    | ok t => rw [ha] at h; exact ih t h
    | error e => rw [ha] at h; exact h

end Rules

end WarheadDiscord.Lib
