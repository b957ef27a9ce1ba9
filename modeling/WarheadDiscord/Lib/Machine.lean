import Mathlib.Data.List.Infix
import Mathlib.Tactic.Common

/-!
# Runs of a step function that can fail

A program that reacts to events is a step function `step : σ → α → Except ε σ`.
A run takes a list of actions, and it ends early when a step fails.

* `run`: the state after all the actions, or the first failure.
* `Visits`: the states that a run goes through.
* `Each`: every step of the run that succeeds met a condition on the state
  before it and on its action.
* `Meets`: every step meets a condition, also one that then fails.
* `run_of_meets`, `run_ok_iff_meets`: **progress**, when the condition rules out failure,
  and when it does so exactly.
* `visits_invariant`, `visits_iff_each`: an invariant from one step to all the
  states of a run, and a condition that is exactly what keeps the invariant.
* `safe_iff_meets`: the same when a step may also fail in a bad way.
* `visits_of_end`: what no step brings about, from the end of a run backwards.
* `run_simulates`: a run of an abstract machine that a concrete one follows.
-/

namespace WarheadDiscord.Lib

variable {σ α ε : Type*}

/-- The state after the actions, or the failure of the first step that fails. -/
def run (step : σ → α → Except ε σ) : σ → List α → Except ε σ
  | s, [] => .ok s
  | s, a :: as =>
    match step s a with
    | .ok t => run step t as
    | .error e => .error e

/-- The run from `s` goes through `t`. -/
def Visits (step : σ → α → Except ε σ) (s : σ) (as : List α) (t : σ) : Prop :=
  ∃ pre, pre <+: as ∧ run step s pre = .ok t

/-- Every step of the run from `s` that succeeds meets `C`. -/
def Each (step : σ → α → Except ε σ) (C : σ → α → Prop) : σ → List α → Prop
  | _, [] => True
  | s, a :: as => ∀ t, step s a = .ok t → C s a ∧ Each step C t as

/-- Every step of the run from `s` meets `C`, whether it then succeeds or not. -/
def Meets (step : σ → α → Except ε σ) (C : σ → α → Prop) : σ → List α → Prop
  | _, [] => True
  | s, a :: as => C s a ∧ ∀ t, step s a = .ok t → Meets step C t as

/-- A chain of two computations that ends well, taken apart. -/
theorem bind_ok {α β : Type _} {x : Except ε α} {f : α → Except ε β} {b : β}
    (h : (x >>= f) = .ok b) : ∃ a, x = .ok a ∧ f a = .ok b := by
  cases x with
  | ok a => exact ⟨a, rfl, h⟩
  | error e => cases h

theorem ok_bind {α β : Type _} (a : α) (f : α → Except ε β) :
    ((Except.ok a : Except ε α) >>= f) = f a := rfl

theorem no_ok {α : Type*} (e : ε) : ¬ ∃ a : α, (Except.error e : Except ε α) = .ok a := by
  rintro ⟨a, h⟩
  cases h

/-- A result that a test can see. -/
theorem ok_of_any {α : Type*} {x : Except ε α} {p : α → Bool} (h : x.toOption.any p = true) :
    ∃ a, x = .ok a ∧ p a = true := by
  cases x with
  | ok a => exact ⟨a, rfl, h⟩
  | error e => cases h

/-- The same for a result that may be missing. -/
theorem ok_some_of_any {α : Type*} {x : Except ε (Option α)} {p : α → Bool}
    (h : x.toOption.join.any p = true) : ∃ a, x = .ok (some a) ∧ p a = true := by
  rcases x with e | _ | a
  · cases h
  · cases h
  · exact ⟨a, rfl, h⟩

section Runs

variable {step : σ → α → Except ε σ} {s t u : σ} {a : α} {as bs : List α}

theorem run_cons_of_ok (h : step s a = .ok t) : run step s (a :: as) = run step t as := by
  rw [run, h]

theorem run_cons_ok (h : run step s (a :: as) = .ok u) :
    ∃ t, step s a = .ok t ∧ run step t as = .ok u := by
  rw [run] at h
  cases ha : step s a with
  | ok t => rw [ha] at h; exact ⟨t, rfl, h⟩
  | error e => rw [ha] at h; cases h

theorem run_append_of_ok (h : run step s as = .ok t) :
    run step s (as ++ bs) = run step t bs := by
  induction as generalizing s with
  | nil => cases h; rfl
  | cons a as ih =>
    obtain ⟨m, hm, hr⟩ := run_cons_ok h
    rw [List.cons_append, run_cons_of_ok hm]
    exact ih hr

theorem run_append_ok (h : run step s (as ++ bs) = .ok u) :
    ∃ t, run step s as = .ok t ∧ run step t bs = .ok u := by
  induction as generalizing s with
  | nil => exact ⟨s, rfl, h⟩
  | cons a as ih =>
    rw [List.cons_append] at h
    obtain ⟨m, hm, h⟩ := run_cons_ok h
    obtain ⟨t, ht, hu⟩ := ih h
    exact ⟨t, by rw [run_cons_of_ok hm]; exact ht, hu⟩

theorem run_returns : ∀ (as : List α) (s : σ),
    (∀ a ∈ as, ∀ s, ∃ t, step s a = .ok t) → ∃ t, run step s as = .ok t := by
  intro as
  induction as with
  | nil => exact fun s _ => ⟨s, rfl⟩
  | cons a as ih =>
    intro s h
    obtain ⟨t, ht⟩ := h a List.mem_cons_self s
    rw [run_cons_of_ok ht]
    exact ih t fun b hb => h b (List.mem_cons_of_mem _ hb)

theorem visits_start : Visits step s as s := ⟨[], List.nil_prefix, rfl⟩

theorem visits_of_run (h : run step s as = .ok t) : Visits step s as t :=
  ⟨as, List.prefix_rfl, h⟩

theorem visits_cons (h : step s a = .ok t) (hv : Visits step t as u) :
    Visits step s (a :: as) u := by
  obtain ⟨pre, hpre, hr⟩ := hv
  refine ⟨a :: pre, ?_, by rw [run_cons_of_ok h]; exact hr⟩
  exact (List.cons_prefix_cons).mpr ⟨rfl, hpre⟩

theorem visits_cons_cases (h : Visits step s (a :: as) u) :
    u = s ∨ ∃ t, step s a = .ok t ∧ Visits step t as u := by
  obtain ⟨pre, hpre, hr⟩ := h
  cases pre with
  | nil => cases hr; exact Or.inl rfl
  | cons b pre =>
    obtain ⟨rfl, hp⟩ := List.cons_prefix_cons.mp hpre
    obtain ⟨t, ht, hu⟩ := run_cons_ok hr
    exact Or.inr ⟨t, ht, pre, hp, hu⟩

theorem each_suffix {C : σ → α → Prop} (h : Each step C s (as ++ bs)) (ht : run step s as = .ok t) :
    Each step C t bs := by
  induction as generalizing s with
  | nil => cases ht; exact h
  | cons a as ih =>
    obtain ⟨m, hm, hr⟩ := run_cons_ok ht
    exact ih (h m hm).2 hr

theorem each_mono {C D : σ → α → Prop} (h : ∀ s a, C s a → D s a) : ∀ (as : List α) (s : σ),
    Each step C s as → Each step D s as := by
  intro as
  induction as with
  | nil => intro _ _; exact trivial
  | cons a as ih =>
    intro s hC t ht
    obtain ⟨hc, hrest⟩ := hC t ht
    exact ⟨h s a hc, ih t hrest⟩

theorem each_of_forall {C : σ → α → Prop} : ∀ (as : List α) (s : σ),
    (∀ a ∈ as, ∀ s, C s a) → Each step C s as := by
  intro as
  induction as with
  | nil => intro _ _; exact trivial
  | cons a as ih =>
    intro s h t _
    exact ⟨h a (by simp) s, ih t fun b hb => h b (by simp [hb])⟩

theorem meets_of_forall {C : σ → α → Prop} : ∀ (as : List α) (s : σ),
    (∀ a ∈ as, ∀ s, C s a) → Meets step C s as := by
  intro as
  induction as with
  | nil => intro _ _; exact trivial
  | cons a as ih =>
    intro s h
    exact ⟨h a (by simp) s, fun t _ => ih t fun b hb => h b (by simp [hb])⟩

theorem meets_mono {C D : σ → α → Prop} (h : ∀ s a, C s a → D s a) : ∀ (as : List α) (s : σ),
    Meets step C s as → Meets step D s as := by
  intro as
  induction as with
  | nil => intro _ _; exact trivial
  | cons a as ih =>
    intro s hC
    exact ⟨h s a hC.1, fun t ht => ih t (hC.2 t ht)⟩

theorem each_of_meets {C : σ → α → Prop} : ∀ (as : List α) (s : σ),
    Meets step C s as → Each step C s as := by
  intro as
  induction as with
  | nil => intro _ _; exact trivial
  | cons a as ih =>
    intro s h t ht
    exact ⟨h.1, ih t (h.2 t ht)⟩

theorem meets_cons_ok {C : σ → α → Prop} (h : step s a = .ok t) :
    Meets step C s (a :: as) ↔ C s a ∧ Meets step C t as := by
  rw [Meets, h]
  simp

theorem meets_cons_error {C : σ → α → Prop} {e : ε} (h : step s a = .error e) :
    Meets step C s (a :: as) ↔ C s a := by
  rw [Meets, h]
  simp

/-- Whether a given run meets a condition that can be decided. -/
instance Meets.decidable {C : σ → α → Prop} [∀ s a, Decidable (C s a)] :
    ∀ (as : List α) (s : σ), Decidable (Meets step C s as)
  | [], _ => isTrue trivial
  | a :: as, s =>
    match h : step s a with
    | .ok t =>
      haveI := Meets.decidable (C := C) as t
      decidable_of_iff (C s a ∧ Meets step C t as) (meets_cons_ok h).symm
    | .error _ => decidable_of_iff (C s a) (meets_cons_error h).symm

end Runs

section Invariants

variable {step : σ → α → Except ε σ} {I P : σ → Prop} {C : σ → α → Prop}

/-- **An invariant of one step holds in every state of a run.** -/
theorem visits_invariant (hstep : ∀ s a t, I s → C s a → step s a = .ok t → I t) :
    ∀ (as : List α) (s : σ), I s → Each step C s as → ∀ t, Visits step s as t → I t := by
  intro as
  induction as with
  | nil =>
    intro s hs _ t ht
    obtain ⟨pre, hpre, hr⟩ := ht
    obtain rfl := List.prefix_nil.mp hpre
    cases hr
    exact hs
  | cons a as ih =>
    intro s hs hC t ht
    rcases visits_cons_cases ht with rfl | ⟨m, hm, hv⟩
    · exact hs
    · obtain ⟨hc, hrest⟩ := hC m hm
      exact ih m (hstep s a m hs hc hm) hrest t hv

/-- The unconditional form: no step needs a condition. -/
theorem run_invariant (hstep : ∀ s a t, I s → step s a = .ok t → I t) :
    ∀ (as : List α) (s t : σ), I s → run step s as = .ok t → I t := by
  intro as
  induction as with
  | nil => intro s t hs h; cases h; exact hs
  | cons a as ih =>
    intro s t hs h
    obtain ⟨m, hm, hr⟩ := run_cons_ok h
    exact ih m t (hstep s a m hs hm) hr

/-- **Progress.**  When no step fails that meets the condition in an invariant state, no
run fails whose steps meet it. -/
theorem run_of_meets (hI : ∀ s a t, I s → C s a → step s a = .ok t → I t)
    (hok : ∀ s a, I s → C s a → ∃ t, step s a = .ok t) :
    ∀ (as : List α) (s : σ), I s → Meets step C s as → ∃ t, run step s as = .ok t ∧ I t := by
  intro as
  induction as with
  | nil => intro s hs _; exact ⟨s, rfl, hs⟩
  | cons a as ih =>
    intro s hs hC
    obtain ⟨hc, hrest⟩ := hC
    obtain ⟨m, hm⟩ := hok s a hs hc
    obtain ⟨t, ht, hi⟩ := ih m (hI s a m hs hc hm) (hrest m hm)
    exact ⟨t, by rw [run_cons_of_ok hm]; exact ht, hi⟩

/-- **A condition that is exact for the success of one step is exact for the success of a run.** -/
theorem run_ok_iff_meets (hI : ∀ s a t, I s → step s a = .ok t → I t)
    (hok : ∀ s a, I s → ((∃ t, step s a = .ok t) ↔ C s a)) : ∀ (as : List α) (s : σ), I s →
    ((∃ t, run step s as = .ok t) ↔ Meets step C s as) := by
  intro as
  induction as with
  | nil => intro s _; exact ⟨fun _ => trivial, fun _ => ⟨s, rfl⟩⟩
  | cons a as ih =>
    intro s hs
    constructor
    · rintro ⟨u, hu⟩
      obtain ⟨m, hm, hr⟩ := run_cons_ok hu
      rw [meets_cons_ok hm]
      exact ⟨(hok s a hs).mp ⟨m, hm⟩, (ih m (hI s a m hs hm)).mp ⟨u, hr⟩⟩
    · rintro ⟨hc, hrest⟩
      obtain ⟨m, hm⟩ := (hok s a hs).mpr hc
      rw [run_cons_of_ok hm]
      exact (ih m (hI s a m hs hm)).mpr (hrest m hm)

/-- What each step adds, up to order, a run adds. -/
theorem run_collects {β : Type*} {content : σ → List β} {added : α → Option β}
    (hI : ∀ s a t, I s → step s a = .ok t → I t)
    (hadd : ∀ s a t, I s → step s a = .ok t →
      (content t).Perm (content s ++ (added a).toList)) :
    ∀ (as : List α) (s t : σ), I s → run step s as = .ok t →
      (content t).Perm (content s ++ as.filterMap added) := by
  intro as
  induction as with
  | nil =>
    intro s t _ h
    cases h
    rw [List.filterMap_nil, List.append_nil]
  | cons a as ih =>
    intro s t hs h
    obtain ⟨m, hm, hr⟩ := run_cons_ok h
    refine (ih m t (hI s a m hs hm) hr).trans ?_
    refine ((hadd s a m hs hm).append_right _).trans (List.Perm.of_eq ?_)
    rw [List.append_assoc, List.filterMap_cons]
    cases added a <;> rfl

/-- What every step keeps holds in every state that a run goes through. -/
theorem visits_of_invariant (hI : ∀ s a t, I s → step s a = .ok t → I t) {as : List α} {s t : σ}
    (hs : I s) (h : Visits step s as t) : I t := by
  obtain ⟨pre, -, hr⟩ := h
  exact run_invariant hI pre s t hs hr

/-- What no step brings about held all along if it holds at the end. -/
theorem visits_of_end (hI : ∀ s a t, step s a = .ok t → I t → I s) {as : List α} {s t u : σ}
    (hu : run step s as = .ok u) (hend : I u) (h : Visits step s as t) : I t := by
  obtain ⟨pre, ⟨rest, rfl⟩, hr⟩ := h
  rw [run_append_of_ok hr] at hu
  by_contra hn
  exact run_invariant (I := fun s => ¬ I s) (fun s a t hs h ht => hs (hI s a t h ht)) rest t u hn hu
    hend

/-- **A condition that is exact for one step is exact for runs.**  `I` holds all along, and
a step from a state with `P` ends in one with `P` exactly when it meets `C`. -/
theorem visits_iff_each_of (hP : ∀ s a t, I s → I t → P s → step s a = .ok t → (P t ↔ C s a)) :
    ∀ (as : List α) (s : σ), (∀ t, Visits step s as t → I t) → P s →
      ((∀ t, Visits step s as t → P t) ↔ Each step C s as) := by
  intro as
  induction as with
  | nil =>
    intro s _ hs
    refine ⟨fun _ => trivial, fun _ t ht => ?_⟩
    obtain ⟨pre, hpre, hr⟩ := ht
    obtain rfl := List.prefix_nil.mp hpre
    cases hr
    exact hs
  | cons a as ih =>
    intro s hi hs
    have hnext : ∀ t, step s a = .ok t → P t →
        ((∀ u, Visits step t as u → P u) ↔ Each step C t as) :=
      fun t ht => ih t fun u hu => hi u (visits_cons ht hu)
    have hstep : ∀ t, step s a = .ok t → (P t ↔ C s a) := fun t ht =>
      hP s a t (hi s visits_start) (hi t (visits_cons ht visits_start)) hs ht
    constructor
    · intro hall t ht
      have hpt : P t := hall t (visits_cons ht visits_start)
      exact ⟨(hstep t ht).mp hpt, (hnext t ht hpt).mp fun u hu => hall u (visits_cons ht hu)⟩
    · intro hC t ht
      rcases visits_cons_cases ht with rfl | ⟨m, hm, hv⟩
      · exact hs
      · obtain ⟨hc, hrest⟩ := hC m hm
        have hpm : P m := (hstep m hm).mpr hc
        exact (hnext m hm hpm).mpr hrest t hv

/-- The same with an invariant of the steps. -/
theorem visits_iff_each (hI : ∀ s a t, I s → step s a = .ok t → I t)
    (hP : ∀ s a t, I s → P s → step s a = .ok t → (P t ↔ C s a)) (as : List α) (s : σ)
    (hi : I s) (hs : P s) : (∀ t, Visits step s as t → P t) ↔ Each step C s as :=
  visits_iff_each_of (fun s a t hi _ hp h => hP s a t hi hp h) as s
    (fun _ ht => visits_of_invariant hI hi ht) hs

/-- The same with an invariant that only the condition keeps: where it is broken, `P` is
lost. -/
theorem visits_iff_each_kept (hI : ∀ s a t, I s → C s a → step s a = .ok t → I t)
    (hP : ∀ s, I s → P s) (hlost : ∀ s a t, I s → ¬ C s a → step s a = .ok t → ¬ P t) :
    ∀ (as : List α) (s : σ), I s → ((∀ t, Visits step s as t → P t) ↔ Each step C s as) := by
  intro as
  induction as with
  | nil =>
    intro s hs
    refine ⟨fun _ => trivial, fun hC t ht => hP t (visits_invariant hI [] s hs hC t ht)⟩
  | cons a as ih =>
    intro s hs
    constructor
    · intro hall t ht
      have hc : C s a := by
        by_contra hc
        exact hlost s a t hs hc ht (hall t (visits_cons ht visits_start))
      exact ⟨hc, (ih t (hI s a t hs hc ht)).mp fun u hu => hall u (visits_cons ht hu)⟩
    · intro hC t ht
      exact hP t (visits_invariant hI (a :: as) s hs hC t ht)

/-- **A condition that is exact for one step, failures included.**  From a state with `P` a step
that meets `C` does not fail badly and ends in a state with `P`; one that does not meet it
fails badly or ends in a state without `P`. -/
theorem safe_iff_meets {Bad : ε → Prop} (hI : ∀ s a t, I s → step s a = .ok t → I t)
    (hgood : ∀ s a, I s → P s → C s a →
      (∀ e, step s a = .error e → ¬ Bad e) ∧ ∀ t, step s a = .ok t → P t)
    (hbad : ∀ s a, I s → P s → ¬ C s a →
      (∃ e, step s a = .error e ∧ Bad e) ∨ ∃ t, step s a = .ok t ∧ ¬ P t) :
    ∀ (as : List α) (s : σ), I s → P s →
      (((∀ e, run step s as = .error e → ¬ Bad e) ∧ ∀ t, Visits step s as t → P t) ↔
        Meets step C s as) := by
  intro as
  induction as with
  | nil =>
    intro s _ hs
    refine ⟨fun _ => trivial, fun _ => ⟨fun e h => ?_, fun t ht => ?_⟩⟩
    · cases h
    obtain ⟨pre, hpre, hr⟩ := ht
    obtain rfl := List.prefix_nil.mp hpre
    cases hr
    exact hs
  | cons a as ih =>
    intro s hi hs
    constructor
    · rintro ⟨hrun, hvisits⟩
      have hc : C s a := by
        by_contra hc
        rcases hbad s a hi hs hc with ⟨e, he, hb⟩ | ⟨t, ht, hp⟩
        · exact hrun e (by rw [run, he]) hb
        · exact hp (hvisits t (visits_cons ht visits_start))
      refine ⟨hc, fun t ht => (ih t (hI s a t hi ht) ((hgood s a hi hs hc).2 t ht)).mp ⟨?_, ?_⟩⟩
      · intro e he
        exact hrun e (by rw [run_cons_of_ok ht, he])
      · exact fun u hu => hvisits u (visits_cons ht hu)
    · rintro ⟨hc, hrest⟩
      obtain ⟨herr, hok⟩ := hgood s a hi hs hc
      refine ⟨fun e he => ?_, fun t ht => ?_⟩
      · cases ha : step s a with
        | error e' =>
          rw [run, ha] at he
          cases he
          exact herr e ha
        | ok t =>
          rw [run_cons_of_ok ha] at he
          exact ((ih t (hI s a t hi ha) (hok t ha)).mpr (hrest t ha)).1 e he
      · rcases visits_cons_cases ht with rfl | ⟨m, hm, hv⟩
        · exact hs
        · exact ((ih m (hI s a m hi hm) (hok m hm)).mpr (hrest m hm)).2 t hv

end Invariants

/-- **The rule of simulation.**  When every step of the abstract machine is one of the concrete
machine, between states that are related, every run is. -/
theorem run_simulates {τ ε' : Type*} {step : σ → α → Except ε σ} {abstract : τ → α → Except ε' τ}
    {R : σ → τ → Prop} {C : α → Prop}
    (hsim : ∀ s t a t', R s t → C a → abstract t a = .ok t' → ∃ s', step s a = .ok s' ∧ R s' t') :
    ∀ (as : List α) (s : σ) (t t' : τ), R s t → (∀ a ∈ as, C a) → run abstract t as = .ok t' →
      ∃ s', run step s as = .ok s' ∧ R s' t' := by
  intro as
  induction as with
  | nil => intro s t t' hR _ h; cases h; exact ⟨s, rfl, hR⟩
  | cons a as ih =>
    intro s t t' hR hC h
    obtain ⟨u, hu, hr⟩ := run_cons_ok h
    obtain ⟨v, hv, hRv⟩ := hsim s t a u hR (hC a List.mem_cons_self) hu
    obtain ⟨w, hw, hRw⟩ := ih v u t' hRv (fun b hb => hC b (List.mem_cons_of_mem _ hb)) hr
    exact ⟨w, by rw [run_cons_of_ok hv]; exact hw, hRw⟩

end WarheadDiscord.Lib
