import Mathlib.Algebra.Order.Ring.Nat
import WarheadDiscord.Lib.Machine

/-!
# Progress of runs

A run makes progress when some of its steps bring it closer to a goal and none takes
it further away.  How far it is from the goal is a rank, a natural number.

* `tally`: how many steps of a run meet a condition on the state and the action.
* `visits_of_potential`: **a run that has more of these steps than the rank at its start
  reaches the goal**, whatever its other steps are.  The rank may also be raised, by what
  is gained meanwhile.
* `visits_of_rank`, `run_of_rank`: the same for a rank that is not raised, and for a goal
  that no step takes back.
* `tally_le_potential`: these steps are no more than the rank and what the steps bring in,
  when each of them lowers it and no step raises it by more than it brings in.
* `WorkQueue`: a queue that steps join at the end and leave from its front part.
  `WorkQueue.served`: **what is in the queue is served**, when first items leave as often
  as the queue is long.
-/

namespace WarheadDiscord.Lib

variable {σ α ε : Type*} {step : σ → α → Except ε σ}

/-- How many steps of the run from `s` meet the condition, up to the first that fails. -/
def tally (step : σ → α → Except ε σ) (p : σ → α → Bool) : σ → List α → Nat
  | _, [] => 0
  | s, a :: as =>
    match step s a with
    | .ok t => (if p s a then 1 else 0) + tally step p t as
    | .error _ => 0

theorem tally_cons_of_ok {p : σ → α → Bool} {s t : σ} {a : α} {as : List α}
    (h : step s a = .ok t) :
    tally step p s (a :: as) = (if p s a then 1 else 0) + tally step p t as := by
  rw [tally, h]

/-- The condition on the action alone. -/
theorem tally_eq_countP {p : α → Bool} : ∀ (as : List α) (s t : σ), run step s as = .ok t →
    tally step (fun _ a => p a) s as = as.countP p := by
  intro as
  induction as with
  | nil => intro s t _; rfl
  | cons a as ih =>
    intro s t h
    obtain ⟨m, hm, hr⟩ := run_cons_ok h
    rw [tally_cons_of_ok hm, ih m t hr, List.countP_cons, Nat.add_comm]

section Ranks

variable {P Q : σ → Prop} (rank : σ → Nat) (counted : α → Bool)

/-- **The rule of the potential.**  From a state with `P` a step reaches `Q`, or keeps `P` and does
not raise the rank by more than the gain, and by one less when it counts.  When more steps
count than there is rank and gain, then `Q` is reached. -/
theorem visits_of_potential (gain : σ → Nat) (counts : σ → α → Bool) {C : σ → α → Prop}
    (hstep : ∀ s a t, P s → C s a → step s a = .ok t →
      Q t ∨ P t ∧ rank t + (if counts s a then 1 else 0) + gain s ≤ rank s + gain t) :
    ∀ (as : List α) (s t : σ), P s → Each step C s as → run step s as = .ok t →
      rank s + gain t < tally step counts s as + gain s → ∃ u, Visits step s as u ∧ Q u := by
  intro as
  induction as with
  | nil => intro s t _ _ h hr; cases h; rw [tally] at hr; omega
  | cons a as ih =>
    intro s t hs hC h hr
    obtain ⟨m, hm, hrun⟩ := run_cons_ok h
    obtain ⟨hc, hrest⟩ := hC m hm
    rcases hstep s a m hs hc hm with hq | ⟨hp, hle⟩
    · exact ⟨m, visits_cons hm visits_start, hq⟩
    · rw [tally_cons_of_ok hm] at hr
      obtain ⟨u, hu, hq⟩ := ih m t hp hrest hrun (by omega)
      exact ⟨u, visits_cons hm hu, hq⟩

/-- **The rule of the rank.**  From a state with `P` a step reaches `Q`, or keeps `P` and does
not raise the rank, which the counted actions lower. -/
theorem visits_of_rank
    (hstep : ∀ s a t, P s → step s a = .ok t →
      Q t ∨ P t ∧ rank t ≤ rank s ∧ (counted a = true → rank t < rank s))
    (as : List α) (s t : σ) (hs : P s) (h : run step s as = .ok t)
    (hr : rank s < as.countP counted) : ∃ u, Visits step s as u ∧ Q u := by
  refine visits_of_potential rank (fun _ => 0) (fun _ a => counted a) (C := fun _ _ => True) ?_ as
    s t hs (each_of_forall as s fun _ _ _ => trivial) h ?_
  · intro s a t hs _ ht
    refine (hstep s a t hs ht).imp_right fun ⟨hp, hle, hlt⟩ => ⟨hp, ?_⟩
    cases hc : counted a with
    | true =>
      have := hlt hc
      rw [if_pos rfl]
      omega
    | false =>
      rw [if_neg (by decide)]
      omega
  · rw [tally_eq_countP as s t h]
    exact hr

/-- What no step takes back holds from the state that reaches it to the end of the run. -/
theorem run_of_visits (hQ : ∀ s a t, Q s → step s a = .ok t → Q t) {as : List α} {s t u : σ}
    (h : run step s as = .ok t) (hu : Visits step s as u) (hq : Q u) : Q t := by
  obtain ⟨pre, ⟨rest, rfl⟩, hr⟩ := hu
  rw [run_append_of_ok hr] at h
  exact run_invariant hQ rest u t hq h

/-- **A goal that is not taken back** holds at the end. -/
theorem run_of_rank
    (hstep : ∀ s a t, P s → step s a = .ok t →
      Q t ∨ P t ∧ rank t ≤ rank s ∧ (counted a = true → rank t < rank s))
    (hQ : ∀ s a t, Q s → step s a = .ok t → Q t) {as : List α} {s t : σ} (hs : P s)
    (h : run step s as = .ok t) (hr : rank s < as.countP counted) : Q t := by
  obtain ⟨u, hu, hq⟩ := visits_of_rank rank counted hstep as s t hs h hr
  exact run_of_visits hQ h hu hq

theorem run_rank_le
    (hstep : ∀ s a t, P s → step s a = .ok t → Q t ∨ P t ∧ rank t ≤ rank s)
    (hQ : ∀ s a t, Q s → step s a = .ok t → Q t) : ∀ (as : List α) (s t : σ), P s →
      run step s as = .ok t → Q t ∨ P t ∧ rank t ≤ rank s := by
  intro as
  induction as with
  | nil => intro s t hs h; cases h; exact .inr ⟨hs, Nat.le_refl _⟩
  | cons a as ih =>
    intro s t hs h
    obtain ⟨m, hm, hr⟩ := run_cons_ok h
    rcases hstep s a m hs hm with hq | ⟨hp, hle⟩
    · exact .inl (run_invariant hQ as m t hq hr)
    · exact (ih m t hp hr).imp_right fun h => ⟨h.1, h.2.trans hle⟩

end Ranks

section Potentials

variable {I : σ → Prop} {rank : σ → Nat} {p : σ → α → Bool}

/-- **What is brought in and what was there bounds what is done.**  Each step that meets the
condition lowers the rank, up to what the step brings in. -/
theorem tally_le_potential {brings : α → Nat} {C : σ → α → Prop}
    (hstep : ∀ s a t, I s → C s a → step s a = .ok t →
      I t ∧ rank t + (if p s a then 1 else 0) ≤ rank s + brings a) :
    ∀ (as : List α) (s t : σ), I s → Each step C s as → run step s as = .ok t →
      rank t + tally step p s as ≤ rank s + (as.map brings).sum := by
  intro as
  induction as with
  | nil => intro s t _ _ h; cases h; simp [tally]
  | cons a as ih =>
    intro s t hs hC h
    obtain ⟨m, hm, hr⟩ := run_cons_ok h
    obtain ⟨hc, hrest⟩ := hC m hm
    obtain ⟨hi, hle⟩ := hstep s a m hs hc hm
    have hind := ih m t hi hrest hr
    rw [tally_cons_of_ok hm, List.map_cons, List.sum_cons]
    omega

end Potentials

/-! ### Queues of work -/

/-- Taking another item out brings an item forward, or leaves it where it is. -/
theorem findIdx_eraseIdx_le {β : Type*} {p : β → Bool} : ∀ (l : List β) (i : Nat),
    (∀ x, l[i]? = some x → p x = false) →
    (l.eraseIdx i).findIdx p ≤ l.findIdx p ∧ (i < l.findIdx p →
      (l.eraseIdx i).findIdx p + 1 = l.findIdx p) := by
  intro l
  induction l with
  | nil => intro i _; simp
  | cons x l ih =>
    intro i hi
    cases i with
    | zero =>
      have hx : p x = false := hi x rfl
      rw [List.eraseIdx_cons_zero, List.findIdx_cons, hx]
      exact ⟨Nat.le_succ _, fun _ => rfl⟩
    | succ i =>
      obtain ⟨hle, hlt⟩ := ih i hi
      rw [List.eraseIdx_cons_succ, List.findIdx_cons, List.findIdx_cons]
      cases p x with
      | true => simp
      | false =>
        simp only [cond_false, Nat.add_lt_add_iff_right, Nat.add_le_add_iff_right,
          Nat.add_right_cancel_iff]
        exact ⟨hle, hlt⟩

theorem findIdx_append_of_lt {β : Type*} {p : β → Bool} {l new : List β}
    (h : l.findIdx p < l.length) : (l ++ new).findIdx p = l.findIdx p := by
  rw [List.findIdx_append, if_pos h]

/-- A queue of which the first `ready` items may be taken out, in any order. -/
structure WorkQueue (step : σ → α → Except ε σ) (β : Type*) where
  queue : σ → List β
  ready : σ → Nat
  ready_le : ∀ s, ready s ≤ (queue s).length
  /-- The place of the item that the step takes out, if it takes one. -/
  taken : σ → α → Option Nat
  taken_lt : ∀ {s a i}, taken s a = some i → i < ready s
  joins : ∀ {s a t}, step s a = .ok t → taken s a = none →
    ready s ≤ ready t ∧ ∃ new, queue t = queue s ++ new
  leaves : ∀ {s a t i}, step s a = .ok t → taken s a = some i →
    ready s ≤ ready t + 1 ∧ ∃ new, queue t = (queue s).eraseIdx i ++ new

namespace WorkQueue

variable {β : Type*} {P Q : σ → Prop} {first : α → Bool} {p : β → Bool}

/-- The first item of the kind is no further back than it was, and one step nearer when an
item before it leaves. -/
theorem findIdx_step (w : WorkQueue step β) {s t : σ} {a : α} (h : step s a = .ok t)
    (hp : (w.queue s).findIdx p < (w.queue s).length)
    (hn : ∀ i x, w.taken s a = some i → (w.queue s)[i]? = some x → p x = false) :
    (w.queue t).findIdx p ≤ (w.queue s).findIdx p ∧
      (w.queue t).findIdx p < (w.queue t).length ∧
      ((w.queue s).findIdx p < w.ready s → (w.queue t).findIdx p < w.ready t ∧
        (w.taken s a = some 0 → (w.queue t).findIdx p < (w.queue s).findIdx p)) := by
  cases ht : w.taken s a with
  | none =>
    obtain ⟨hr, new, hq⟩ := w.joins h ht
    rw [hq, findIdx_append_of_lt hp, List.length_append]
    refine ⟨Nat.le_refl _, by omega, fun hlt => ⟨by omega, fun hx => ?_⟩⟩
    cases hx
  | some i =>
    have hi := w.taken_lt ht
    have hle := w.ready_le s
    obtain ⟨hr, new, hq⟩ := w.leaves h ht
    have hni : ∀ x, (w.queue s)[i]? = some x → p x = false := fun x hx => hn i x ht hx
    obtain ⟨hfle, hflt⟩ := findIdx_eraseIdx_le (w.queue s) i hni
    have hne : i ≠ (w.queue s).findIdx p := by
      intro heq
      have hx := List.findIdx_getElem (w := hp) (p := p)
      rw [hni _ (by rw [heq]; exact List.getElem?_eq_getElem hp)] at hx
      cases hx
    have hlen : ((w.queue s).eraseIdx i).length = (w.queue s).length - 1 :=
      List.length_eraseIdx_of_lt (by omega)
    have hmem : ((w.queue s).eraseIdx i).findIdx p < ((w.queue s).eraseIdx i).length := by
      by_cases hlt : i < (w.queue s).findIdx p
      · have := hflt hlt
        omega
      · omega
    rw [hq, findIdx_append_of_lt hmem, List.length_append]
    refine ⟨hfle, by omega, fun hlt => ⟨?_, fun hx => ?_⟩⟩
    · by_cases hlt' : i < (w.queue s).findIdx p
      · have := hflt hlt'
        omega
      · omega
    · cases hx
      have := hflt (by omega)
      omega

/-- **What is in the queue is served.**  Let the steps keep `P` until they reach `Q`, and let
an item of the kind that leaves reach `Q`.  Then `Q` is reached when the items become ready
at some moment, and afterwards a first item leaves as often as the queue was long. -/
theorem served (w : WorkQueue step β)
    (hP : ∀ s a t, P s → step s a = .ok t → Q t ∨ P t)
    (hserve : ∀ s a t i x, P s → w.taken s a = some i → (w.queue s)[i]? = some x → p x = true →
      step s a = .ok t → Q t)
    (hQ : ∀ s a t, Q s → step s a = .ok t → Q t)
    (hfirst : ∀ s a, first a = true → 0 < w.ready s → w.taken s a = some 0)
    {open_ : α} (hopen : ∀ s t, step s open_ = .ok t → w.ready t = (w.queue t).length)
    {pre post : List α} {s t : σ} (hs : P s) (hx : ∃ x ∈ w.queue s, p x = true)
    (h : run step s (pre ++ open_ :: post) = .ok t)
    (hcount : (w.queue s).length ≤ post.countP first) : Q t := by
  have hstep : ∀ s a t, (P s ∧ (w.queue s).findIdx p < (w.queue s).length) →
      step s a = .ok t → Q t ∨ (P t ∧ (w.queue t).findIdx p < (w.queue t).length) ∧
        (w.queue t).findIdx p ≤ (w.queue s).findIdx p ∧
        ((w.queue s).findIdx p < w.ready s → (w.queue t).findIdx p < w.ready t ∧
          (w.taken s a = some 0 → (w.queue t).findIdx p < (w.queue s).findIdx p)) := by
    rintro s a t ⟨hs, hp⟩ ht
    by_cases hgoal : ∃ i x, w.taken s a = some i ∧ (w.queue s)[i]? = some x ∧ p x = true
    · obtain ⟨i, x, hi, hx, hpx⟩ := hgoal
      exact .inl (hserve s a t i x hs hi hx hpx ht)
    · push Not at hgoal
      obtain ⟨hle, hlen, hready⟩ := w.findIdx_step ht hp
        fun i x hi hx => by simpa using hgoal i x hi hx
      exact (hP s a t hs ht).imp_right fun hp => ⟨⟨hp, hlen⟩, hle, hready⟩
  obtain ⟨u, hu, hrest⟩ := run_append_ok h
  obtain ⟨v, hv, hrest⟩ := run_cons_ok hrest
  -- up to the moment when the items become ready nothing needs to leave
  rcases run_rank_le _ (fun s a t hs ht => (hstep s a t hs ht).imp_right fun h => ⟨h.1, h.2.1⟩) hQ
    pre s u ⟨hs, List.findIdx_lt_length.mpr hx⟩ hu with hq | ⟨hpu, hle⟩
  · exact run_invariant hQ post v t (hQ u _ v hq hv) hrest
  rcases hstep u _ v hpu hv with hq | ⟨hpv, hle', -⟩
  · exact run_invariant hQ post v t hq hrest
  -- and from then on the items in front of it leave
  refine run_of_rank (fun s => (w.queue s).findIdx p) first
    (P := fun s => (P s ∧ (w.queue s).findIdx p < (w.queue s).length) ∧
      (w.queue s).findIdx p < w.ready s) ?_ hQ ⟨hpv, by rw [hopen u v hv]; exact hpv.2⟩ hrest ?_
  · rintro s a t ⟨hs, hr⟩ ht
    refine (hstep s a t hs ht).imp_right fun ⟨hp, hle, hready⟩ => ?_
    exact ⟨⟨hp, (hready hr).1⟩, hle, fun hf => (hready hr).2 (hfirst s a hf (by omega))⟩
  · have := List.findIdx_lt_length.mpr hx
    omega

end WorkQueue

end WarheadDiscord.Lib
