import Mathlib.Data.List.Basic

/-!
# Values in layers

A name is looked up in layers, the newest one first.  A layer may introduce a name or not; one
that does not is heard about the name only when the older layers have a value for it.

* `value`: the value of a name.
* `isSome_value_iff`: which names have one.
* `value_eq_some_iff`: **which layer decides**.
-/

namespace WarheadDiscord.Lib.Layers

/-- What a layer gives for a name, and which names it may introduce. -/
structure Layer (K V : Type*) where
  gives : K → Option V
  introduces : K → Bool

variable {K V : Type*} {k : K} {v : V}

/-- The layer gives the name a first value. -/
def Layer.Founds (l : Layer K V) (k : K) : Prop := l.introduces k = true ∧ (l.gives k).isSome

/-- The value in layers, of which the first is the newest. -/
def value (k : K) : List (Layer K V) → Option V
  | [] => none
  | l :: older =>
    if l.introduces k ∨ (value k older).isSome then (l.gives k).or (value k older)
    else value k older

/-- `v` is from the newest layer that gives the name anything, and this layer or an older one gives
it a first value. -/
def Decides (layers : List (Layer K V)) (k : K) (v : V) : Prop :=
  ∃ newer l older, layers = newer ++ l :: older ∧ (∀ n ∈ newer, n.gives k = none) ∧
    l.gives k = some v ∧ ∃ f ∈ l :: older, f.Founds k

theorem value_cons_of_none {l : Layer K V} (older : List (Layer K V)) (h : l.gives k = none) :
    value k (l :: older) = value k older := by
  rw [value, h, Option.none_or, ite_self]

theorem isSome_value_iff {layers : List (Layer K V)} :
    (value k layers).isSome ↔ ∃ l ∈ layers, l.Founds k := by
  induction layers with
  | nil => simp [value]
  | cons l older ih =>
    rw [List.exists_mem_cons_iff, ← ih, Layer.Founds, value]
    by_cases hold : (value k older).isSome
    · rw [if_pos (Or.inr hold), Option.isSome_or, hold]
      simp
    · rw [Bool.not_eq_true, Option.isSome_eq_false_iff, Option.isNone_iff_eq_none] at hold
      rw [hold, Option.or_none]
      by_cases hi : l.introduces k
      · simp [hi]
      · simp [hi]

theorem decides_cons_of_none {l : Layer K V} {older : List (Layer K V)} (h : l.gives k = none) :
    Decides (l :: older) k v ↔ Decides older k v := by
  constructor
  · rintro ⟨newer, n, rest, heq, hnewer, hv, hf⟩
    cases newer with
    | nil =>
      cases heq
      rw [h] at hv
      cases hv
    | cons a newer =>
      cases heq
      exact ⟨newer, n, rest, rfl, fun b hb => hnewer b (List.mem_cons_of_mem _ hb), hv, hf⟩
  · rintro ⟨newer, n, rest, rfl, hnewer, hv, hf⟩
    exact ⟨l :: newer, n, rest, rfl, List.forall_mem_cons.mpr ⟨h, hnewer⟩, hv, hf⟩

theorem decides_cons_of_some {l : Layer K V} {older : List (Layer K V)} {w : V}
    (h : l.gives k = some w) :
    Decides (l :: older) k v ↔ w = v ∧ ∃ f ∈ l :: older, f.Founds k := by
  constructor
  · rintro ⟨newer, n, rest, heq, hnewer, hv, hf⟩
    cases newer with
    | nil =>
      cases heq
      rw [h] at hv
      exact ⟨Option.some.inj hv, hf⟩
    | cons a newer =>
      cases heq
      have hnone := hnewer l List.mem_cons_self
      rw [h] at hnone
      cases hnone
  · rintro ⟨rfl, hf⟩
    exact ⟨[], l, older, rfl, fun n hn => absurd hn List.not_mem_nil, h, hf⟩

/-- **Which layer decides.** -/
theorem value_eq_some_iff {layers : List (Layer K V)} :
    value k layers = some v ↔ Decides layers k v := by
  induction layers with
  | nil =>
    constructor
    · intro h
      cases h
    · rintro ⟨newer, l, older, h, -⟩
      cases newer <;> cases h
  | cons l older ih =>
    cases hs : l.gives k with
    | none => rw [value_cons_of_none older hs, decides_cons_of_none hs, ih]
    | some w =>
      rw [decides_cons_of_some hs, ← isSome_value_iff]
      by_cases hheard : l.introduces k ∨ (value k older).isSome
      · rw [value, if_pos hheard, hs, Option.some_or, Option.some.injEq]
        exact (and_iff_left rfl).symm
      · -- Nobody has given the name a value, and this layer must not.
        have hnone : value k older = none := by
          rw [← Option.not_isSome_iff_eq_none]
          exact fun h => hheard (Or.inr h)
        rw [value, if_neg hheard, hnone]
        simp

end WarheadDiscord.Lib.Layers
