import WarheadDiscord.Common.Asyncs

/-!
# Asyncs and the next tick

`Async` says that its callable is executed at the next update tick.  The loop of `Dispatch` goes
on until the queue is empty, so that it also invokes what is submitted while it runs.

* `Ticks`: the scheduler, with the `Update` in which each callable was submitted and invoked.
* `NextTick`: what is submitted during an `Update` is for a later one, and the loop invokes
  only what waited when its `Update` began.
* `Ticks.Valid`: the invariant, with one lemma for each thing a step does.
* `nextTick_spec`: it holds all along while the loop over the asyncs submits nothing.
-/

namespace WarheadDiscord

open Lib

namespace TaskScheduler

open State

variable {κ : Type}

/-- `Dispatch` is in its loop over the asyncs. -/
def Control.inAsyncs : Control → Bool
  | validating .asyncs => true
  | looping .asyncs => true
  | async _ _ => true
  | _ => false

/-- A callable runs in it. -/
def Control.runsAsync : Control → Bool
  | async _ _ => true
  | _ => false

/-- It is behind this loop. -/
def Control.inTasks : Control → Bool
  | validating .tasks => true
  | looping .tasks => true
  | task _ => true
  | finishing => true
  | _ => false

/-- The scheduler, and in which `Update` each thing was. -/
structure Ticks (κ : Type) where
  state : State κ
  /-- How many times `Update` was called. -/
  tick : Nat
  /-- The callables that were submitted during an `Update`, each with the number of this. -/
  during : List (Nat × Nat)
  /-- The callables that were invoked, each with the number of the `Update`. -/
  invoked : List (Nat × Nat)
  /-- What waited when the last `Update` began. -/
  queued : List Nat
  /-- The steps of the loop over the asyncs since then. -/
  turns : Nat
  deriving DecidableEq, Repr

namespace Ticks

def start (now : Int) : Ticks κ := ⟨new now, 0, [], [], [], 0⟩

/-- An `Update` begins. -/
def begins (c : Control) : Act κ → Bool
  | .update _ => c = .idle
  | _ => false

/-- The loop over the asyncs goes on. -/
def goesOn (c : Control) : Act κ → Bool
  | .validate _ => c = .validating .asyncs
  | .next => c = .looping .asyncs
  | .returns => c.runsAsync
  | _ => false

/-- The callables that are new in `s`. -/
def submitted (t : Ticks κ) (s : State κ) : List Nat :=
  List.range' t.state.asyncs (s.asyncs - t.state.asyncs)

/-- Those that were invoked on the way to `s`. -/
def invokedIn (t : Ticks κ) (s : State κ) : List Nat :=
  s.history.invokedAsyncs.drop t.state.history.invokedAsyncs.length

/-- After a step to the state `s`. -/
def after (t : Ticks κ) (a : Act κ) (s : State κ) : Ticks κ where
  state := s
  tick := if begins t.state.control a then t.tick + 1 else t.tick
  during :=
    if t.state.control = .idle then t.during
    else t.during ++ (t.submitted s).map fun callable => (callable, t.tick)
  invoked := t.invoked ++ (t.invokedIn s).map fun callable => (callable, t.tick)
  queued := if begins t.state.control a then t.state.asyncHolder else t.queued
  turns :=
    if begins t.state.control a then 0
    else if goesOn t.state.control a then t.turns + 1
    else t.turns

def step (t : Ticks κ) (a : Act κ) : Except Fault (Ticks κ) :=
  match TaskScheduler.step t.state a with
  | .ok s => .ok (t.after a s)
  | .error e => .error e

/-- What the last `Update` has invoked so far. -/
def invokedNow (t : Ticks κ) : List Nat :=
  (t.invoked.filter fun y => y.2 = t.tick).map Prod.fst

/-- **Async means next tick.** -/
structure NextTick (t : Ticks κ) : Prop where
  /-- What was submitted during an `Update` was not invoked by this one. -/
  later : ∀ x ∈ t.during, ∀ y ∈ t.invoked, x.1 = y.1 → x.2 < y.2
  /-- It waits, or was invoked, or was removed by `CancelAll`. -/
  kept : ∀ x ∈ t.during, x.1 ∈ t.state.asyncHolder ∨ x.1 ∈ t.state.history.invokedAsyncs ∨
    x.1 ∈ t.state.history.cancelledAsyncs
  /-- It does not wait any more when the next `Update` has come to the tasks. -/
  drained : t.state.control.inTasks → ∀ x ∈ t.during, x.2 < t.tick →
    x.1 ∉ t.state.asyncHolder
  /-- The loop invokes callables of those that waited at the beginning, and in their order. -/
  queued : t.invokedNow <+: t.queued
  /-- The loop takes three steps for each of them, and two to begin and to end. -/
  turns : t.turns ≤ 3 * t.queued.length + 2

end Ticks

/-- **The condition on a step.**  While `Dispatch` is in its loop over the asyncs nothing is
submitted, and no callable returns that has called `CancelAll`. -/
structure AsyncsWait (s : State κ) (a : Act κ) : Prop where
  scheduler : s.control.inAsyncs → a ≠ .op .async
  context : s.control.inAsyncs → ∀ i < s.contexts.length, a ≠ .contextOp i .async
  clean : ReturnsClean s a

/-- The callable that runs has called `CancelAll`. -/
def Control.isCancelled : Control → Bool
  | async _ cancelled => cancelled
  | _ => false

theorem returnsClean_iff {s : State κ} {a : Act κ} :
    ReturnsClean s a ↔ a = .returns → s.control.isCancelled = false := by
  refine imp_congr_right fun _ => ?_
  cases s.control <;> simp [Control.isCancelled]

instance [DecidableEq κ] (s : State κ) (a : Act κ) : Decidable (AsyncsWait s a) :=
  decidable_of_iff ((s.control.inAsyncs → a ≠ .op .async) ∧
      (s.control.inAsyncs → ∀ i < s.contexts.length, a ≠ .contextOp i .async) ∧
      (a = .returns → s.control.isCancelled = false))
    ⟨fun h => ⟨h.1, h.2.1, returnsClean_iff.mpr h.2.2⟩,
      fun h => ⟨h.scheduler, h.context, returnsClean_iff.mp h.clean⟩⟩

namespace Ticks

variable {t t' : Ticks κ} {s s' : State κ} {a : Act κ}

/-! ### The invariant -/

/-- The steps of the loop to its next turn, while it goes on. -/
def toTurn : Control → Nat
  | .async _ _ => 2
  | .validating _ => 1
  | _ => 0

/-- **The invariant.** -/
structure Valid (t : Ticks κ) : Prop where
  front : t.state.FrontRuns
  kept : t.state.AsyncsKept
  invoked_eq : t.invoked.map Prod.fst = t.state.history.invokedAsyncs
  invoked_le : ∀ y ∈ t.invoked, y.2 ≤ t.tick
  during_lt : ∀ x ∈ t.during, x.1 < t.state.asyncs
  during_le : ∀ x ∈ t.during, x.2 ≤ t.tick
  later : ∀ x ∈ t.during, ∀ y ∈ t.invoked, x.1 = y.1 → x.2 < y.2
  /-- While the loop runs, nothing was submitted in this `Update`. -/
  before : t.state.control.inAsyncs → ∀ x ∈ t.during, x.2 < t.tick
  ahead : t.state.control.inAsyncs → t.invokedNow ++ t.state.waiting <+: t.queued
  paced : t.state.control.inAsyncs →
    t.turns + toTurn t.state.control = 3 * t.invokedNow.length + 1
  drained : t.state.control.inTasks → ∀ x ∈ t.during, x.2 < t.tick → x.1 ∉ t.state.asyncHolder
  queued : t.invokedNow <+: t.queued
  turns : t.turns ≤ 3 * t.invokedNow.length + 2

theorem start_valid (now : Int) : (start now : Ticks κ).Valid where
  front callable hc := by cases hc
  kept := List.Perm.refl []
  invoked_eq := rfl
  invoked_le := by simp [start]
  during_lt := by simp [start]
  during_le := by simp [start]
  later := by simp [start]
  before := by simp [start]
  ahead h := by cases h
  paced h := by cases h
  drained := by simp [start]
  queued := List.prefix_rfl
  turns := Nat.zero_le _

theorem waiting_subset (s : State κ) : s.waiting ⊆ s.asyncHolder := by
  rw [State.waiting]
  split
  · exact List.tail_subset _
  · exact List.Subset.refl _

theorem Valid.nextTick (h : t.Valid) : t.NextTick where
  later := h.later
  kept x hx := by
    have hmem := h.kept.mem_iff.mp (List.mem_range.mpr (h.during_lt x hx))
    rw [List.mem_append, List.mem_append] at hmem
    rcases hmem with (hmem | hmem) | hmem
    · exact .inr (.inl hmem)
    · exact .inr (.inr hmem)
    · exact .inl (waiting_subset t.state hmem)
  drained := h.drained
  queued := h.queued
  turns := by
    have hlen := h.queued.length_le
    have hturns := h.turns
    omega

/-! ### A step that says nothing of the asyncs -/

theorem after_eq (hb : begins t.state.control a = false) (hg : goesOn t.state.control a = false)
    (hn : s.asyncs = t.state.asyncs)
    (hi : s.history.invokedAsyncs = t.state.history.invokedAsyncs) :
    t.after a s = { t with state := s } := by
  simp [after, submitted, invokedIn, hb, hg, hn, hi]

theorem Valid.same (h : t.Valid) (hs : SameAsyncs t.state s) :
    Valid { t with state := s } where
  front := hs.frontRuns h.front
  kept := hs.asyncsKept_congr.mpr h.kept
  invoked_eq := by rw [hs.invoked]; exact h.invoked_eq
  invoked_le := h.invoked_le
  during_lt := by rw [hs.asyncs]; exact h.during_lt
  during_le := h.during_le
  later := h.later
  before := by rw [hs.control]; exact h.before
  ahead := by
    show s.control.inAsyncs → t.invokedNow ++ s.waiting <+: t.queued
    rw [waiting, hs.control, hs.asyncHolder]
    exact h.ahead
  paced := by
    show s.control.inAsyncs → t.turns + toTurn s.control = 3 * t.invokedNow.length + 1
    rw [hs.control]
    exact h.paced
  drained := by rw [hs.control, hs.asyncHolder]; exact h.drained
  queued := h.queued
  turns := h.turns

/-! ### `Async` and `CancelAll` -/

theorem Valid.invoked_lt (h : t.Valid) : ∀ y ∈ t.invoked, y.1 < t.state.asyncs := by
  intro y hy
  have hmem : y.1 ∈ t.state.history.invokedAsyncs := by
    rw [← h.invoked_eq]
    exact List.mem_map_of_mem hy
  refine List.mem_range.mp (h.kept.mem_iff.mpr ?_)
  exact List.mem_append_left _ (List.mem_append_left _ hmem)

/-- **`Async`** outside the loop is for a later `Update`. -/
theorem Valid.async (h : t.Valid) (hc : t.state.control.inAsyncs = false)
    (hb : begins t.state.control a = false) (hg : goesOn t.state.control a = false) :
    (t.after a t.state.async).Valid := by
  have hafter : t.after a t.state.async = { t with
      state := t.state.async
      during := if t.state.control = .idle then t.during
        else t.during ++ [(t.state.asyncs, t.tick)] } := by
    simp [after, submitted, invokedIn, hb, hg, State.async]
  have hduring : ∀ x ∈ (t.after a t.state.async).during,
      x ∈ t.during ∨ x = (t.state.asyncs, t.tick) := by
    rw [hafter]
    intro x hx
    dsimp only at hx
    split at hx
    · exact .inl hx
    · simpa using hx
  rw [hafter] at hduring ⊢
  refine ⟨h.front.async, h.kept.async h.front, h.invoked_eq, h.invoked_le, ?_, ?_, ?_,
    fun hin => ?_, fun hin => ?_, fun hin => ?_, ?_, h.queued, h.turns⟩
  · intro x hx
    rcases hduring x hx with hx | rfl
    · exact Nat.lt_succ_of_lt (h.during_lt x hx)
    · exact Nat.lt_succ_self _
  · intro x hx
    rcases hduring x hx with hx | rfl
    · exact h.during_le x hx
    · exact Nat.le_refl _
  · intro x hx y hy heq
    rcases hduring x hx with hx | rfl
    · exact h.later x hx y hy heq
    · -- A callable that is new has not been invoked.
      exact absurd heq (Nat.ne_of_gt (h.invoked_lt y hy))
  · exact absurd hin (by simp [State.async, hc])
  · exact absurd hin (by simp [State.async, hc])
  · exact absurd hin (by simp [State.async, hc])
  · intro htasks x hx hlt hmem
    rcases hduring x hx with hx | rfl
    · rcases List.mem_append.mp hmem with hmem | hmem
      · exact h.drained htasks x hx hlt hmem
      · exact Nat.ne_of_lt (h.during_lt x hx) (List.mem_singleton.mp hmem)
    · exact Nat.lt_irrefl _ hlt

theorem inAsyncs_afterCancel (c : Control) : c.afterCancel.inAsyncs = c.inAsyncs := by
  cases c <;> rfl

theorem toTurn_afterCancel (c : Control) : toTurn c.afterCancel = toTurn c := by
  cases c <;> rfl

/-- **`CancelAll`** leaves nothing to invoke. -/
theorem Valid.cancelAll (h : t.Valid) : Valid { t with state := t.state.cancelAll } where
  front := FrontRuns.cancelAll
  kept := h.kept.cancelAll
  invoked_eq := h.invoked_eq
  invoked_le := h.invoked_le
  during_lt := h.during_lt
  during_le := h.during_le
  later := h.later
  before hin := h.before (inAsyncs_afterCancel _ ▸ hin)
  ahead _ := by
    rw [cancelAll_waiting, List.append_nil]
    exact h.queued
  paced hin := by
    show t.turns + toTurn t.state.control.afterCancel = 3 * t.invokedNow.length + 1
    rw [toTurn_afterCancel]
    exact h.paced (inAsyncs_afterCancel _ ▸ hin)
  drained _ _ _ _ := List.not_mem_nil
  queued := h.queued
  turns := h.turns

/-! ### `Dispatch` -/

theorem Valid.invokedNow_succ (h : t.Valid) : invokedNow { t with tick := t.tick + 1 } = [] := by
  rw [invokedNow, List.map_eq_nil_iff, List.filter_eq_nil_iff]
  intro y hy
  have hle : y.2 ≤ t.tick := h.invoked_le y hy
  simp only [decide_eq_true_eq]
  omega

/-- **`Update`** begins with what waits. -/
theorem Valid.update (h : t.Valid) (hc : t.state.control = .idle) (now : Int) :
    Valid { t with
      state := { t.state with now := now, control := .validating .asyncs }
      tick := t.tick + 1
      queued := t.state.asyncHolder
      turns := 0 } where
  front _ hc := by cases hc
  kept := h.kept.control rfl rfl rfl rfl (by simp [hc]) (by simp)
  invoked_eq := h.invoked_eq
  invoked_le y hy := Nat.le_succ_of_le (h.invoked_le y hy)
  during_lt := h.during_lt
  during_le x hx := Nat.le_succ_of_le (h.during_le x hx)
  later := h.later
  before _ x hx := Nat.lt_succ_of_le (h.during_le x hx)
  ahead _ := by
    show invokedNow { t with tick := t.tick + 1 } ++ t.state.asyncHolder <+: t.state.asyncHolder
    rw [h.invokedNow_succ]
    exact List.prefix_rfl
  paced _ := by
    show 0 + 1 = 3 * (invokedNow { t with tick := t.tick + 1 }).length + 1
    rw [h.invokedNow_succ]
    rfl
  drained hin := by cases hin
  queued := by
    show invokedNow { t with tick := t.tick + 1 } <+: t.state.asyncHolder
    rw [h.invokedNow_succ]
    exact List.nil_prefix
  turns := Nat.zero_le _

theorem Valid.move (h : t.Valid) (hin : s.control.inAsyncs = false)
    (htasks : s.control.inTasks → t.state.control.inTasks)
    (hs : s.asyncHolder = t.state.asyncHolder) (hn : s.asyncs = t.state.asyncs)
    (hi : s.history.invokedAsyncs = t.state.history.invokedAsyncs)
    (hk : s.history.cancelledAsyncs = t.state.history.cancelledAsyncs)
    (hc : ∀ callable, t.state.control ≠ .async callable false) {turns : Nat}
    (hturns : turns ≤ 3 * t.invokedNow.length + 2) :
    Valid { t with state := s, turns := turns } where
  front callable hcontrol := by
    rw [hcontrol] at hin
    cases hin
  kept := by
    refine h.kept.control hs hn hi hk hc fun callable hcontrol => ?_
    rw [hcontrol] at hin
    cases hin
  invoked_eq := by rw [hi]; exact h.invoked_eq
  invoked_le := h.invoked_le
  during_lt := by rw [hn]; exact h.during_lt
  during_le := h.during_le
  later := h.later
  before hs := absurd hs (by simp [hin])
  ahead hs := absurd hs (by simp [hin])
  paced hs := absurd hs (by simp [hin])
  drained ht := by rw [hs]; exact h.drained (htasks ht)
  queued := h.queued
  turns := hturns

theorem Valid.validated (h : t.Valid) (hc : t.state.control = .validating .asyncs) :
    Valid { t with
      state := { t.state with control := .looping .asyncs }, turns := t.turns + 1 } where
  front _ hc := by cases hc
  kept := h.kept.control rfl rfl rfl rfl (by simp [hc]) (by simp)
  invoked_eq := h.invoked_eq
  invoked_le := h.invoked_le
  during_lt := h.during_lt
  during_le := h.during_le
  later := h.later
  before _ := h.before (by rw [hc]; rfl)
  ahead _ := by
    have hahead := h.ahead (by rw [hc]; rfl)
    rw [waiting_eq (by simp [hc])] at hahead
    exact hahead
  paced _ := by
    have hpaced := h.paced (by rw [hc]; rfl)
    rw [hc] at hpaced
    exact hpaced
  drained hin := by cases hin
  queued := h.queued
  turns := by
    have hpaced := h.paced (by rw [hc]; rfl)
    rw [hc] at hpaced
    exact Nat.le_succ_of_le (Nat.le_of_eq hpaced)

/-- **A turn of the loop** invokes a callable that waited when the `Update` began. -/
theorem Valid.nextAsync_cons (h : t.Valid) (hc : t.state.control = .looping .asyncs)
    {callable : Nat} {rest : List Nat} (ha : t.state.asyncHolder = callable :: rest) :
    Valid { t with
      state := t.state.nextAsync
      invoked := t.invoked ++ [(callable, t.tick)]
      turns := t.turns + 1 } := by
  have hin : t.state.control.inAsyncs := by rw [hc]; rfl
  have hpaced := h.paced hin
  have hahead := h.ahead hin
  rw [hc] at hpaced
  rw [waiting_eq (by simp [hc]), ha] at hahead
  have hnow : invokedNow { t with invoked := t.invoked ++ [(callable, t.tick)] } =
      t.invokedNow ++ [callable] := by
    simp [invokedNow]
  have hlen : (t.invokedNow ++ [callable]).length = t.invokedNow.length + 1 := List.length_append
  have hkept := h.kept.nextAsync hc
  have heq : t.state.nextAsync = { t.state with
      control := .async callable false
      history := { t.state.history with
        invokedAsyncs := t.state.history.invokedAsyncs ++ [callable] } } := by
    simp only [State.nextAsync, ha]
  rw [heq] at hkept ⊢
  have hsplit : t.invokedNow ++ [callable] ++ rest <+: t.queued := by
    rw [List.append_assoc]
    exact hahead
  refine ⟨?_, hkept, ?_, ?_, h.during_lt, h.during_le, ?_, fun _ => h.before hin, fun _ => ?_,
    fun _ => ?_, ?_, ?_, ?_⟩
  · intro _ _ hnil
    rw [ha] at hnil
    cases hnil
  · rw [List.map_append, h.invoked_eq]
    rfl
  · intro y hy
    rcases List.mem_append.mp hy with hy | hy
    · exact h.invoked_le y hy
    · rw [List.mem_singleton.mp hy]
  · intro x hx y hy heq
    rcases List.mem_append.mp hy with hy | hy
    · exact h.later x hx y hy heq
    · rw [List.mem_singleton.mp hy]
      exact h.before hin x hx
  · show invokedNow { t with invoked := t.invoked ++ [(callable, t.tick)] } ++
      t.state.asyncHolder.tail <+: t.queued
    rw [hnow, ha]
    exact hsplit
  · show t.turns + 1 + 2 =
      3 * (invokedNow { t with invoked := t.invoked ++ [(callable, t.tick)] }).length + 1
    rw [hnow, hlen]
    have hpaced : t.turns = 3 * t.invokedNow.length + 1 := hpaced
    omega
  · intro hcontrol
    cases hcontrol
  · show invokedNow { t with invoked := t.invoked ++ [(callable, t.tick)] } <+: t.queued
    rw [hnow]
    exact (List.prefix_append _ _).trans hsplit
  · show t.turns + 1 ≤
      3 * (invokedNow { t with invoked := t.invoked ++ [(callable, t.tick)] }).length + 2
    rw [hnow, hlen]
    have hpaced : t.turns = 3 * t.invokedNow.length + 1 := hpaced
    omega

/-- **The loop ends** with nothing that waits. -/
theorem Valid.nextAsync_nil (h : t.Valid) (hc : t.state.control = .looping .asyncs)
    (ha : t.state.asyncHolder = []) :
    Valid { t with
      state := { t.state with control := .looping .tasks }, turns := t.turns + 1 } where
  front _ hc := by cases hc
  kept := h.kept.control rfl rfl rfl rfl (by simp [hc]) (by simp)
  invoked_eq := h.invoked_eq
  invoked_le := h.invoked_le
  during_lt := h.during_lt
  during_le := h.during_le
  later := h.later
  before hin := by cases hin
  ahead hin := by cases hin
  paced hin := by cases hin
  drained _ _ _ _ := by rw [ha]; exact List.not_mem_nil
  queued := h.queued
  turns := by
    have hpaced := h.paced (by rw [hc]; rfl)
    rw [hc] at hpaced
    exact Nat.le_of_eq (congrArg (· + 1) hpaced)

theorem Valid.popAsync (h : t.Valid) {callable : Nat}
    (hc : t.state.control = .async callable false) (hs : t.state.popAsync = .ok s) :
    Valid { t with state := s, turns := t.turns + 1 } := by
  obtain ⟨s', hs', hkept⟩ := h.kept.popAsync h.front hc
  rw [hs] at hs'
  cases hs'
  have hin : t.state.control.inAsyncs := by rw [hc]; rfl
  have hpaced := h.paced hin
  have hahead := h.ahead hin
  rw [hc] at hpaced
  rw [waiting_running hc] at hahead
  rw [State.popAsync] at hs
  cases ha : t.state.asyncHolder with
  | nil =>
    rw [ha] at hs
    cases hs
  | cons front rest =>
    rw [ha] at hs hahead
    cases hs
    have hturns : t.turns + 2 = 3 * t.invokedNow.length + 1 := hpaced
    refine ⟨?_, hkept, h.invoked_eq, h.invoked_le, h.during_lt, h.during_le, h.later,
      fun _ => h.before hin, fun _ => hahead, fun _ => ?_, ?_, h.queued, ?_⟩
    · intro _ hc
      cases hc
    · show t.turns + 1 + 1 = 3 * t.invokedNow.length + 1
      omega
    · intro hin
      cases hin
    · show t.turns + 1 ≤ 3 * t.invokedNow.length + 2
      omega

/-! ### Steps -/

/-- What a function of the scheduler or of a context does. -/
theorem Valid.called (h : t.Valid) (hb : begins t.state.control a = false)
    (hg : goesOn t.state.control a = false)
    (hs : SameAsyncs t.state s ∨
      (t.state.control.inAsyncs = false ∧ SameAsyncs t.state.async s) ∨
      SameAsyncs t.state.cancelAll s) : (t.after a s).Valid := by
  rcases hs with hs | ⟨hc, hs⟩ | hs
  · rw [after_eq hb hg hs.asyncs hs.invoked]
    exact h.same hs
  · have hafter : t.after a s = { t.after a t.state.async with state := s } := by
      simp [after, submitted, invokedIn, hs.asyncs, hs.invoked]
    rw [hafter]
    exact (h.async hc hb hg).same hs
  · rw [after_eq hb hg hs.asyncs hs.invoked]
    exact h.cancelAll.same hs

theorem Valid.ignored (h : t.Valid) (ha : t.state.ignores a) : (t.after a t.state).Valid := by
  have hb : begins t.state.control a = false := by
    cases a <;> simp_all [begins, State.ignores]
  have hg : goesOn t.state.control a = false := by
    cases a <;> cases hc : t.state.control <;>
      simp_all [goesOn, Control.runsAsync, State.ignores]
  exact h.called hb hg (.inl (SameAsyncs.refl _))

theorem Valid.step_validate (h : t.Valid) {loop : Loop} (hc : t.state.control = .validating loop)
    (result : Bool) : (t.after (.validate result)
      { t.state with control := if result then .looping loop else .idle }).Valid := by
  cases loop with
  | asyncs =>
    cases result with
    | true => simpa [after, begins, goesOn, submitted, invokedIn, hc] using h.validated hc
    | false =>
      have hpaced := h.paced (by rw [hc]; rfl)
      rw [hc] at hpaced
      have hturns : t.turns + 1 = 3 * t.invokedNow.length + 1 := hpaced
      have hnew := h.move (s := { t.state with control := .idle }) rfl (fun hin => by cases hin)
        rfl rfl rfl rfl (by simp [hc]) (show t.turns + 1 ≤ 3 * t.invokedNow.length + 2 by omega)
      simpa [after, begins, goesOn, submitted, invokedIn, hc] using hnew
  | tasks =>
    have hin : (if result then Control.looping .tasks else .idle).inAsyncs = false := by
      cases result <;> rfl
    have hnew := h.move
      (s := { t.state with control := if result then .looping .tasks else .idle }) hin
      (fun _ => by rw [hc]; rfl) rfl rfl rfl rfl (by simp [hc]) h.turns
    simpa [after, begins, goesOn, submitted, invokedIn, hc] using hnew

theorem Valid.step_nextTask (h : t.Valid) (hc : t.state.control = .looping .tasks) :
    (t.after .next t.state.nextTask).Valid := by
  obtain ⟨h₁, h₂, h₃, h₄, -⟩ := nextTask_asyncs t.state
  rw [after_eq rfl (by simp [goesOn, hc]) h₂ h₃]
  refine h.move ?_ (fun _ => by rw [hc]; rfl) h₁ h₂ h₃ h₄ (by simp [hc]) h.turns
  rw [State.nextTask]
  split
  · rfl
  · split <;> rfl

/-- **A step that meets the condition** keeps the invariant. -/
theorem Valid.step (h : t.Valid) (hw : AsyncsWait t.state a) (hs : t.step a = .ok t') :
    t'.Valid := by
  rw [Ticks.step] at hs
  cases hstep : TaskScheduler.step t.state a with
  | error e =>
    rw [hstep] at hs
    cases hs
  | ok s =>
    rw [hstep] at hs
    cases hs
    cases steps_of_step hstep with
    | update difftime hc =>
      have hnew := h.update hc (t.state.now + difftime)
      simpa [after, begins, submitted, invokedIn, hc] using hnew
    | validate loop result hc => exact h.step_validate hc result
    | nextAsync hc =>
      cases ha : t.state.asyncHolder with
      | nil =>
        have hnew := h.nextAsync_nil hc ha
        simpa [after, begins, goesOn, submitted, invokedIn, hc, State.nextAsync, ha] using hnew
      | cons callable rest =>
        have hnew := h.nextAsync_cons hc ha
        simpa [after, begins, goesOn, submitted, invokedIn, hc, State.nextAsync, ha] using hnew
    | nextTask hc => exact h.step_nextTask hc
    | op o =>
      refine h.called rfl rfl ((apply_asyncs t.state o).imp_right (Or.imp_left ?_))
      rintro ⟨rfl, hasync⟩
      exact ⟨by simpa using hw.scheduler, hasync⟩
    | contextOp i o c hi ho =>
      refine h.called rfl rfl ((applyContext_asyncs ho).imp_right (Or.imp_left ?_))
      rintro ⟨rfl, hasync⟩
      have hlt : i < t.state.contexts.length := (List.getElem?_eq_some_iff.mp hi).1
      exact ⟨Bool.eq_false_iff.mpr fun hin => hw.context hin i hlt rfl, hasync⟩
    | popAsync callable cancelled front rest hc ha =>
      cases cancelled with
      | true => exact absurd hc (hw.clean rfl callable)
      | false =>
        have hnew := h.popAsync hc (by rw [State.popAsync, ha])
        simpa [after, begins, goesOn, Control.runsAsync, submitted, invokedIn, hc] using hnew
    | taskReturns i hc =>
      have hnew := h.move (s := { t.state with control := .validating .tasks }) rfl
        (fun _ => by rw [hc]; rfl) rfl rfl rfl rfl (by simp [hc]) h.turns
      simpa [after, begins, goesOn, Control.runsAsync, submitted, invokedIn, hc] using hnew
    | finished hc =>
      have hnew := h.move (s := { t.state with control := .idle }) rfl (fun hin => by cases hin)
        rfl rfl rfl rfl (by simp [hc]) h.turns
      simpa [after, begins, goesOn, Control.runsAsync, submitted, invokedIn, hc] using hnew
    | ignored _ ha => exact h.ignored ha

/-! ### Runs -/

theorem step_ok (h : TaskScheduler.step t.state a = .ok s) : t.step a = .ok (t.after a s) := by
  rw [Ticks.step, h]

theorem step_state (h : t.step a = .ok t') : TaskScheduler.step t.state a = .ok t'.state := by
  rw [Ticks.step] at h
  split at h <;> cases h
  assumption

/-- **The record does not change what the scheduler does.** -/
theorem visits_state {acts : List (Act κ)} : ∀ t : Ticks κ,
    Visits TaskScheduler.step t.state acts s ↔ ∃ t', Visits step t acts t' ∧ t'.state = s := by
  induction acts with
  | nil =>
    intro t
    constructor
    · rintro ⟨pre, hpre, hr⟩
      obtain rfl := List.prefix_nil.mp hpre
      cases hr
      exact ⟨t, visits_start, rfl⟩
    · rintro ⟨t', ⟨pre, hpre, hr⟩, rfl⟩
      obtain rfl := List.prefix_nil.mp hpre
      cases hr
      exact visits_start
  | cons a acts ih =>
    intro t
    constructor
    · intro hv
      rcases visits_cons_cases hv with rfl | ⟨s₁, hs₁, hv⟩
      · exact ⟨t, visits_start, rfl⟩
      · obtain ⟨t', ht', rfl⟩ := (ih (t.after a s₁)).mp hv
        exact ⟨t', visits_cons (step_ok hs₁) ht', rfl⟩
    · rintro ⟨t', hv, rfl⟩
      rcases visits_cons_cases hv with rfl | ⟨t₁, ht₁, hv⟩
      · exact visits_start
      · exact visits_cons (step_state ht₁) ((ih t₁).mpr ⟨t', hv, rfl⟩)

theorem meets_state {C : State κ → Act κ → Prop} (acts : List (Act κ)) : ∀ t : Ticks κ,
    Meets TaskScheduler.step C t.state acts → Meets step (fun t a => C t.state a) t acts := by
  induction acts with
  | nil => exact fun _ _ => trivial
  | cons a acts ih =>
    intro t h
    exact ⟨h.1, fun t' ht' => ih t' (h.2 t'.state (step_state ht'))⟩

/-! ### What is submitted in the loop -/

/-- The same `Update`, in which nothing more was submitted. -/
structure Onwards (t t' : Ticks κ) : Prop where
  tick : t'.tick = t.tick
  during : t'.during = t.during
  invoked : t.invoked ⊆ t'.invoked

theorem Onwards.trans {u : Ticks κ} (h : Onwards t t') (h' : Onwards t' u) : Onwards t u :=
  ⟨h'.tick.trans h.tick, h'.during.trans h.during, List.Subset.trans h.invoked h'.invoked⟩

variable {callable : Nat} {rest : List Nat}

theorem exists_next (hc : t.state.control = .looping .asyncs)
    (ha : t.state.asyncHolder = callable :: rest) :
    ∃ t', t.step .next = .ok t' ∧ t'.state.control = .async callable false ∧
      t'.state.asyncHolder = callable :: rest ∧ Onwards t t' ∧ (callable, t.tick) ∈ t'.invoked := by
  have hstep : TaskScheduler.step t.state .next = .ok t.state.nextAsync := by
    rw [TaskScheduler.step, hc]
  have hnext : t.state.nextAsync = { t.state with
      control := .async callable false
      history := { t.state.history with
        invokedAsyncs := t.state.history.invokedAsyncs ++ [callable] } } := by
    simp only [State.nextAsync, ha]
  rw [hnext] at hstep
  refine ⟨_, step_ok hstep, rfl, ha, ⟨rfl, ?_, List.subset_append_left _ _⟩, ?_⟩
  · simp [after, submitted]
  · simp [after, begins, invokedIn]

theorem exists_validated (hc : t.state.control = .validating .asyncs) :
    ∃ t', run step t [.validate true] = .ok t' ∧ t'.state.control = .looping .asyncs ∧
      t'.state.asyncHolder = t.state.asyncHolder ∧ Onwards t t' := by
  have hstep : TaskScheduler.step t.state (.validate true) =
      .ok { t.state with control := .looping .asyncs } := by
    rw [TaskScheduler.step, hc]
    rfl
  rw [run_cons_of_ok (step_ok hstep)]
  refine ⟨_, rfl, rfl, rfl, ⟨rfl, ?_, ?_⟩⟩
  · simp [after, submitted]
  · simp [after, invokedIn]

theorem exists_returns (hc : t.state.control = .async callable false)
    {front : Nat} (ha : t.state.asyncHolder = front :: rest) :
    ∃ t', run step t [.returns, .validate true] = .ok t' ∧
      t'.state.control = .looping .asyncs ∧ t'.state.asyncHolder = rest ∧ Onwards t t' := by
  have hstep : TaskScheduler.step t.state .returns =
      .ok { t.state with asyncHolder := rest, control := .validating .asyncs } := by
    rw [TaskScheduler.step, State.returns, hc]
    dsimp only
    rw [State.popAsync, ha]
  have h : Onwards t (t.after .returns
      { t.state with asyncHolder := rest, control := .validating .asyncs }) := by
    refine ⟨rfl, ?_, ?_⟩
    · simp [after, submitted]
    · simp [after, invokedIn]
  rw [run_cons_of_ok (step_ok hstep)]
  obtain ⟨t', ht', hc', ha', h'⟩ := exists_validated (t := t.after .returns
    { t.state with asyncHolder := rest, control := .validating .asyncs }) rfl
  exact ⟨t', ht', hc', ha', h.trans h'⟩

/-- **The loop goes on to the last callable of the queue**, if the others do nothing. -/
theorem exists_invoked (callables : List Nat) : ∀ t : Ticks κ,
    t.state.control = .looping .asyncs → t.state.asyncHolder = callables ++ [callable] →
    ∃ acts t', run step t acts = .ok t' ∧ Onwards t t' ∧ (callable, t.tick) ∈ t'.invoked := by
  induction callables with
  | nil =>
    intro t hc ha
    obtain ⟨t', ht', -, -, honwards, hmem⟩ := exists_next hc ha
    exact ⟨[.next], t', by rw [run_cons_of_ok ht']; rfl, honwards, hmem⟩
  | cons front callables ih =>
    intro t hc ha
    obtain ⟨t₁, ht₁, hc₁, ha₁, h₁, -⟩ := exists_next hc ha
    obtain ⟨t₂, ht₂, hc₂, ha₂, h₂⟩ := exists_returns hc₁ ha₁
    obtain ⟨acts, t', ht', h', hmem⟩ := ih t₂ hc₂ ha₂
    refine ⟨.next :: ([Act.returns, .validate true] ++ acts), t', ?_, (h₁.trans h₂).trans h', ?_⟩
    · rw [run_cons_of_ok ht₁, run_append_of_ok ht₂]
      exact ht'
    · rw [h₂.tick, h₁.tick] at hmem
      exact hmem

/-- **What is submitted in the loop may be invoked by it**: whenever the loop calls `Async`, there
is a way to go on on which this `Update` also invokes the new callable. -/
theorem async_at_once (hin : t.state.control.inAsyncs) (hf : t.state.FrontRuns)
    (hclean : ∀ callable, t.state.control ≠ .async callable true) :
    ∃ acts t', run step t (.op .async :: acts) = .ok t' ∧ ¬ t'.NextTick := by
  obtain ⟨t₁, ht₁, htick, hduring, hstate⟩ : ∃ t₁, t.step (.op .async) = .ok t₁ ∧
      t₁.tick = t.tick ∧ (t.state.asyncs, t.tick) ∈ t₁.during ∧ t₁.state = t.state.async := by
    refine ⟨_, step_ok rfl, rfl, ?_, rfl⟩
    have hidle : t.state.control ≠ .idle := by
      intro hc
      rw [hc] at hin
      cases hin
    simp [after, submitted, hidle, State.apply, State.async]
  obtain ⟨pre, t₂, ht₂, hc₂, callables, ha₂, h₂⟩ : ∃ pre t₂, run step t₁ pre = .ok t₂ ∧
      t₂.state.control = .looping .asyncs ∧
      ∃ callables, t₂.state.asyncHolder = callables ++ [t.state.asyncs] ∧ Onwards t₁ t₂ := by
    cases hc : t.state.control with
    | validating loop =>
      rw [hc] at hin
      cases loop with
      | asyncs =>
        obtain ⟨t₂, ht₂, hc₂, ha₂, h₂⟩ := exists_validated (t := t₁) (by rw [hstate]; exact hc)
        exact ⟨_, t₂, ht₂, hc₂, t.state.asyncHolder, by rw [ha₂, hstate]; rfl, h₂⟩
      | tasks => cases hin
    | looping loop =>
      rw [hc] at hin
      cases loop with
      | asyncs =>
        exact ⟨[], t₁, rfl, by rw [hstate]; exact hc, t.state.asyncHolder, by rw [hstate]; rfl,
          rfl, rfl, List.Subset.refl _⟩
      | tasks => cases hin
    | async running cancelled =>
      cases cancelled with
      | true => exact absurd hc (hclean running)
      | false =>
        obtain ⟨front, rest, ha⟩ := List.exists_cons_of_ne_nil (hf running hc)
        have hc₁ : t₁.state.control = .async running false := by rw [hstate]; exact hc
        have ha₁ : t₁.state.asyncHolder = front :: (rest ++ [t.state.asyncs]) := by
          rw [hstate, State.async, ha]
          rfl
        obtain ⟨t₂, ht₂, hc₂, ha₂, h₂⟩ := exists_returns hc₁ ha₁
        exact ⟨_, t₂, ht₂, hc₂, rest, ha₂, h₂⟩
    | _ =>
      rw [hc] at hin
      cases hin
  obtain ⟨acts, t', ht', h', hmem⟩ := exists_invoked callables t₂ hc₂ ha₂
  refine ⟨pre ++ acts, t', ?_, fun hn => ?_⟩
  · rw [run_cons_of_ok ht₁, run_append_of_ok ht₂]
    exact ht'
  · rw [h₂.tick, htick] at hmem
    rw [← h₂.during, ← h'.during] at hduring
    exact Nat.lt_irrefl _ (hn.later _ hduring _ hmem rfl)

end Ticks

open Ticks

/-- **Async means next tick, while the loop over the asyncs submits nothing.**  In every run whose
steps meet the condition, a callable that was submitted during an `Update` is not invoked by this
one; it is kept until the next one, whose loop over the asyncs does not end before it was invoked
or removed by `CancelAll`; and this loop invokes only what waited when its `Update` began, in at
most three steps for each callable and two more, and pops nothing from an empty queue. -/
theorem nextTick_spec (now : Int) (acts : List (Act κ))
    (h : Meets step AsyncsWait (new now) acts) :
    (∀ t, Visits Ticks.step (start now) acts t → t.NextTick) ∧
      ∀ e, run step (new now) acts = .error e → ¬ PopsEmpty e := by
  constructor
  · intro t ht
    have heach := each_of_meets acts (start now) (meets_state acts (start now) h)
    exact (visits_invariant (fun _ _ _ hv hw hs => Valid.step hv hw hs) acts (start now)
      (start_valid now) heach t ht).nextTick
  · exact ((asyncs_safe now acts).mpr (meets_mono (fun _ _ hw => hw.clean) acts _ h)).1

/-- The callback of a task submits a callable, and the next `Update` invokes it. -/
theorem nextTick_spec_two :
    (∃ t : Ticks Unit, run Ticks.step (start 0) [.op .async, .op (.schedule 1 none ()), .update 1,
        .validate true, .next, .returns, .validate true, .next, .next, .contextOp 0 .async,
        .returns, .validate true, .next, .returns, .update 1, .validate true, .next] = .ok t ∧
      t.during = [(1, 1)] ∧ t.invoked = [(0, 1), (1, 2)]) ∧
    ∀ t : Ticks Unit, Visits Ticks.step (start 0) [.op .async, .op (.schedule 1 none ()),
        .update 1, .validate true, .next, .returns, .validate true, .next, .next,
        .contextOp 0 .async, .returns, .validate true, .next, .returns, .update 1,
        .validate true, .next] t → t.NextTick :=
  ⟨⟨_, rfl, by decide, by decide⟩, (nextTick_spec 0 _ (by decide)).1⟩

/-- A callable submits another one, which the same `Update` invokes. -/
theorem async_in_async : ∃ t : Ticks Unit, run Ticks.step (start 0) [.op .async, .update 0,
      .validate true, .next, .op .async, .returns, .validate true, .next] = .ok t ∧
    t.queued = [0] ∧ t.during = [(1, 1)] ∧ t.invoked = [(0, 1), (1, 1)] ∧ ¬ t.NextTick := by
  refine ⟨_, rfl, by decide, by decide, by decide, fun h => ?_⟩
  exact absurd (h.later (1, 1) (by decide) (1, 1) (by decide) rfl) (by decide)

end TaskScheduler

end WarheadDiscord
