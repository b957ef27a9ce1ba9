import WarheadDiscord.Common.TaskScheduler

/-!
# The callables of `Async`

`Dispatch` invokes the first callable in its place and pops the queue when it has
returned.  Whatever else the callable does to the scheduler, the first element is then
still this callable; but `CancelAll` gives the scheduler a new queue.

* `AsyncsKept`: each callable waits, or was invoked once, or was removed by `CancelAll`.
* `asyncsKept_iff`: this holds all along, and nothing is popped from an empty queue, exactly
  when no callable returns that has called `CancelAll`.
-/

namespace WarheadDiscord

open Lib

namespace TaskScheduler

namespace State

variable {κ : Type} {s s' : State κ}

/-- Every callable that was submitted waits, or was invoked once, or was removed before. -/
def AsyncsKept (s : State κ) : Prop :=
  (List.range s.asyncs).Perm
    (s.history.invokedAsyncs ++ s.history.cancelledAsyncs ++ s.waiting)

/-- The callable that runs is in the queue, unless it has called `CancelAll`. -/
def FrontRuns (s : State κ) : Prop :=
  ∀ callable, s.control = .async callable false → s.asyncHolder ≠ []

/-! ### What does not touch the callables -/

/-- The callables and their history are the same. -/
structure SameAsyncs (s s' : State κ) : Prop where
  asyncHolder : s'.asyncHolder = s.asyncHolder
  asyncs : s'.asyncs = s.asyncs
  control : s'.control = s.control
  invoked : s'.history.invokedAsyncs = s.history.invokedAsyncs
  cancelled : s'.history.cancelledAsyncs = s.history.cancelledAsyncs

theorem SameAsyncs.refl (s : State κ) : SameAsyncs s s := ⟨rfl, rfl, rfl, rfl, rfl⟩

theorem SameAsyncs.trans {t : State κ} (h : SameAsyncs s s') (h' : SameAsyncs s' t) :
    SameAsyncs s t :=
  ⟨h'.1.trans h.1, h'.2.trans h.2, h'.3.trans h.3, h'.4.trans h.4, h'.5.trans h.5⟩

theorem SameAsyncs.asyncsKept_congr (h : SameAsyncs s s') : s'.AsyncsKept ↔ s.AsyncsKept := by
  rw [AsyncsKept, AsyncsKept, waiting, waiting, h.asyncHolder, h.asyncs, h.control, h.invoked,
    h.cancelled]

theorem SameAsyncs.frontRuns (h : SameAsyncs s s') (hs : s.FrontRuns) : s'.FrontRuns := by
  rw [FrontRuns, h.asyncHolder, h.control]
  exact hs

theorem modifyIf_sameAsyncs (s : State κ) (filter : Task κ → Option (Task κ)) :
    SameAsyncs s (s.modifyIf filter) := by
  refine modifyIf_keeps ?_ ?_ filter (SameAsyncs.refl s)
  · exact fun t _ _ h => h.trans ⟨rfl, rfl, rfl, rfl, rfl⟩
  · exact fun t _ h => h.trans ⟨rfl, rfl, rfl, rfl, rfl⟩

theorem cancelGroupsOf_sameAsyncs (s : State κ) (groups : List UInt32) :
    SameAsyncs s (s.cancelGroupsOf groups) := by
  refine cancelGroupsOf_keeps ?_ groups s (SameAsyncs.refl s)
  exact fun t _ h => h.trans ⟨rfl, rfl, rfl, rfl, rfl⟩

/-- **What a function does to the callables**: `Async` and `CancelAll` are the only ones. -/
theorem apply_asyncs (s : State κ) (o : Op κ) : SameAsyncs s (s.apply o) ∨
    (o = .async ∧ SameAsyncs s.async (s.apply o)) ∨ SameAsyncs s.cancelAll (s.apply o) := by
  cases o with
  | async => exact .inr (.inl ⟨rfl, SameAsyncs.refl _⟩)
  | schedule time group task => exact .inl ⟨rfl, rfl, rfl, rfl, rfl⟩
  | cancelAll => exact .inr (.inr (SameAsyncs.refl _))
  | cancelGroup group => exact .inl ⟨rfl, rfl, rfl, rfl, rfl⟩
  | cancelGroupsOf groups => exact .inl (cancelGroupsOf_sameAsyncs s groups)
  | delayAll duration => exact .inl (modifyIf_sameAsyncs s _)
  | delayGroup group duration => exact .inl (modifyIf_sameAsyncs s _)
  | rescheduleAll duration => exact .inl (modifyIf_sameAsyncs s _)
  | rescheduleGroup group duration => exact .inl (modifyIf_sameAsyncs s _)

theorem applyContext_asyncs {i : Nat} {c : Context} {o : ContextOp κ}
    (h : s.applyContext i c o = .ok s') :
    SameAsyncs s s' ∨ (o = .async ∧ SameAsyncs s.async s') ∨ SameAsyncs s.cancelAll s' := by
  cases o with
  | «repeat» duration =>
    rw [applyContext, repeat_] at h
    split at h
    · cases h
    · cases h
      exact .inl ⟨rfl, rfl, rfl, rfl, rfl⟩
  | schedule time group task => cases h; exact .inl ⟨rfl, rfl, rfl, rfl, rfl⟩
  | setGroup group => cases h; exact .inl ⟨rfl, rfl, rfl, rfl, rfl⟩
  | clearGroup => cases h; exact .inl ⟨rfl, rfl, rfl, rfl, rfl⟩
  | async => cases h; exact .inr (.inl ⟨rfl, SameAsyncs.refl _⟩)
  | cancelAll => cases h; exact .inr (.inr (SameAsyncs.refl _))
  | cancelGroup group => cases h; exact .inl ⟨rfl, rfl, rfl, rfl, rfl⟩
  | cancelGroupsOf groups => cases h; exact .inl (cancelGroupsOf_sameAsyncs s groups)
  | delayAll duration => cases h; exact .inl (modifyIf_sameAsyncs s _)
  | delayGroup group duration => cases h; exact .inl (modifyIf_sameAsyncs s _)
  | rescheduleGroup group duration => cases h; exact .inl (modifyIf_sameAsyncs s _)

/-! ### `Async` and `CancelAll` -/

theorem FrontRuns.async (_ : s.FrontRuns) : s.async.FrontRuns := by
  intro callable _ h
  exact List.append_ne_nil_of_right_ne_nil s.asyncHolder (List.cons_ne_nil _ _) h

theorem afterCancel_ne (c : Control) (callable : Nat) : c.afterCancel ≠ .async callable false := by
  cases c <;> simp [Control.afterCancel]

theorem FrontRuns.cancelAll : s.cancelAll.FrontRuns := fun callable h =>
  absurd h (afterCancel_ne s.control callable)

theorem waiting_running {callable : Nat} (h : s.control = .async callable false) :
    s.waiting = s.asyncHolder.tail := by
  rw [waiting, h]

/-- While no callable runs, or one that has called `CancelAll`, all in the queue wait. -/
theorem waiting_eq (h : ∀ callable, s.control ≠ .async callable false) :
    s.waiting = s.asyncHolder := by
  rw [waiting]
  split
  · rename_i callable hc
    exact absurd hc (h callable)
  · rfl

theorem async_waiting (h : s.FrontRuns) : s.async.waiting = s.waiting ++ [s.asyncs] := by
  by_cases hc : ∃ callable, s.control = .async callable false
  · obtain ⟨callable, hc⟩ := hc
    rw [waiting_running hc, waiting_running (s := s.async) hc]
    exact List.tail_append_of_ne_nil (h callable hc)
  · have hn : ∀ callable, s.control ≠ .async callable false := fun callable h => hc ⟨callable, h⟩
    rw [waiting_eq hn, waiting_eq (s := s.async) hn]
    rfl

theorem AsyncsKept.async (h : s.AsyncsKept) (hf : s.FrontRuns) : s.async.AsyncsKept := by
  rw [AsyncsKept, async_waiting hf]
  show (List.range (s.asyncs + 1)).Perm
    (s.history.invokedAsyncs ++ s.history.cancelledAsyncs ++ (s.waiting ++ [s.asyncs]))
  rw [List.range_succ, ← List.append_assoc]
  exact h.append_right _

theorem cancelAll_waiting (s : State κ) : s.cancelAll.waiting = [] := by
  rw [waiting]
  split <;> rfl

theorem AsyncsKept.cancelAll (h : s.AsyncsKept) : s.cancelAll.AsyncsKept := by
  rw [AsyncsKept, cancelAll_waiting, List.append_nil]
  show (List.range s.asyncs).Perm
    (s.history.invokedAsyncs ++ (s.history.cancelledAsyncs ++ s.waiting))
  rw [← List.append_assoc]
  exact h

/-! ### `Dispatch` -/

theorem AsyncsKept.control (h : s.AsyncsKept) (hasync : s'.asyncHolder = s.asyncHolder)
    (hn : s'.asyncs = s.asyncs) (hi : s'.history.invokedAsyncs = s.history.invokedAsyncs)
    (hc : s'.history.cancelledAsyncs = s.history.cancelledAsyncs)
    (hs : ∀ callable, s.control ≠ .async callable false)
    (hs' : ∀ callable, s'.control ≠ .async callable false) : s'.AsyncsKept := by
  rw [AsyncsKept, waiting_eq hs] at h
  rw [AsyncsKept, waiting_eq hs', hasync, hn, hi, hc]
  exact h

theorem nextTask_asyncs (s : State κ) : s.nextTask.asyncHolder = s.asyncHolder ∧
    s.nextTask.asyncs = s.asyncs ∧
    s.nextTask.history.invokedAsyncs = s.history.invokedAsyncs ∧
    s.nextTask.history.cancelledAsyncs = s.history.cancelledAsyncs ∧
    ∀ callable, s.nextTask.control ≠ .async callable false := by
  rw [nextTask]
  split
  · exact ⟨rfl, rfl, rfl, rfl, by simp⟩
  · split
    · exact ⟨rfl, rfl, rfl, rfl, by simp⟩
    · exact ⟨rfl, rfl, rfl, rfl, by simp [invoke]⟩

theorem AsyncsKept.nextAsync (h : s.AsyncsKept) (hc : s.control = .looping .asyncs) :
    s.nextAsync.AsyncsKept := by
  have hs : ∀ callable, s.control ≠ .async callable false := by simp [hc]
  have hw := waiting_eq hs
  rw [State.nextAsync]
  cases ha : s.asyncHolder with
  | nil => exact h.control ha.symm rfl rfl rfl hs (by simp)
  | cons callable rest =>
    rw [AsyncsKept, hw, ha] at h
    refine h.trans ?_
    show (s.history.invokedAsyncs ++ s.history.cancelledAsyncs ++ callable :: rest).Perm
      (s.history.invokedAsyncs ++ [callable] ++ s.history.cancelledAsyncs ++ rest)
    rw [List.append_assoc, List.append_assoc, List.append_assoc]
    exact List.perm_middle.append_left _

/-- **When the loop over the asyncs ends, all are done**: invoked once, or removed before. -/
theorem AsyncsKept.nextAsync_done (h : s.AsyncsKept) (hc : s.control = .looping .asyncs)
    (ht : s.nextAsync.control = .looping .tasks) :
    (List.range s.asyncs).Perm (s.history.invokedAsyncs ++ s.history.cancelledAsyncs) := by
  rw [State.nextAsync] at ht
  cases ha : s.asyncHolder with
  | nil =>
    rw [AsyncsKept, waiting_eq (by simp [hc]), ha, List.append_nil] at h
    exact h
  | cons front rest =>
    rw [ha] at ht
    cases ht

/-- A callable that has not called `CancelAll` is what is popped when it returns. -/
theorem AsyncsKept.popAsync {callable : Nat} (h : s.AsyncsKept) (hf : s.FrontRuns)
    (hc : s.control = .async callable false) : ∃ t, s.popAsync = .ok t ∧ t.AsyncsKept := by
  rw [State.popAsync]
  cases ha : s.asyncHolder with
  | nil => exact absurd ha (hf callable hc)
  | cons front rest =>
    rw [AsyncsKept, waiting_running hc, ha, List.tail_cons] at h
    exact ⟨_, rfl, h⟩

/-- After a `CancelAll` there is nothing to pop, or what was submitted since then is lost. -/
theorem AsyncsKept.popAsync_cancelled {callable : Nat} (h : s.AsyncsKept)
    (hc : s.control = .async callable true) :
    s.popAsync = .error (.undefinedBehaviour "pop of an empty queue") ∨
      ∃ t, s.popAsync = .ok t ∧ ¬ t.AsyncsKept := by
  rw [State.popAsync]
  cases ha : s.asyncHolder with
  | nil => exact .inl rfl
  | cons front rest =>
    refine .inr ⟨_, rfl, fun ht => ?_⟩
    have hl := h.length_eq
    have hl' := ht.length_eq
    rw [waiting_eq (by simp [hc]), ha, List.length_append, List.length_cons] at hl
    rw [waiting_eq (by simp), List.length_append] at hl'
    dsimp only at hl'
    omega

end State

open State

variable {κ : Type} {s s' : State κ}

/-! ### Steps -/

/-- `Dispatch` goes on while no callable runs. -/
structure Moves (s s' : State κ) : Prop where
  asyncHolder : s'.asyncHolder = s.asyncHolder
  asyncs : s'.asyncs = s.asyncs
  invoked : s'.history.invokedAsyncs = s.history.invokedAsyncs
  cancelled : s'.history.cancelledAsyncs = s.history.cancelledAsyncs
  before : ∀ callable, s.control ≠ .async callable false
  after : ∀ callable, s'.control ≠ .async callable false

/-- **What a step does to the callables.** -/
theorem step_asyncs {a : Act κ} (h : step s a = .ok s') :
    SameAsyncs s s' ∨ SameAsyncs s.async s' ∨ SameAsyncs s.cancelAll s' ∨ Moves s s' ∨
      (s.control = .looping .asyncs ∧ s' = s.nextAsync) ∨
      (a = .returns ∧ ∃ callable cancelled, s.control = .async callable cancelled ∧
        s.popAsync = .ok s') := by
  cases steps_of_step h with
  | update difftime hc =>
    exact .inr (.inr (.inr (.inl ⟨rfl, rfl, rfl, rfl, by simp [hc], by simp⟩)))
  | validate loop result hc =>
    refine .inr (.inr (.inr (.inl ⟨rfl, rfl, rfl, rfl, by simp [hc], ?_⟩)))
    cases result <;> simp
  | nextAsync hc => exact .inr (.inr (.inr (.inr (.inl ⟨hc, rfl⟩))))
  | nextTask hc =>
    obtain ⟨h₁, h₂, h₃, h₄, h₅⟩ := nextTask_asyncs s
    exact .inr (.inr (.inr (.inl ⟨h₁, h₂, h₃, h₄, by simp [hc], h₅⟩)))
  | op o =>
    rcases apply_asyncs s o with h | ⟨-, h⟩ | h
    · exact .inl h
    · exact .inr (.inl h)
    · exact .inr (.inr (.inl h))
  | contextOp i o c hi ho =>
    rcases applyContext_asyncs ho with h | ⟨-, h⟩ | h
    · exact .inl h
    · exact .inr (.inl h)
    · exact .inr (.inr (.inl h))
  | popAsync callable cancelled front rest hc ha =>
    exact .inr (.inr (.inr (.inr (.inr ⟨rfl, callable, cancelled, hc, by rw [popAsync, ha]⟩))))
  | taskReturns i hc =>
    exact .inr (.inr (.inr (.inl ⟨rfl, rfl, rfl, rfl, by simp [hc], by simp⟩)))
  | finished hc => exact .inr (.inr (.inr (.inl ⟨rfl, rfl, rfl, rfl, by simp [hc], by simp⟩)))
  | ignored => exact .inl (SameAsyncs.refl s)

theorem step_error {a : Act κ} {e : Fault} (h : step s a = .error e) :
    (∃ cond, e = .assertion cond) ∨ (a = .returns ∧ ∃ callable cancelled,
      s.control = .async callable cancelled ∧ s.popAsync = .error e) := by
  cases a with
  | update difftime => rw [step] at h; split at h <;> cases h
  | validate result => rw [step] at h; split at h <;> cases h
  | next => rw [step] at h; split at h <;> cases h
  | op o => cases h
  | contextOp i o =>
    rw [step] at h
    cases hi : s.contexts[i]? with
    | some c =>
      rw [hi] at h
      cases o with
      | «repeat» duration =>
        dsimp only at h
        rw [applyContext, repeat_] at h
        split at h <;> cases h
        exact .inl ⟨_, rfl⟩
      | _ => cases h
    | none =>
      rw [hi] at h
      cases h
  | returns =>
    rw [step, State.returns] at h
    cases hc : s.control with
    | async callable cancelled =>
      rw [hc] at h
      exact .inr ⟨rfl, callable, cancelled, rfl, h⟩
    | _ =>
      rw [hc] at h
      cases h

theorem popAsync_control {t : State κ} (h : s.popAsync = .ok t) :
    t.control = .validating .asyncs := by
  rw [popAsync] at h
  split at h <;> cases h
  rfl

theorem step_frontRuns {a : Act κ} (h : s.FrontRuns) (hs : step s a = .ok s') : s'.FrontRuns := by
  rcases step_asyncs hs with hs | hs | hs | hs | ⟨-, rfl⟩ | ⟨-, _, _, -, hs⟩
  · exact hs.frontRuns h
  · exact hs.frontRuns h.async
  · exact hs.frontRuns FrontRuns.cancelAll
  · exact fun callable hc => absurd hc (hs.after callable)
  · intro callable hc
    rw [nextAsync] at hc ⊢
    cases ha : s.asyncHolder with
    | nil =>
      rw [ha] at hc
      cases hc
    | cons front rest => exact List.cons_ne_nil front rest
  · intro callable hc
    rw [popAsync_control hs] at hc
    cases hc

/-- **The condition on a step.**  No callable returns that has called `CancelAll`. -/
def ReturnsClean (s : State κ) (a : Act κ) : Prop :=
  a = .returns → ∀ callable, s.control ≠ .async callable true

/-- The fault of a pop from the empty queue. -/
def PopsEmpty (e : Fault) : Prop := e = .undefinedBehaviour "pop of an empty queue"

/-- **A step that meets the condition** keeps the callables. -/
theorem step_asyncsKept {a : Act κ} (hf : s.FrontRuns) (h : s.AsyncsKept) (hc : ReturnsClean s a) :
    (∀ e, step s a = .error e → ¬ PopsEmpty e) ∧ ∀ t, step s a = .ok t → t.AsyncsKept := by
  have hclean : ∀ callable cancelled, a = .returns → s.control = .async callable cancelled →
      ∃ t, s.popAsync = .ok t ∧ t.AsyncsKept := by
    intro callable cancelled ha hctl
    cases cancelled with
    | false => exact h.popAsync hf hctl
    | true => exact absurd hctl (hc ha callable)
  refine ⟨fun e he => ?_, fun t ht => ?_⟩
  · rcases step_error he with ⟨cond, rfl⟩ | ⟨ha, callable, cancelled, hctl, hp⟩
    · exact fun hbad => by cases hbad
    · obtain ⟨t, ht, -⟩ := hclean callable cancelled ha hctl
      rw [ht] at hp
      cases hp
  · rcases step_asyncs ht with hs | hs | hs | hs | ⟨hctl, rfl⟩ | ⟨ha, callable, cancelled, hctl, hp⟩
    · exact hs.asyncsKept_congr.mpr h
    · exact hs.asyncsKept_congr.mpr (h.async hf)
    · exact hs.asyncsKept_congr.mpr h.cancelAll
    · exact h.control hs.asyncHolder hs.asyncs hs.invoked hs.cancelled hs.before hs.after
    · exact h.nextAsync hctl
    · obtain ⟨t', ht', hk⟩ := hclean callable cancelled ha hctl
      rw [ht'] at hp
      cases hp
      exact hk

/-- **A step that does not** pops from the empty queue, or loses a callable. -/
theorem step_not_asyncsKept {a : Act κ} (h : s.AsyncsKept) (hc : ¬ ReturnsClean s a) :
    (∃ e, step s a = .error e ∧ PopsEmpty e) ∨ ∃ t, step s a = .ok t ∧ ¬ t.AsyncsKept := by
  rw [ReturnsClean] at hc
  push Not at hc
  obtain ⟨rfl, callable, hctl⟩ := hc
  have hstep : step s .returns = s.popAsync := by
    rw [step, State.returns, hctl]
  rw [hstep]
  rcases h.popAsync_cancelled hctl with hp | hp
  · exact .inl ⟨_, hp, rfl⟩
  · exact .inr hp

/-! ### Runs -/

theorem asyncs_safe (now : Int) (acts : List (Act κ)) :
    ((∀ e, run step (new now) acts = .error e → ¬ PopsEmpty e) ∧
      ∀ s, Visits step (new now) acts s → s.AsyncsKept) ↔
      Meets step ReturnsClean (new now) acts := by
  refine safe_iff_meets (I := FrontRuns) (fun _ _ _ hf hs => step_frontRuns hf hs)
    (fun _ _ hf hk hc => step_asyncsKept hf hk hc) (fun _ _ _ hk hc => step_not_asyncsKept hk hc)
    acts (new now) ?_ ?_
  · intro callable hc
    cases hc
  · exact List.Perm.refl []

/-- **When an async may modify the scheduler.**  A run never pops from the empty queue, and in all
its states each callable waits, or was invoked once, or was removed by `CancelAll` without being
invoked, exactly when no callable returns that has called `CancelAll`.  If `Dispatch` then goes
on to the tasks, no callable waits. -/
theorem asyncsKept_iff (now : Int) (acts : List (Act κ)) :
    (((∀ e, run step (new now) acts = .error e → ¬ PopsEmpty e) ∧
      ∀ s, Visits step (new now) acts s → s.AsyncsKept) ↔
      Meets step ReturnsClean (new now) acts) ∧
    ∀ s, Visits step (new now) acts s → s.AsyncsKept → s.control = .looping .asyncs →
      s.nextAsync.control = .looping .tasks →
      (List.range s.asyncs).Perm (s.history.invokedAsyncs ++ s.history.cancelledAsyncs) :=
  ⟨asyncs_safe now acts, fun _ _ hk hc ht => hk.nextAsync_done hc ht⟩

/-- One callable calls `CancelAll`, and nothing is left to pop.  If it also submits another one,
then this is popped and never invoked. -/
theorem cancelAll_in_async : run step (new 0 : State Unit)
      [.op .async, .update 0, .validate true, .next, .op .cancelAll, .returns] =
      .error (.undefinedBehaviour "pop of an empty queue") ∧
    ∃ s, run step (new 0 : State Unit) [.op .async, .update 0, .validate true, .next,
        .op .cancelAll, .op .async, .returns, .validate true, .next] = .ok s ∧
      s.control = .looping .tasks ∧ s.asyncs = 2 ∧ s.asyncHolder = [] ∧
      s.history.invokedAsyncs = [0] ∧ s.history.cancelledAsyncs = [] := by
  refine ⟨by decide, ?_⟩
  exact ⟨_, rfl, rfl, rfl, rfl, rfl, rfl⟩

end TaskScheduler

end WarheadDiscord
