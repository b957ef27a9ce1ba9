import WarheadDiscord.Common.TaskScheduler

/-!
# Catching up

The times that a callback gives to its context are relative to the `_end` of its task.  So
what `Dispatch` does next depends on the time only in that it may stop, and then the next
`Update` goes on from there.

* `Program`: what the callbacks of the tasks do.
* `updateBy`: an `Update` in its whole length.
* `Agree`: the same tasks, maybe at different times.
* `Agree.turn`: one turn of the loop keeps this.
* `updateBy_add`: two updates do what one does.
-/

namespace WarheadDiscord

open Lib

namespace TaskScheduler

variable {κ : Type}

/-- What the callback of a task does with its context.  All that it can read of its task
follows from the task as it is when it is invoked. -/
abbrev Program (κ : Type) := Task κ → List (ContextOp κ)

/-- All but `Async` and `RescheduleGroup`. -/
def ContextOp.IsRelative : ContextOp κ → Prop
  | .async => False
  | .rescheduleGroup _ _ => False
  | _ => True

/-- The callback that runs with the context `i`, and then the validator. -/
def callback (P : Program κ) (s : State κ) (i : Nat) : List (Act κ) :=
  match s.contexts[i]?.bind fun c => s.heap[c.task]? with
  | some t => (P t).map (.contextOp i) ++ [Act.returns, .validate true]
  | none => [.returns, .validate true]

/-- The loop over the tasks, or `none` if it takes more turns than `fuel`. -/
def dispatchTasks (P : Program κ) : Nat → State κ → Except Fault (Option (State κ))
  | 0, _ => .ok none
  | fuel + 1, s => do
    let s ← step s .next
    match s.control with
    | .task i =>
      let s ← run step s (callback P s i)
      dispatchTasks P fuel s
    | _ => .ok (some s)

/-- `Update(difftime)` without asyncs, while the validator says yes. -/
def updateBy (P : Program κ) (fuel : Nat) (difftime : Int) (s : State κ) :
    Except Fault (Option (State κ)) := do
  let s ← run step s [.update difftime, .validate true, .next]
  match ← dispatchTasks P fuel s with
  | some s => do
    let s ← step s .returns
    .ok (some s)
  | none => .ok none

/-- An invocation, but for the time when it was. -/
def Invocation.untimed (v : Invocation) : Invocation := { v with now := 0 }

namespace State

/-- The same tasks at another time, with another record of what was seen. -/
def shift (s : State κ) (now : Int) (probes : List (List Probe)) (invocations : List Invocation) :
    State κ :=
  { s with
    now := now
    history := { s.history with probes := probes, invocations := invocations } }

/-- The two have the same tasks, and invoked the same ones before. -/
def Agree (s t : State κ) : Prop :=
  ∃ now probes invocations, t = s.shift now probes invocations ∧
    invocations.map Invocation.untimed = s.history.invocations.map Invocation.untimed

variable {s s' t t' : State κ} {i : Nat} {c : Context} {o : ContextOp κ}

theorem Agree.symm (h : Agree s t) : Agree t s := by
  obtain ⟨now, probes, invocations, rfl, hv⟩ := h
  exact ⟨s.now, s.history.probes, s.history.invocations, rfl, hv.symm⟩

theorem Agree.trans {u : State κ} (h : Agree s t) (h' : Agree t u) : Agree s u := by
  obtain ⟨_, _, _, rfl, hv⟩ := h
  obtain ⟨now, probes, invocations, rfl, hw⟩ := h'
  exact ⟨now, probes, invocations, rfl, hw.trans hv⟩

theorem Agree.contexts (h : Agree s t) : t.contexts = s.contexts := by
  obtain ⟨_, _, _, rfl, -⟩ := h
  rfl

theorem Agree.control (h : Agree s t) : t.control = s.control := by
  obtain ⟨_, _, _, rfl, -⟩ := h
  rfl

theorem Agree.asyncHolder (h : Agree s t) : t.asyncHolder = s.asyncHolder := by
  obtain ⟨_, _, _, rfl, -⟩ := h
  rfl

/-! ### What stays while a callback runs -/

/-- The time is the same, the callback of a task still runs, and no callable was submitted. -/
structure Frame (s s' : State κ) : Prop where
  now : s'.now = s.now
  control : ∀ j, s.control = .task j → s'.control = .task j
  asyncHolder : s.asyncHolder = [] → s'.asyncHolder = []

theorem Frame.refl (s : State κ) : Frame s s := ⟨rfl, fun _ h => h, fun h => h⟩

theorem Frame.trans (h : Frame s s') (h' : Frame s' t) : Frame s t :=
  ⟨h'.now.trans h.now, fun j hj => h'.control j (h.control j hj),
    fun ha => h'.asyncHolder (h.asyncHolder ha)⟩

theorem modifyIf_frame (s : State κ) (filter : Task κ → Option (Task κ)) :
    Frame s (s.modifyIf filter) := by
  refine modifyIf_keeps ?_ ?_ filter (Frame.refl s)
  · exact fun t _ _ h => h.trans ⟨rfl, fun _ h => h, fun h => h⟩
  · exact fun t _ h => h.trans ⟨rfl, fun _ h => h, fun h => h⟩

theorem cancelGroupsOf_frame (s : State κ) (groups : List UInt32) :
    Frame s (s.cancelGroupsOf groups) := by
  refine cancelGroupsOf_keeps ?_ groups s (Frame.refl s)
  exact fun t _ h => h.trans ⟨rfl, fun _ h => h, fun h => h⟩

theorem applyContext_frame (hr : o.IsRelative) (ho : s.applyContext i c o = .ok s') :
    Frame s s' := by
  cases o with
  | «repeat» duration =>
    rw [applyContext, repeat_] at ho
    split at ho
    · cases ho
    · cases ho
      exact ⟨rfl, fun _ h => h, fun h => h⟩
  | schedule time group task => cases ho; exact ⟨rfl, fun _ h => h, fun h => h⟩
  | setGroup group => cases ho; exact ⟨rfl, fun _ h => h, fun h => h⟩
  | clearGroup => cases ho; exact ⟨rfl, fun _ h => h, fun h => h⟩
  | async => exact hr.elim
  | cancelAll =>
    cases ho
    refine ⟨rfl, fun j h => ?_, fun _ => rfl⟩
    show s.control.afterCancel = .task j
    rw [h]
    rfl
  | cancelGroup group => cases ho; exact ⟨rfl, fun _ h => h, fun h => h⟩
  | cancelGroupsOf groups => cases ho; exact cancelGroupsOf_frame s groups
  | delayAll duration => cases ho; exact modifyIf_frame s _
  | delayGroup group duration => cases ho; exact modifyIf_frame s _
  | rescheduleGroup group duration => exact hr.elim

/-! ### What does not look at the time -/

theorem Agree.push (h : Agree s t) (e : Entry) : Agree (s.push e) (t.push e) := by
  obtain ⟨now, probes, invocations, rfl, hv⟩ := h
  exact ⟨now, probes ++ [s.probe], invocations, rfl, hv⟩

theorem Agree.foldl_push (cache : List Entry) : ∀ s t : State κ, Agree s t →
    Agree (cache.foldl (fun s e => s.push e.again) s)
      (cache.foldl (fun s e => s.push e.again) t) := by
  induction cache with
  | nil => exact fun s t h => h
  | cons e cache ih => exact fun s t h => ih _ _ (h.push e.again)

theorem Agree.modifyIf (h : Agree s t) (filter : Task κ → Option (Task κ)) :
    Agree (s.modifyIf filter) (t.modifyIf filter) := by
  obtain ⟨now, probes, invocations, rfl, hv⟩ := h
  rw [State.modifyIf, State.modifyIf]
  exact Agree.foldl_push _ _ _ ⟨now, probes, invocations, rfl, hv⟩

theorem Agree.removeIf (h : Agree s t) (filter : Task κ → Bool) :
    Agree (s.removeIf filter) (t.removeIf filter) := by
  obtain ⟨now, probes, invocations, rfl, hv⟩ := h
  exact ⟨now, probes, invocations, rfl, hv⟩

theorem Agree.modifyTask (h : Agree s t) (task : Nat) (f : Task κ → Task κ) :
    Agree (s.modifyTask task f) (t.modifyTask task f) := by
  obtain ⟨now, probes, invocations, rfl, hv⟩ := h
  exact ⟨now, probes, invocations, rfl, hv⟩

theorem Agree.cancelGroupsOf (h : Agree s t) (groups : List UInt32) :
    Agree (s.cancelGroupsOf groups) (t.cancelGroupsOf groups) := by
  rw [State.cancelGroupsOf, State.cancelGroupsOf]
  induction groups generalizing s t with
  | nil => exact h
  | cons g gs ih => exact ih (h.removeIf _)

theorem Agree.repeat_ (h : Agree s t) (duration : Option Int)
    (hr : s.repeat_ i c duration = .ok s') :
    ∃ t', t.repeat_ i c duration = .ok t' ∧ Agree s' t' := by
  obtain ⟨now, probes, invocations, rfl, hv⟩ := h
  rw [State.repeat_] at hr ⊢
  by_cases hc : c.consumed = true
  · rw [if_pos hc] at hr
    cases hr
  · rw [if_neg hc] at hr ⊢
    cases hr
    exact ⟨_, rfl, now, probes ++ [State.probe _], invocations, rfl, hv⟩

/-- **Every function of a context** but `Async` and `RescheduleGroup`. -/
theorem Agree.applyContext (h : Agree s t) (hr : o.IsRelative)
    (ho : s.applyContext i c o = .ok s') :
    ∃ t', t.applyContext i c o = .ok t' ∧ Agree s' t' := by
  cases o with
  | «repeat» duration => exact h.repeat_ duration ho
  | schedule time group task =>
    cases ho
    obtain ⟨now, probes, invocations, rfl, hv⟩ := h
    exact ⟨_, rfl, now, probes ++ [State.probe _], invocations, rfl, hv⟩
  | setGroup group => cases ho; exact ⟨_, rfl, h.modifyTask _ _⟩
  | clearGroup => cases ho; exact ⟨_, rfl, h.modifyTask _ _⟩
  | async => exact hr.elim
  | cancelAll =>
    cases ho
    obtain ⟨now, probes, invocations, rfl, hv⟩ := h
    exact ⟨_, rfl, now, probes, invocations, rfl, hv⟩
  | cancelGroup group => cases ho; exact ⟨_, rfl, h.removeIf _⟩
  | cancelGroupsOf groups => cases ho; exact ⟨_, rfl, h.cancelGroupsOf groups⟩
  | delayAll duration => cases ho; exact ⟨_, rfl, h.modifyIf _⟩
  | delayGroup group duration => cases ho; exact ⟨_, rfl, h.modifyIf _⟩
  | rescheduleGroup group duration => exact hr.elim

theorem contextOp_frame (hr : o.IsRelative) (hs : step s (.contextOp i o) = .ok s') :
    Frame s s' := by
  rw [step] at hs
  cases hi : s.contexts[i]? with
  | some c =>
    rw [hi] at hs
    exact applyContext_frame hr hs
  | none =>
    rw [hi] at hs
    cases hs
    exact Frame.refl s

theorem Agree.contextOp (h : Agree s t) (hr : o.IsRelative)
    (hs : step s (.contextOp i o) = .ok s') :
    ∃ t', step t (.contextOp i o) = .ok t' ∧ Agree s' t' := by
  rw [step] at hs ⊢
  rw [h.contexts]
  cases hi : s.contexts[i]? with
  | some c =>
    rw [hi] at hs
    exact h.applyContext hr hs
  | none =>
    rw [hi] at hs
    cases hs
    exact ⟨t, rfl, h⟩

theorem Agree.contextOps (ops : List (ContextOp κ)) : ∀ s t : State κ, Agree s t →
    (∀ o ∈ ops, o.IsRelative) → run step s (ops.map (.contextOp i)) = .ok s' →
    Frame s s' ∧ ∃ t', run step t (ops.map (.contextOp i)) = .ok t' ∧ Agree s' t' ∧ Frame t t' := by
  induction ops with
  | nil =>
    intro s t h _ hs
    cases hs
    exact ⟨Frame.refl _, t, rfl, h, Frame.refl t⟩
  | cons o ops ih =>
    intro s t h hr hs
    rw [List.map_cons] at hs ⊢
    obtain ⟨s₁, hs₁, hs⟩ := run_cons_ok hs
    have ho : o.IsRelative := hr o (by simp)
    obtain ⟨t₁, ht₁, h₁⟩ := h.contextOp ho hs₁
    obtain ⟨hf, t', ht', h', hft⟩ := ih s₁ t₁ h₁ (fun o ho => hr o (by simp [ho])) hs
    refine ⟨(contextOp_frame ho hs₁).trans hf, t', ?_, h', (contextOp_frame ho ht₁).trans hft⟩
    rw [run_cons_of_ok ht₁]
    exact ht'

/-! ### One turn -/

/-- `Dispatch` is at the head of its loop over the tasks, and there are no asyncs. -/
structure AtTasks (s : State κ) : Prop where
  control : s.control = .looping .tasks
  asyncHolder : s.asyncHolder = []

variable {P : Program κ}

theorem Agree.callback_eq (h : Agree s t) : callback P t i = callback P s i := by
  obtain ⟨_, _, _, rfl, -⟩ := h
  rfl

theorem Agree.atTasks (h : Agree s t) (hs : s.AtTasks) : t.AtTasks :=
  ⟨h.control.trans hs.control, h.asyncHolder.trans hs.asyncHolder⟩

theorem run_returns (hc : s.control = .task i) :
    run step s [.returns, .validate true] = .ok { s with control := .looping .tasks } := by
  have hret : step s .returns = .ok { s with control := .validating .tasks } := by
    rw [step, State.returns, hc]
  rw [run_cons_of_ok hret]
  rfl

theorem exists_callback (P : Program κ) (hP : ∀ t, ∀ o ∈ P t, o.IsRelative) (s : State κ)
    (i : Nat) : ∃ ops : List (ContextOp κ), (∀ o ∈ ops, o.IsRelative) ∧
      callback P s i = ops.map (.contextOp i) ++ [Act.returns, .validate true] := by
  rw [callback]
  split
  · exact ⟨P _, hP _, rfl⟩
  · exact ⟨[], by simp, rfl⟩

theorem Agree.callback (h : Agree s t) (hP : ∀ t, ∀ o ∈ P t, o.IsRelative)
    (hc : s.control = .task i) (ha : s.asyncHolder = [])
    (hs : run step s (TaskScheduler.callback P s i) = .ok s') :
    s'.AtTasks ∧ s'.now = s.now ∧
      ∃ t', run step t (TaskScheduler.callback P t i) = .ok t' ∧ Agree s' t' ∧ t'.now = t.now := by
  rw [h.callback_eq]
  obtain ⟨ops, hr, heq⟩ := exists_callback P hP s i
  rw [heq] at hs ⊢
  obtain ⟨s₁, hs₁, hs⟩ := run_append_ok hs
  obtain ⟨hf, t₁, ht₁, h₁, hft⟩ := Agree.contextOps ops s t h hr hs₁
  rw [run_returns (hf.control i hc)] at hs
  cases hs
  refine ⟨⟨rfl, hf.asyncHolder ha⟩, hf.now, { t₁ with control := .looping .tasks }, ?_, ?_, hft.now⟩
  · rw [run_append_of_ok ht₁, run_returns (hft.control i (h.control.trans hc))]
  · obtain ⟨now, probes, invocations, rfl, hv⟩ := h₁
    exact ⟨now, probes, invocations, rfl, hv⟩

/-- The first task of the queue has come to its end. -/
def Due (s : State κ) (e : Entry) (rest : List Entry) : Prop :=
  s.queue = e :: rest ∧ s.endOf e.task ≤ s.now

variable {e : Entry} {rest : List Entry}

theorem nextTask_of_due (h : s.Due e rest) : s.nextTask = s.observe.invoke e rest := by
  rw [State.nextTask, h.1]
  dsimp only
  rw [if_neg (not_lt.mpr h.2)]

theorem nextTask_of_not_due (h : ∀ e rest, ¬ s.Due e rest) : ∃ probes,
    s.nextTask = { s.shift s.now probes s.history.invocations with control := .finishing } := by
  rw [State.nextTask]
  split
  · exact ⟨s.history.probes, rfl⟩
  · rename_i e rest hq
    by_cases hn : s.now < s.endOf e.task
    · rw [if_pos hn]
      exact ⟨s.history.probes ++ [s.probe], rfl⟩
    · exact absurd ⟨hq, not_lt.mp hn⟩ (h e rest)

theorem Agree.due (h : Agree s t) (hn : s.now ≤ t.now) (hd : s.Due e rest) : t.Due e rest := by
  obtain ⟨now, probes, invocations, rfl, -⟩ := h
  exact ⟨hd.1, hd.2.trans hn⟩

theorem Agree.invoke (h : Agree s t) (e : Entry) (rest : List Entry) :
    Agree (s.observe.invoke e rest) (t.observe.invoke e rest) := by
  obtain ⟨now, probes, invocations, rfl, hv⟩ := h
  refine ⟨now, probes ++ [s.probe], invocations ++ [_], rfl, ?_⟩
  show (invocations ++ [_]).map _ = (s.history.invocations ++ [_]).map _
  rw [List.map_append, List.map_append, hv]
  rfl

theorem step_next (hc : s.control = .looping .tasks) : step s .next = .ok s.nextTask := by
  rw [step, hc]

theorem dispatchTasks_of_due (hc : s.control = .looping .tasks) (hd : s.Due e rest) (fuel : Nat) :
    dispatchTasks P (fuel + 1) s = (do
      let s' ← run step (s.observe.invoke e rest)
        (TaskScheduler.callback P (s.observe.invoke e rest) s.contexts.length)
      dispatchTasks P fuel s') := by
  rw [dispatchTasks, step_next hc, nextTask_of_due hd]
  rfl

theorem dispatchTasks_of_not_due (hc : s.control = .looping .tasks)
    (hd : ∀ e rest, ¬ s.Due e rest) (fuel : Nat) :
    dispatchTasks P (fuel + 1) s = .ok (some s.nextTask) := by
  obtain ⟨probes, hn⟩ := nextTask_of_not_due hd
  rw [dispatchTasks, step_next hc, hn]
  rfl

/-- **One turn** of the loop, when a task is due. -/
theorem Agree.turn (h : Agree s t) (hP : ∀ t, ∀ o ∈ P t, o.IsRelative) (hs : s.AtTasks)
    (hn : s.now ≤ t.now) (hd : s.Due e rest) {fuel : Nat} {r : State κ}
    (hr : dispatchTasks P (fuel + 1) s = .ok (some r)) :
    ∃ s' t', dispatchTasks P fuel s' = .ok (some r) ∧ s'.AtTasks ∧ Agree s' t' ∧ s'.now = s.now ∧
      t'.now = t.now ∧ ∀ fuel, dispatchTasks P (fuel + 1) t = dispatchTasks P fuel t' := by
  rw [dispatchTasks_of_due hs.control hd] at hr
  obtain ⟨s', hs', hr⟩ := bind_ok hr
  obtain ⟨hat, hnow, t', ht', h', hnow'⟩ :=
    (h.invoke e rest).callback (i := s.contexts.length) hP rfl hs.asyncHolder hs'
  refine ⟨s', t', hr, hat, h', hnow, hnow', fun fuel => ?_⟩
  rw [dispatchTasks_of_due (h.atTasks hs).control (h.due hn hd), h.contexts, ht']
  rfl

end State

open State

variable {s s' t t' : State κ} {P : Program κ}

/-! ### Runs -/

/-- **A later time is not noticed** until the loop ends: it then goes on where it would have
ended. -/
theorem dispatchTasks_later (hP : ∀ t, ∀ o ∈ P t, o.IsRelative) (fuel : Nat) :
    ∀ s t : State κ, Agree s t → s.AtTasks → s.now ≤ t.now →
    dispatchTasks P fuel s = .ok (some s') → ∀ n, dispatchTasks P n t = .ok (some t') →
    ∃ s₁ t₁ k, s' = s₁.nextTask ∧ s₁.AtTasks ∧ (∀ e rest, ¬ s₁.Due e rest) ∧ Agree s₁ t₁ ∧
      s₁.now = s.now ∧ t₁.now = t.now ∧ dispatchTasks P k t₁ = .ok (some t') := by
  induction fuel with
  | zero =>
    intro s t _ _ _ hs
    cases hs
  | succ fuel ih =>
    intro s t h hat hn hs n ht
    by_cases hd : ∃ e rest, s.Due e rest
    · obtain ⟨e, rest, hd⟩ := hd
      obtain ⟨s₁, t₁, hs₁, hat₁, h₁, hsn, htn, hturn⟩ := h.turn hP hat hn hd hs
      cases n with
      | zero => cases ht
      | succ n =>
        rw [hturn] at ht
        have hn₁ : s₁.now ≤ t₁.now := by rw [hsn, htn]; exact hn
        obtain ⟨s₂, t₂, k, hend, hat₂, hd₂, h₂, hsn₂, htn₂, hk⟩ := ih s₁ t₁ h₁ hat₁ hn₁ hs₁ n ht
        exact ⟨s₂, t₂, k, hend, hat₂, hd₂, h₂, hsn₂.trans hsn, htn₂.trans htn, hk⟩
    · have hd : ∀ e rest, ¬ s.Due e rest := fun e rest hdue => hd ⟨e, rest, hdue⟩
      rw [dispatchTasks_of_not_due hat.control hd] at hs
      cases hs
      exact ⟨s, t, n, rfl, hat, hd, h, rfl, rfl, ht⟩

theorem dispatchTasks_same (hP : ∀ t, ∀ o ∈ P t, o.IsRelative) {fuel n : Nat} (h : Agree s t)
    (hat : s.AtTasks) (hn : s.now = t.now) (hs : dispatchTasks P fuel s = .ok (some s'))
    (ht : dispatchTasks P n t = .ok (some t')) :
    Agree s' t' ∧ s'.now = t'.now ∧ s'.control = .finishing := by
  obtain ⟨s₁, t₁, k, rfl, hat₁, hd, h₁, hsn, htn, hk⟩ :=
    dispatchTasks_later hP fuel s t h hat (le_of_eq hn) hs n ht
  have heq : t₁.now = s₁.now := by rw [hsn, htn, hn]
  have hd' : ∀ e rest, ¬ t₁.Due e rest :=
    fun e rest hdue => hd e rest (h₁.symm.due (le_of_eq heq) hdue)
  cases k with
  | zero => cases hk
  | succ k =>
    rw [dispatchTasks_of_not_due (h₁.atTasks hat₁).control hd'] at hk
    cases hk
    obtain ⟨p, hp⟩ := nextTask_of_not_due hd
    obtain ⟨q, hq⟩ := nextTask_of_not_due hd'
    rw [hp, hq]
    refine ⟨?_, heq.symm, rfl⟩
    obtain ⟨now, probes, invocations, rfl, hv⟩ := h₁
    exact ⟨now, q, invocations, rfl, hv⟩

/-- The state in which an `Update` comes to the loop over the tasks. -/
def State.wake (s : State κ) (difftime : Int) : State κ :=
  { s with now := s.now + difftime, control := .looping .tasks }

theorem run_update (hc : s.control = .idle) (ha : s.asyncHolder = []) (difftime : Int) :
    run step s [.update difftime, .validate true, .next] = .ok (s.wake difftime) := by
  have hu : step s (.update difftime) =
      .ok { s with now := s.now + difftime, control := .validating .asyncs } := by
    rw [step, hc]
  have hn : State.nextAsync { s with now := s.now + difftime, control := .looping .asyncs } =
      s.wake difftime := by
    rw [State.nextAsync]
    split
    · rfl
    · rename_i callable rest heq
      rw [ha] at heq
      cases heq
  rw [run_cons_of_ok hu, ← hn]
  rfl

theorem updateBy_cases {fuel : Nat} {difftime : Int} (hc : s.control = .idle)
    (ha : s.asyncHolder = []) (h : updateBy P fuel difftime s = .ok (some s')) :
    ∃ r, dispatchTasks P fuel (s.wake difftime) = .ok (some r) ∧ step r .returns = .ok s' := by
  rw [updateBy, run_update hc ha] at h
  obtain ⟨_, hw, h⟩ := bind_ok h
  cases hw
  obtain ⟨r, hr, h⟩ := bind_ok h
  cases r with
  | none => cases h
  | some r =>
    obtain ⟨s₂, hs₂, h⟩ := bind_ok h
    cases h
    exact ⟨r, hr, hs₂⟩

theorem next_update (hat : s.AtTasks) (hd : ∀ e rest, ¬ s.Due e rest)
    (h : step s.nextTask .returns = .ok s') (difftime : Int) :
    s'.control = .idle ∧ s'.asyncHolder = [] ∧ Agree (s'.wake difftime) s ∧ s'.now = s.now := by
  obtain ⟨p, hp⟩ := nextTask_of_not_due hd
  rw [hp] at h
  cases h
  refine ⟨rfl, hat.asyncHolder, Agree.symm ⟨s.now + difftime, p, _, ?_, rfl⟩, rfl⟩
  rw [wake, ← hat.control]
  rfl

theorem step_returns (hc : s.control = .finishing) :
    step s .returns = .ok { s with control := .idle } := by
  rw [step, State.returns, hc]

/-- **Catching up does not depend on the ticks.**  If no callback uses `Async` or `RescheduleGroup`,
two updates end with the same tasks at the same time as one update by the sum does, and have
invoked the same tasks with the same counters in the same order. -/
theorem updateBy_add (hP : ∀ t, ∀ o ∈ P t, o.IsRelative) (hc : s.control = .idle)
    (ha : s.asyncHolder = []) {a b : Int} (hb : 0 ≤ b) {k m n : Nat} {s₁ s₂ : State κ}
    (h₁ : updateBy P k a s = .ok (some s₁)) (h₂ : updateBy P m b s₁ = .ok (some s₂))
    (h : updateBy P n (a + b) s = .ok (some t)) :
    s₂.history.invocations.map Invocation.untimed = t.history.invocations.map Invocation.untimed ∧
      s₂.now = t.now ∧ s₂.queue = t.queue ∧ s₂.heap = t.heap ∧ s₂.contexts = t.contexts := by
  obtain ⟨r₁, hr₁, h₁⟩ := updateBy_cases hc ha h₁
  obtain ⟨r, hr, h⟩ := updateBy_cases hc ha h
  have hagree : Agree (s.wake a) (s.wake (a + b)) :=
    ⟨s.now + (a + b), s.history.probes, _, rfl, rfl⟩
  have hle : (s.wake a).now ≤ (s.wake (a + b)).now := by
    show s.now + a ≤ s.now + (a + b)
    omega
  -- the first update stops at `u`, and the one update goes on at `v`
  obtain ⟨u, v, j, rfl, hat, hd, huv, hun, hvn, hv⟩ :=
    dispatchTasks_later hP k _ _ hagree ⟨rfl, ha⟩ hle hr₁ n hr
  obtain ⟨hc₁, ha₁, hu, hnow⟩ := next_update hat hd h₁ b
  obtain ⟨r₂, hr₂, h₂⟩ := updateBy_cases hc₁ ha₁ h₂
  have hsame : (s₁.wake b).now = v.now := by
    show s₁.now + b = v.now
    rw [hnow, hun, hvn]
    show s.now + a + b = s.now + (a + b)
    omega
  obtain ⟨hend, hnow, hfin⟩ := dispatchTasks_same hP (hu.trans huv) ⟨rfl, ha₁⟩ hsame hr₂ hv
  rw [step_returns hfin] at h₂
  rw [step_returns (hend.control.trans hfin)] at h
  cases h₂
  cases h
  obtain ⟨_, _, _, rfl, hi⟩ := hend
  exact ⟨hi.symm, hnow, rfl, rfl, rfl⟩

/-- A task that runs three times, and each time schedules another one that is due at once. -/
def threeTimes : Program Bool := fun t =>
  if t.task then
    if t.repeated < 2 then [.schedule 0 (some 1) false, .repeat none] else [.schedule 0 none false]
  else []

theorem threeTimes_isRelative (t : Task Bool) : ∀ o ∈ threeTimes t, o.IsRelative := by
  rw [threeTimes]
  split
  · split <;> simp [ContextOp.IsRelative]
  · simp

/-- Two updates by 3 and by 4, and one by 7. -/
theorem updateBy_add_seven : ∃ s₁ s₂ t,
    updateBy threeTimes 9 3 (State.scheduleAt (new 0) 0 2 none true) = .ok (some s₁) ∧
    updateBy threeTimes 9 4 s₁ = .ok (some s₂) ∧
    updateBy threeTimes 9 (3 + 4) (State.scheduleAt (new 0) 0 2 none true) = .ok (some t) ∧
    s₂.history.invocations.map (fun v => (v.entry.task, v.repeated)) =
      [(0, 0), (1, 0), (0, 1), (2, 0), (0, 2), (3, 0)] ∧
    s₂.history.invocations.map Invocation.untimed = t.history.invocations.map Invocation.untimed ∧
      s₂.now = t.now ∧ s₂.queue = t.queue ∧ s₂.heap = t.heap ∧ s₂.contexts = t.contexts := by
  obtain ⟨s₁, h₁, hp⟩ := ok_some_of_any
    (x := updateBy threeTimes 9 3 (State.scheduleAt (new 0) 0 2 none true))
    (p := fun s₁ => (updateBy threeTimes 9 4 s₁).toOption.join.any fun s₂ =>
      s₂.history.invocations.map (fun v => (v.entry.task, v.repeated)) =
        [(0, 0), (1, 0), (0, 1), (2, 0), (0, 2), (3, 0)]) (by decide)
  obtain ⟨s₂, h₂, hp⟩ := ok_some_of_any hp
  obtain ⟨t, ht, -⟩ := ok_some_of_any
    (x := updateBy threeTimes 9 (3 + 4) (State.scheduleAt (new 0) 0 2 none true))
    (p := fun _ => true) (by decide)
  refine ⟨s₁, s₂, t, h₁, h₂, ht, of_decide_eq_true hp, ?_⟩
  exact updateBy_add threeTimes_isRelative rfl rfl (by decide) h₁ h₂ ht

end TaskScheduler

end WarheadDiscord
