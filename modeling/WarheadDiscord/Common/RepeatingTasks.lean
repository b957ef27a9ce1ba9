import WarheadDiscord.Common.ModifyIf
import WarheadDiscord.Common.TaskConservation

/-!
# Repeating tasks

`Repeat` counts the next end from the last one and not from the time of the invocation, and
`Dispatch` goes on until no task is due.  So a task that only repeats itself keeps to its
schedule, however late and irregular the updates are.

* `Spares`: the steps that leave the task alone, but for its own `Repeat`.
* `Undisturbed`: what such a call keeps, with one lemma for each thing it does.
* `OnSchedule`: the invariant.
* `OnSchedule.step`: one step keeps it.
* `repeats_spec`: how often the task has been invoked after each `Update`.
-/

namespace WarheadDiscord

open Lib

namespace TaskScheduler

open State

variable {κ : Type}

/-! ### What leaves a task alone -/

/-- A call that does not cancel, delay or reschedule the task. -/
def Op.spares (t : Task κ) : Op κ → Bool
  | .cancelAll => false
  | .cancelGroup group => !t.isInGroup group
  | .cancelGroupsOf groups => groups.all fun group => !t.isInGroup group
  | .delayAll _ => false
  | .delayGroup group _ => !t.isInGroup group
  | .rescheduleAll _ => false
  | .rescheduleGroup group _ => !t.isInGroup group
  | _ => true

/-- The same for a call of another task's context. -/
def ContextOp.spares (t : Task κ) : ContextOp κ → Bool
  | .cancelAll => false
  | .cancelGroup group => !t.isInGroup group
  | .cancelGroupsOf groups => groups.all fun group => !t.isInGroup group
  | .delayAll _ => false
  | .delayGroup group _ => !t.isInGroup group
  | .rescheduleGroup group _ => !t.isInGroup group
  | _ => true

/-- `Repeat()`, or `Repeat` with the duration that the task has. -/
def ContextOp.isRepeat (t : Task κ) : ContextOp κ → Bool
  | .repeat duration => duration.getD t.duration = t.duration
  | _ => false

/-- **The condition on a step.**  Updates do not go back in time, the validator says yes, other
calls leave the task alone, and its callback calls `Repeat` and nothing else of its context. -/
def spares (task : Nat) (s : State κ) : Act κ → Bool
  | .update difftime => 0 ≤ difftime
  | .validate result => result
  | .next => true
  | .op o => s.heap[task]?.all fun t => o.spares t
  | .contextOp i o => s.contexts[i]?.all fun c => s.heap[task]?.all fun t =>
    if c.task = task then o.isRepeat t else o.spares t
  | .returns =>
    match s.control with
    | .task i => s.contexts[i]? ≠ some ⟨task, false⟩
    | _ => true

namespace State

variable {s s' : State κ} {task : Nat} {e : Entry}

/-- The tasks of the queue. -/
def tasks (s : State κ) : List Nat := s.queue.map fun e => e.task

/-- The invocations of a task, in their order. -/
def invocationsOf (s : State κ) (task : Nat) : List Invocation :=
  s.history.invocations.filter fun v => v.entry.task = task

/-! ### What a call keeps -/

/-- The task is as it was, and so are its invocations. -/
structure SameTask (task : Nat) (s s' : State κ) : Prop where
  heap : s'.heap[task]? = s.heap[task]?
  queue : task ∈ s.tasks → task ∈ s'.tasks
  contexts : ∀ i : Nat, s.contexts[i]? = some ⟨task, false⟩ → s'.contexts[i]? = some ⟨task, false⟩
  invocations : s'.invocationsOf task = s.invocationsOf task

/-- So are the time and what `Dispatch` does. -/
structure Undisturbed (task : Nat) (s s' : State κ) : Prop extends SameTask task s s' where
  now : s'.now = s.now
  control : s'.control = s.control

theorem Undisturbed.refl (task : Nat) (s : State κ) : Undisturbed task s s :=
  ⟨⟨rfl, fun h => h, fun _ h => h, rfl⟩, rfl, rfl⟩

theorem Undisturbed.trans {u : State κ} (h : Undisturbed task s s')
    (h' : Undisturbed task s' u) : Undisturbed task s u where
  heap := h'.heap.trans h.heap
  queue hq := h'.queue (h.queue hq)
  contexts i hi := h'.contexts i (h.contexts i hi)
  invocations := h'.invocations.trans h.invocations
  now := h'.now.trans h.now
  control := h'.control.trans h.control

theorem SameTask.quiet (h : Quiet s s') : SameTask task s s' where
  heap := by rw [h.heap]
  queue hq := by rw [tasks, h.queue]; exact hq
  contexts i hi := by rw [h.contexts]; exact hi
  invocations := by rw [invocationsOf, h.invocations]; rfl

theorem mem_push (s : State κ) (e : Entry) :
    task ∈ (s.push e).tasks ↔ task = e.task ∨ task ∈ s.tasks := by
  have hperm : (s.push e).tasks.Perm (e.task :: s.tasks) :=
    (insertSorted_perm (fun x : Entry => s.endOf x.task) e s.queue).map fun e : Entry => e.task
  rw [hperm.mem_iff, List.mem_cons]

theorem insertTask_undisturbed (s : State κ) (other : Nat) :
    Undisturbed task s (s.insertTask other) :=
  ⟨⟨rfl, fun h => (mem_push s _).mpr (.inr h), fun _ h => h, rfl⟩, rfl, rfl⟩

theorem scheduleAt_undisturbed (s : State κ) (ends time : Int) (group : Option UInt32) (handler : κ)
    (ht : task < s.heap.length) : Undisturbed task s (s.scheduleAt ends time group handler) := by
  have hheap : Undisturbed task s
      { s with heap := s.heap ++ [Task.new (ends + time) time group 0 handler] } :=
    ⟨⟨List.getElem?_append_left ht, fun h => h, fun _ h => h, rfl⟩, rfl, rfl⟩
  exact hheap.trans (insertTask_undisturbed _ _)

theorem removeIf_undisturbed {t : Task κ} (s : State κ) {filter : Task κ → Bool}
    (ht : s.heap[task]? = some t) (hf : filter t = false) :
    Undisturbed task s (s.removeIf filter) := by
  refine ⟨⟨rfl, fun h => ?_, fun _ h => h, rfl⟩, rfl, rfl⟩
  obtain ⟨e, he, rfl⟩ := List.mem_map.mp h
  refine List.mem_map.mpr ⟨e, List.mem_filter.mpr ⟨he, ?_⟩, rfl⟩
  rw [filterOf, ht]
  simp [hf]

theorem cancelGroupsOf_undisturbed {t : Task κ} (groups : List UInt32) : ∀ s : State κ,
    s.heap[task]? = some t → (groups.all fun group => !t.isInGroup group) →
    Undisturbed task s (s.cancelGroupsOf groups) := by
  induction groups with
  | nil => exact fun s _ _ => Undisturbed.refl task s
  | cons g gs ih =>
    intro s ht hg
    rw [List.all_cons, Bool.and_eq_true, Bool.not_eq_true'] at hg
    exact (removeIf_undisturbed s ht hg.1).trans (ih (s.cancelGroup g) ht hg.2)

theorem mem_insertSortedAll {key : Entry → Int} (cache es : List Entry) :
    e ∈ insertSortedAll key cache es ↔ e ∈ cache ∨ e ∈ es := by
  rw [(insertSortedAll_perm key cache es).mem_iff, List.mem_append]

/-- **`ModifyIf`** with a filter that says no to the task. -/
theorem modifyIf_undisturbed {t : Task κ} (s : State κ) {filter : Task κ → Option (Task κ)}
    (hn : s.tasks.Nodup) (ht : s.heap[task]? = some t) (hf : filter t = none) :
    Undisturbed task s (s.modifyIf filter) := by
  obtain ⟨hcache, hleft, -⟩ := modifyLoop_eq filter s.queue s.heap hn
  obtain ⟨-, hget, -, -⟩ := modifyLoop_spec filter s.queue s.heap
  have htaken : ∀ e : Entry, e.task = task → taken filter s.heap e = false := by
    rintro e rfl
    rw [taken, ht]
    simp [hf]
  rw [modifyIf]
  obtain ⟨probes, hpush⟩ := foldl_push_eq (modifyLoop filter s.heap s.queue).2.1
    { s with
      heap := (modifyLoop filter s.heap s.queue).1
      queue := (modifyLoop filter s.heap s.queue).2.2 }
  rw [hpush]
  refine ⟨⟨hget task ?_, fun h => ?_, fun _ h => h, rfl⟩, rfl, rfl⟩
  · rw [hcache]
    intro hmem
    obtain ⟨e, he, heq⟩ := List.mem_map.mp hmem
    rw [List.mem_filter, htaken e heq] at he
    cases he.2
  · obtain ⟨e, he, heq⟩ := List.mem_map.mp h
    refine List.mem_map.mpr ⟨e, (mem_insertSortedAll _ _).mpr (.inr ?_), heq⟩
    rw [hleft, List.mem_filter, htaken e heq]
    exact ⟨he, rfl⟩

theorem modifyTask_undisturbed (s : State κ) {other : Nat} (f : Task κ → Task κ)
    (hne : other ≠ task) : Undisturbed task s (s.modifyTask other f) :=
  ⟨⟨List.getElem?_modify_ne _ _ hne, fun h => h, fun _ h => h, rfl⟩, rfl, rfl⟩

/-- **Every call of the scheduler** that spares the task. -/
theorem apply_undisturbed {t : Task κ} (hn : s.tasks.Nodup) (ht : s.heap[task]? = some t)
    (o : Op κ) (ho : o.spares t) : Undisturbed task s (s.apply o) := by
  have hlt : task < s.heap.length := (List.getElem?_eq_some_iff.mp ht).1
  cases o with
  | async => exact ⟨⟨rfl, fun h => h, fun _ h => h, rfl⟩, rfl, rfl⟩
  | schedule time group handler => exact scheduleAt_undisturbed s s.now time group handler hlt
  | cancelAll => cases ho
  | cancelGroup group => exact removeIf_undisturbed s ht (Bool.not_eq_true' _ ▸ ho)
  | cancelGroupsOf groups => exact cancelGroupsOf_undisturbed groups s ht ho
  | delayAll duration => cases ho
  | delayGroup group duration =>
    exact modifyIf_undisturbed s hn ht (if_neg (by simpa [Op.spares] using ho))
  | rescheduleAll duration => cases ho
  | rescheduleGroup group duration =>
    exact modifyIf_undisturbed s hn ht (if_neg (by simpa [Op.spares] using ho))

theorem repeat_undisturbed {i : Nat} {c : Context} {duration : Option Int}
    (hi : s.contexts[i]? = some c) (hne : c.task ≠ task) (hs : s.repeat_ i c duration = .ok s') :
    Undisturbed task s s' := by
  rw [State.repeat_] at hs
  split at hs <;> cases hs
  have hconsume : Undisturbed task s { s.modifyTask c.task (repeatTask duration) with
      contexts := s.contexts.set i { c with consumed := true } } := by
    have hmodify := modifyTask_undisturbed s (repeatTask duration) hne
    refine ⟨⟨hmodify.heap, hmodify.queue, fun j hj => ?_, rfl⟩, rfl, rfl⟩
    have hij : i ≠ j := by
      rintro rfl
      rw [hi] at hj
      cases hj
      exact hne rfl
    rw [List.getElem?_set_ne hij]
    exact hj
  exact hconsume.trans (insertTask_undisturbed _ _)

/-- **Every call of another task's context** that spares the task. -/
theorem applyContext_undisturbed {t : Task κ} {i : Nat} {c : Context} {o : ContextOp κ}
    (hn : s.tasks.Nodup) (ht : s.heap[task]? = some t) (hi : s.contexts[i]? = some c)
    (hne : c.task ≠ task) (ho : o.spares t) (hs : s.applyContext i c o = .ok s') :
    Undisturbed task s s' := by
  have hlt : task < s.heap.length := (List.getElem?_eq_some_iff.mp ht).1
  cases o with
  | «repeat» duration => exact repeat_undisturbed hi hne hs
  | schedule time group handler =>
    cases hs
    exact scheduleAt_undisturbed s _ time group handler hlt
  | setGroup group => cases hs; exact modifyTask_undisturbed s _ hne
  | clearGroup => cases hs; exact modifyTask_undisturbed s _ hne
  | async => cases hs; exact apply_undisturbed hn ht .async rfl
  | cancelAll => cases ho
  | cancelGroup group => cases hs; exact apply_undisturbed hn ht (.cancelGroup group) ho
  | cancelGroupsOf groups => cases hs; exact apply_undisturbed hn ht (.cancelGroupsOf groups) ho
  | delayAll duration => cases ho
  | delayGroup group duration =>
    cases hs
    exact apply_undisturbed hn ht (.delayGroup group duration) ho
  | rescheduleGroup group duration =>
    cases hs
    exact apply_undisturbed hn ht (.rescheduleGroup group duration) ho

/-! ### The invariant -/

/-- `Dispatch` has nothing more to invoke. -/
def AtRest (s : State κ) : Prop := s.control = .idle ∨ s.control = .finishing

/-- The task waits in the queue for its next end. -/
structure Waits (s : State κ) (task : Nat) (start period : Int) (t : Task κ) : Prop where
  queued : task ∈ s.tasks
  ends : t.ends = start + ((s.invocationsOf task).length + 1) * period
  repeated : t.repeated = UInt32.ofNat (s.invocationsOf task).length

/-- Its callback runs and has not called `Repeat`. -/
structure Runs (s : State κ) (task : Nat) (start period : Int) (t : Task κ) : Prop where
  running : ∃ i, s.control = .task i ∧ s.contexts[i]? = some ⟨task, false⟩
  ends : t.ends = start + (s.invocationsOf task).length * period
  repeated : t.repeated + 1 = UInt32.ofNat (s.invocationsOf task).length

/-- **The invariant**, for a task that was scheduled at the time `start`. -/
structure OnSchedule (task : Nat) (start period : Int) (s : State κ) : Prop where
  /-- The `k`-th invocation, from 0. -/
  invoked : ∀ k v, (s.invocationsOf task)[k]? = some v →
    v.repeated = UInt32.ofNat k ∧ v.ends = start + (k + 1) * period
  place : ∃ t, s.heap[task]? = some t ∧ t.duration = period ∧
    (s.Waits task start period t ∨ s.Runs task start period t)
  reached : start + (s.invocationsOf task).length * period ≤ s.now
  caughtUp : s.AtRest → s.now < start + ((s.invocationsOf task).length + 1) * period

variable {start period : Int}

theorem OnSchedule.frame (h : OnSchedule task start period s) (hs : SameTask task s s')
    (hnow : s.now ≤ s'.now)
    (hrun : ∀ i, s.control = .task i → s.contexts[i]? = some ⟨task, false⟩ → s'.control = .task i)
    (hrest : s'.AtRest → s'.now < start + ((s.invocationsOf task).length + 1) * period) :
    OnSchedule task start period s' := by
  obtain ⟨t, ht, hd, hplace⟩ := h.place
  refine ⟨?_, ⟨t, hs.heap.trans ht, hd, ?_⟩, ?_, ?_⟩
  · rw [hs.invocations]
    exact h.invoked
  · rcases hplace with hw | hr
    · exact .inl ⟨hs.queue hw.queued, by rw [hs.invocations]; exact hw.ends,
        by rw [hs.invocations]; exact hw.repeated⟩
    · obtain ⟨i, hc, hi⟩ := hr.running
      exact .inr ⟨⟨i, hrun i hc hi, hs.contexts i hi⟩, by rw [hs.invocations]; exact hr.ends,
        by rw [hs.invocations]; exact hr.repeated⟩
  · rw [hs.invocations]
    exact Int.le_trans h.reached hnow
  · rw [hs.invocations]
    exact hrest

theorem OnSchedule.undisturbed (h : OnSchedule task start period s) (hu : Undisturbed task s s') :
    OnSchedule task start period s' := by
  refine h.frame hu.toSameTask (Int.le_of_eq hu.now.symm) (fun i hc _ => hu.control.trans hc) ?_
  rw [AtRest, hu.control, hu.now]
  exact h.caughtUp

/-- **`Repeat`** of the task puts it in for one period later. -/
theorem OnSchedule.repeat_ (h : OnSchedule task start period s) (ho : s.Ordered []) {i : Nat}
    {c : Context} {duration : Option Int} (hi : s.contexts[i]? = some c) (hc : c.task = task)
    (hd : ∀ t, s.heap[task]? = some t → duration.getD t.duration = t.duration)
    (hs : s.repeat_ i c duration = .ok s') : OnSchedule task start period s' := by
  rw [State.repeat_] at hs
  split at hs
  · cases hs
  rename_i hopen
  cases hs
  subst hc
  obtain ⟨t, ht, hperiod, hplace⟩ := h.place
  have hmem : c.task ∈ s.openTasks := by
    refine List.mem_map.mpr ⟨c, List.mem_filter.mpr ⟨List.mem_of_getElem? hi, ?_⟩, rfl⟩
    simpa using hopen
  have hrun : s.Runs c.task start period t := by
    refine hplace.resolve_left fun hw => ?_
    have hnodup : (s.tasks ++ s.openTasks).Nodup := ho.nodup
    exact (List.nodup_append.mp hnodup).2.2 _ hw.queued _ hmem rfl
  obtain ⟨j, hcontrol, -⟩ := hrun.running
  refine ⟨h.invoked, ⟨repeatTask duration t, ?_, ?_, .inl ⟨?_, ?_, hrun.repeated⟩⟩, h.reached, ?_⟩
  · show (s.heap.modify c.task (repeatTask duration))[c.task]? = _
    rw [List.getElem?_modify_eq, ht]
    rfl
  · show duration.getD t.duration = period
    rw [hd t ht, hperiod]
  · exact (mem_push _ _).mpr (.inl rfl)
  · show t.ends + duration.getD t.duration = start + ((s.invocationsOf c.task).length + 1) * period
    rw [hd t ht, hperiod, hrun.ends, Int.add_mul, Int.one_mul, Int.add_assoc]
  · rintro (hrest | hrest)
    · exact absurd (hcontrol.symm.trans hrest) (by simp)
    · exact absurd (hcontrol.symm.trans hrest) (by simp)

theorem OnSchedule.waits (h : OnSchedule task start period s)
    (hc : ∀ i, s.control = .task i → s.contexts[i]? ≠ some ⟨task, false⟩) :
    ∃ t, s.heap[task]? = some t ∧ t.duration = period ∧ s.Waits task start period t := by
  obtain ⟨t, ht, hd, hplace⟩ := h.place
  refine ⟨t, ht, hd, hplace.resolve_right fun hr => ?_⟩
  obtain ⟨i, hcontrol, hi⟩ := hr.running
  exact hc i hcontrol hi

/-- **An invocation** of the task. -/
theorem OnSchedule.invoke (h : OnSchedule task start period s) {rest : List Entry}
    (hc : s.control = .looping .tasks) (he : e.task = task) (hdue : s.endOf e.task ≤ s.now) :
    OnSchedule task start period (s.observe.invoke e rest) := by
  subst he
  obtain ⟨t, ht, hd, hw⟩ := h.waits (by simp [hc])
  have hend : s.endOf e.task = t.ends := by rw [endOf, ht]
  have hinvocations : (s.observe.invoke e rest).invocationsOf e.task =
      s.invocationsOf e.task ++ [s.observe.invocation e rest] := by
    show List.filter _ (s.history.invocations ++ [s.observe.invocation e rest]) = _
    rw [List.filter_append]
    simp [State.invocation, invocationsOf]
  have hlen : ((s.observe.invoke e rest).invocationsOf e.task).length =
      (s.invocationsOf e.task).length + 1 := by
    rw [hinvocations, List.length_append]
    rfl
  refine ⟨?_, ⟨t, ht, hd, .inr ⟨⟨s.contexts.length, rfl, ?_⟩, ?_, ?_⟩⟩, ?_, ?_⟩
  · intro k v hv
    rw [hinvocations] at hv
    rcases lt_or_ge k (s.invocationsOf e.task).length with hk | hk
    · rw [List.getElem?_append_left hk] at hv
      exact h.invoked k v hv
    · rw [List.getElem?_append_right hk, List.getElem?_singleton] at hv
      split at hv <;> cases hv
      have hk : k = (s.invocationsOf e.task).length := by omega
      subst hk
      refine ⟨?_, hend.trans hw.ends⟩
      show (s.heap[e.task]?.map (·.repeated)).getD 0 = _
      rw [ht, ← hw.repeated]
      rfl
  · exact List.getElem?_concat_length
  · rw [hlen, hw.ends]
    push_cast
    rfl
  · rw [hlen, hw.repeated, UInt32.ofNat_add]
    rfl
  · rw [hlen]
    push_cast
    rw [← hw.ends, ← hend]
    exact hdue
  · rintro (hrest | hrest) <;> cases hrest

/-- **The head of the loop over the tasks.** -/
theorem OnSchedule.nextTask (h : OnSchedule task start period s) (ho : s.Ordered [])
    (hc : s.control = .looping .tasks) : OnSchedule task start period s.nextTask := by
  have hrun : ∀ i, s.control = .task i → s.contexts[i]? = some ⟨task, false⟩ →
      s.nextTask.control = .task i := by
    intro i hi
    rw [hc] at hi
    cases hi
  have hfinishing := ho.nextTask_finishing
  obtain ⟨t, ht, -, hw⟩ := h.waits (by simp [hc])
  obtain ⟨x, hx, hxtask⟩ := List.mem_map.mp hw.queued
  have hend : s.endOf task = t.ends := by rw [endOf, ht]
  rw [State.nextTask] at hfinishing hrun ⊢
  cases hq : s.queue with
  | nil =>
    rw [hq] at hx
    cases hx
  | cons e rest =>
    rw [hq] at hfinishing hrun
    dsimp only at hfinishing hrun ⊢
    by_cases hnow : s.now < s.endOf e.task
    · rw [if_pos hnow] at hfinishing hrun ⊢
      refine h.frame ⟨rfl, fun h => h, fun _ h => h, rfl⟩ (Int.le_refl _) hrun fun _ => ?_
      have hlt := hfinishing rfl x hx
      rw [hxtask] at hlt
      rw [← hw.ends, ← hend]
      exact hlt
    · rw [if_neg hnow] at hrun ⊢
      by_cases he : e.task = task
      · exact h.invoke hc he (Int.not_lt.mp hnow)
      · refine h.frame ⟨rfl, fun hmem => ?_, fun i hi => ?_, ?_⟩ (Int.le_refl _) hrun ?_
        · rw [tasks, hq, List.map_cons, List.mem_cons] at hmem
          exact hmem.resolve_left fun heq => he heq.symm
        · exact (List.getElem?_append_left (List.getElem?_eq_some_iff.mp hi).1).trans hi
        · show List.filter _ (s.history.invocations ++ [s.observe.invocation e rest]) = _
          rw [List.filter_append]
          simp [State.invocation, invocationsOf, he]
        · rintro (hrest | hrest) <;> cases hrest

end State

open State

variable {s s' : State κ} {a : Act κ} {task : Nat} {start period : Int}

/-! ### Steps -/

theorem State.OnSchedule.quiet (h : OnSchedule task start period s) (hq : Quiet s s')
    (hnow : s.now ≤ s'.now)
    (hrun : ∀ i, s.control = .task i → s.contexts[i]? ≠ some ⟨task, false⟩)
    (hrest : s'.AtRest → s.AtRest ∧ s'.now = s.now) : OnSchedule task start period s' := by
  refine h.frame (SameTask.quiet hq) hnow (fun i hc hi => absurd hi (hrun i hc)) fun hr => ?_
  obtain ⟨hr, heq⟩ := hrest hr
  rw [heq]
  exact h.caughtUp hr

theorem State.OnSchedule.contextOp (h : OnSchedule task start period s) (ho : s.Ordered [])
    {i : Nat} {o : ContextOp κ} {c : Context} (hi : s.contexts[i]? = some c)
    (hc : spares task s (.contextOp i o)) (hs : s.applyContext i c o = .ok s') :
    OnSchedule task start period s' := by
  obtain ⟨t, ht, -⟩ := h.place
  rw [spares, hi, ht] at hc
  by_cases hctask : c.task = task
  · cases o with
    | «repeat» duration =>
      refine h.repeat_ ho hi hctask (fun t' ht' => ?_) hs
      rw [ht] at ht'
      cases ht'
      simpa [hctask, ContextOp.isRepeat] using hc
    | _ => simp [hctask, ContextOp.isRepeat] at hc
  · have hspares : o.spares t := by simpa [hctask] using hc
    exact h.undisturbed (applyContext_undisturbed ho.queue_nodup ht hi hctask hspares hs)

/-- **A step that spares the task** keeps it on its schedule. -/
theorem State.OnSchedule.step (h : OnSchedule task start period s) (ho : s.Ordered [])
    (hc : spares task s a) (hs : TaskScheduler.step s a = .ok s') :
    OnSchedule task start period s' := by
  cases steps_of_step hs with
  | update difftime hcontrol =>
    refine h.quiet ⟨rfl, rfl, rfl, rfl, rfl, rfl, rfl⟩
      (Int.le_add_of_nonneg_right (of_decide_eq_true hc)) (by simp [hcontrol]) ?_
    rintro (hrest | hrest) <;> cases hrest
  | validate loop result hcontrol =>
    have hresult : result = true := hc
    subst hresult
    refine h.quiet ⟨rfl, rfl, rfl, rfl, rfl, rfl, rfl⟩ (Int.le_refl _) (by simp [hcontrol]) ?_
    rintro (hrest | hrest) <;> cases hrest
  | nextAsync hcontrol =>
    rw [State.nextAsync]
    cases s.asyncHolder with
    | nil =>
      refine h.quiet ⟨rfl, rfl, rfl, rfl, rfl, rfl, rfl⟩ (Int.le_refl _) (by simp [hcontrol]) ?_
      rintro (hrest | hrest) <;> cases hrest
    | cons callable rest =>
      refine h.quiet ⟨rfl, rfl, rfl, rfl, rfl, rfl, rfl⟩ (Int.le_refl _) (by simp [hcontrol]) ?_
      rintro (hrest | hrest) <;> cases hrest
  | nextTask hcontrol => exact h.nextTask ho hcontrol
  | op o =>
    obtain ⟨t, ht, -⟩ := h.place
    rw [spares, ht] at hc
    exact h.undisturbed (apply_undisturbed ho.queue_nodup ht o hc)
  | contextOp i o c hi hs => exact h.contextOp ho hi hc hs
  | popAsync callable cancelled front rest hcontrol =>
    refine h.quiet ⟨rfl, rfl, rfl, rfl, rfl, rfl, rfl⟩ (Int.le_refl _) (by simp [hcontrol]) ?_
    rintro (hrest | hrest) <;> cases hrest
  | taskReturns i hcontrol =>
    rw [spares, hcontrol] at hc
    have hi : s.contexts[i]? ≠ some ⟨task, false⟩ := of_decide_eq_true hc
    refine h.quiet ⟨rfl, rfl, rfl, rfl, rfl, rfl, rfl⟩ (Int.le_refl _) ?_ ?_
    · intro j hj
      rw [hcontrol] at hj
      cases hj
      exact hi
    · rintro (hrest | hrest) <;> cases hrest
  | finished hcontrol =>
    exact h.quiet ⟨rfl, rfl, rfl, rfl, rfl, rfl, rfl⟩ (Int.le_refl _) (by simp [hcontrol])
      fun _ => ⟨.inr hcontrol, rfl⟩
  | ignored => exact h

/-! ### Runs -/

/-- The tasks that were invoked exist. -/
def State.InvokedExist (s : State κ) : Prop :=
  ∀ v ∈ s.history.invocations, v.entry.task < s.heap.length

theorem State.InvokedExist.mono (h : s.InvokedExist)
    (hv : s'.history.invocations = s.history.invocations)
    (hh : s.heap.length ≤ s'.heap.length) : s'.InvokedExist := by
  intro v hmem
  rw [hv] at hmem
  exact Nat.lt_of_lt_of_le (h v hmem) hh

theorem invokedExist_keeps : Keeps fun s : State κ => s.Ordered [] ∧ s.InvokedExist where
  quiet _ _ hq h := ⟨ordered_keeps.quiet _ _ hq h.1, h.2.mono hq.invocations (by rw [hq.heap])⟩
  scheduleAt _ ends time group handler h := by
    refine ⟨h.1.scheduleAt ends time group handler, h.2.mono rfl ?_⟩
    exact Nat.le_trans (Nat.le_add_right _ _) (Nat.le_of_eq List.length_append.symm)
  clear s h := ⟨ordered_keeps.clear s h.1, h.2.mono rfl (Nat.le_refl _)⟩
  removeIf s filter h := ⟨ordered_keeps.removeIf s filter h.1, h.2.mono rfl (Nat.le_refl _)⟩
  modifyIf s filter h := by
    refine ⟨h.1.modifyIf filter, ?_⟩
    obtain ⟨hlen, -⟩ := modifyLoop_spec filter s.queue s.heap
    rw [State.modifyIf]
    obtain ⟨probes, hpush⟩ := foldl_push_eq (modifyLoop filter s.heap s.queue).2.1
      { s with
        heap := (modifyLoop filter s.heap s.queue).1
        queue := (modifyLoop filter s.heap s.queue).2.2 }
    rw [hpush]
    exact h.2.mono rfl (Nat.le_of_eq hlen.symm)
  setGroup s task group h := ⟨ordered_keeps.setGroup s task group h.1,
    h.2.mono rfl (Nat.le_of_eq (List.length_modify ..).symm)⟩
  repeat_ _ _ _ duration _ h hi hr := by
    refine ⟨h.1.repeat_ hi duration hr, ?_⟩
    rw [State.repeat_] at hr
    split at hr <;> cases hr
    exact h.2.mono rfl (Nat.le_of_eq (List.length_modify ..).symm)
  nextTask s h := by
    refine ⟨h.1.nextTask, ?_⟩
    rw [State.nextTask]
    cases hq : s.queue with
    | nil => exact h.2.mono rfl (Nat.le_refl _)
    | cons e rest =>
      dsimp only
      split
      · exact h.2.mono rfl (Nat.le_refl _)
      · intro v hv
        rcases List.mem_append.mp hv with hv | hv
        · exact h.2 v hv
        · rw [List.mem_singleton.mp hv]
          have hmem : e ∈ s.queue := by rw [hq]; exact List.mem_cons_self
          exact h.1.mem_allocated hmem

theorem run_invokedExist {now : Int} {acts : List (Act κ)}
    (h : run TaskScheduler.step (new now) acts = .ok s) : s.InvokedExist := by
  refine (invokedExist_keeps.run ⟨new_ordered now, ?_⟩ h).2
  intro v hv
  cases hv

/-- **A new task** is on its schedule. -/
theorem State.OnSchedule.new (hv : s.InvokedExist) (hp : 0 < period) (group : Option UInt32)
    (handler : κ) :
    OnSchedule s.heap.length s.now period (s.scheduleAt s.now period group handler) := by
  have hinvocations :
      (s.scheduleAt s.now period group handler).invocationsOf s.heap.length = [] := by
    rw [invocationsOf, List.filter_eq_nil_iff]
    intro v hmem heq
    exact Nat.ne_of_lt (hv v hmem) (of_decide_eq_true heq)
  refine ⟨?_, ⟨Task.new (s.now + period) period group 0 handler, ?_, rfl, .inl ⟨?_, ?_, ?_⟩⟩, ?_,
    fun _ => ?_⟩
  · rw [hinvocations]
    intro k v hv
    cases hv
  · exact List.getElem?_concat_length
  · exact (mem_push _ _).mpr (.inl rfl)
  · rw [hinvocations]
    show s.now + period = s.now + ((0 : Nat) + 1) * period
    omega
  · rw [hinvocations]
    rfl
  · rw [hinvocations]
    show s.now + (0 : Nat) * period ≤ s.now
    omega
  · rw [hinvocations]
    show s.now < s.now + ((0 : Nat) + 1) * period
    omega

/-- The task has kept to its schedule. -/
structure State.NoDrift (task : Nat) (start period : Int) (s : State κ) : Prop where
  /-- What `GetRepeatCounter` says in the `k`-th invocation, from 0. -/
  counters : ∀ k v, (s.invocationsOf task)[k]? = some v → v.repeated = UInt32.ofNat k
  count : s.AtRest → ((s.invocationsOf task).length : Int) = (s.now - start) / period
  queued : s.AtRest → task ∈ s.tasks
  ends : s.AtRest → s.endOf task = start + ((s.invocationsOf task).length + 1) * period

theorem State.OnSchedule.noDrift (h : OnSchedule task start period s) (hp : 0 < period) :
    s.NoDrift task start period := by
  have hwaits : s.AtRest → ∃ t, s.heap[task]? = some t ∧ t.duration = period ∧
      s.Waits task start period t := by
    rintro (hc | hc) <;> exact h.waits (by simp [hc])
  refine ⟨fun k v hv => (h.invoked k v hv).1, fun hrest => ?_, fun hrest => ?_, fun hrest => ?_⟩
  · have hreached := h.reached
    have hcaught := h.caughtUp hrest
    rw [Int.add_mul, Int.one_mul] at hcaught
    exact ((Int.ediv_eq_iff_of_pos hp).mpr ⟨by omega, by omega⟩).symm
  · obtain ⟨t, -, -, hw⟩ := hwaits hrest
    exact hw.queued
  · obtain ⟨t, ht, -, hw⟩ := hwaits hrest
    rw [endOf, ht]
    exact hw.ends

/-- **Repeating tasks do not drift.**  A task with a period above 0 is scheduled at any point of any
run.  In every run from there whose steps spare it, after each `Update` it has been invoked
`(now - start) / period` times, its next end is one period after the last one, counted from the
start, and its `k`-th invocation has seen the counter `k` modulo 2^32. -/
theorem repeats_spec {now : Int} {acts acts' : List (Act κ)} {handler : κ} {group : Option UInt32}
    (hrun : run step (new now) acts = .ok s) (hp : 0 < period)
    (hspares : Each step (fun t a => spares s.heap.length t a)
      (s.apply (.schedule period group handler)) acts') :
    ∀ t, Visits step (s.apply (.schedule period group handler)) acts' t →
      t.NoDrift s.heap.length s.now period := by
  intro t ht
  have hstart : (s.apply (.schedule period group handler)).Ordered [] ∧
      OnSchedule s.heap.length s.now period (s.apply (.schedule period group handler)) :=
    ⟨(run_ordered hrun).scheduleAt s.now period group handler,
      OnSchedule.new (run_invokedExist hrun) hp group handler⟩
  have hall := visits_invariant
    (I := fun t => t.Ordered [] ∧ OnSchedule s.heap.length s.now period t)
    (fun _ _ _ h hc hs => ⟨ordered_keeps.step h.1 hs, h.2.step h.1 hc hs⟩)
    acts' _ hstart hspares t ht
  exact hall.2.noDrift hp

/-- Two periods of 3 in one `Update`, and a task with a delay between them. -/
theorem repeats_spec_three : ∃ t : State Unit,
    run step ((new 0 : State Unit).apply (.schedule 3 none ())) [.op (.schedule 4 (some 8) ()),
      .op (.delayGroup 8 1), .update 7, .validate true, .next, .next, .contextOp 0 (.repeat none),
      .returns, .validate true, .next, .returns, .validate true, .next,
      .contextOp 2 (.repeat none), .returns, .validate true, .next, .returns] = .ok t ∧
    (t.control = .idle ∧ t.history.invocations.map (fun v => v.entry.task) = [0, 1, 0] ∧
      (t.invocationsOf 0).map (fun v => v.repeated) = [0, 1] ∧ t.endOf 0 = 9) ∧
    t.NoDrift 0 0 3 := by
  obtain ⟨t, ht, hp⟩ := ok_of_any (x := run step
      ((new 0 : State Unit).apply (.schedule 3 none ())) [.op (.schedule 4 (some 8) ()),
      .op (.delayGroup 8 1), .update 7, .validate true, .next, .next, .contextOp 0 (.repeat none),
      .returns, .validate true, .next, .returns, .validate true, .next,
      .contextOp 2 (.repeat none), .returns, .validate true, .next, .returns])
    (p := fun t => t.control = .idle ∧
      t.history.invocations.map (fun v => v.entry.task) = [0, 1, 0] ∧
      (t.invocationsOf 0).map (fun v => v.repeated) = [0, 1] ∧ t.endOf 0 = 9) (by decide)
  have hrun : run step (new 0 : State Unit) [] = .ok (new 0) := rfl
  have hpos : (0 : Int) < 3 := by decide
  exact ⟨t, ht, of_decide_eq_true hp,
    repeats_spec hrun hpos (each_of_meets _ _ (by decide)) t (visits_of_run ht)⟩

end TaskScheduler

end WarheadDiscord
