import WarheadDiscord.Common.CatchUp
import WarheadDiscord.Common.ModifyIf
import WarheadDiscord.Common.TaskConservation

/-!
# When an `Update` returns

`Dispatch` goes on until no task is due.  What a callback schedules or repeats is due in the
same `Update` when its end is not behind the time, so the loop need not end: it does not for a
task that repeats itself with the duration zero.

* `Program.Forward`: the callbacks put nothing at or before the end of their own task.
* `Program.Stays`: they repeat it there, and move no other task.
* `Ahead`: how many tasks have the least end.  `Ahead.turn`: a turn takes one of them away.
* `Within.contextOp`: no call of a callback brings one back.
* `dispatchTasks_ends`, `dispatchTasks_spins`: so the loop ends, or not.
* `updateBy_returns`: both, of every reachable state.
-/

namespace WarheadDiscord

open Lib

namespace TaskScheduler

open State

variable {κ : Type}

/-- A call by the callback of `t` that makes nothing due at its end or earlier. -/
def ContextOp.Forward (t : Task κ) : ContextOp κ → Prop
  | .repeat duration => 0 < duration.getD t.duration
  | .schedule time _ _ => 0 < time
  | .delayAll duration => 0 ≤ duration
  | .delayGroup _ duration => 0 ≤ duration
  | .rescheduleGroup _ duration => 0 < duration
  | _ => True

def ContextOp.repeats : ContextOp κ → Bool
  | .repeat _ => true
  | _ => false

/-- The callbacks put nothing at the end of their task or before it, and repeat it at most
once. -/
structure Program.Forward (P : Program κ) : Prop where
  calls : ∀ t, ∀ o ∈ P t, o.Forward t
  once : ∀ t, (P t).countP (·.repeats) ≤ 1

/-- A change that puts no task at the time `m`, if that is not in the future. -/
def TaskChange.Forward : TaskChange → Prop
  | .delayAll duration => 0 ≤ duration
  | .delayGroup _ duration => 0 ≤ duration
  | .rescheduleAll duration => 0 < duration
  | .rescheduleGroup _ duration => 0 < duration

theorem TaskChange.Forward.newEnd {c : TaskChange} {m now ends : Int} (h : c.Forward)
    (hn : m ≤ now) (he : m ≤ ends) : c.newEnd now ends = ends ∨ m < c.newEnd now ends := by
  cases c <;> simp only [TaskChange.Forward, TaskChange.newEnd] at * <;> omega

namespace State

variable {s s' : State κ} {e : Entry} {rest : List Entry} {m : Int} {n : Nat}

/-! ### The ends of the queue -/

/-- The ends of the tasks in the queue. -/
def ends (s : State κ) : List Int := s.queue.map fun e => s.endOf e.task

/-- No task of the queue ends before `m`, and at most `n` of them end at it. -/
structure Ahead (m : Int) (n : Nat) (s : State κ) : Prop where
  le : ∀ x ∈ s.ends, m ≤ x
  count : s.ends.count m ≤ n

/-- **What adds no task at `m`**: some tasks are left, with their ends or with ends behind `m`,
and others come that end behind `m`. -/
theorem Ahead.change {l : List Entry} {g : Entry → Int} {more : List Int} (h : s.Ahead m n)
    (hl : l.Sublist s.queue) (hg : ∀ e ∈ l, g e = s.endOf e.task ∨ m < g e)
    (hmore : ∀ x ∈ more, m < x) (hp : s'.ends.Perm (more ++ l.map g)) : s'.Ahead m n := by
  refine ⟨fun x hx => ?_, ?_⟩
  · rcases List.mem_append.mp (hp.mem_iff.mp hx) with hx | hx
    · exact Int.le_of_lt (hmore x hx)
    · obtain ⟨e, he, rfl⟩ := List.mem_map.mp hx
      rcases hg e he with hsame | hlt
      · rw [hsame]
        exact h.le _ (List.mem_map_of_mem (hl.subset he))
      · exact Int.le_of_lt hlt
  · have hnone : more.count m = 0 :=
      List.count_eq_zero_of_not_mem fun hm => Int.lt_irrefl m (hmore m hm)
    have hleft : (l.map g).count m ≤ (l.map fun e => s.endOf e.task).count m := by
      rw [List.count_eq_countP, List.count_eq_countP, List.countP_map, List.countP_map]
      refine List.countP_mono_left fun e he heq => ?_
      have heq : g e = m := by simpa using heq
      rcases hg e he with hsame | hlt
      · simp [← hsame, heq]
      · omega
    rw [hp.count_eq, List.count_append, hnone, Nat.zero_add]
    exact hleft.trans (((hl.map _).count_le m).trans h.count)

theorem Ahead.keep {l : List Entry} {g : Entry → Int} (h : s.Ahead m n)
    (hl : l.Sublist s.queue) (hg : ∀ e ∈ l, g e = s.endOf e.task ∨ m < g e)
    (hp : s'.ends.Perm (l.map g)) : s'.Ahead m n :=
  have hnone : ∀ x ∈ ([] : List Int), m < x := fun _ hx => absurd hx List.not_mem_nil
  h.change hl hg hnone hp

theorem Ahead.sublist (h : s.Ahead m n) (hq : s'.queue.Sublist s.queue)
    (he : ∀ e ∈ s'.queue, s'.endOf e.task = s.endOf e.task) : s'.Ahead m n :=
  h.keep (g := fun e => s'.endOf e.task) hq (fun e hmem => .inl (he e hmem)) (List.Perm.refl _)

theorem ends_insertTask (s : State κ) (task : Nat) :
    (s.insertTask task).ends.Perm ([s.endOf task] ++ s.queue.map fun e => s.endOf e.task) :=
  (insertSorted_perm _ _ s.queue).map fun e : Entry => s.endOf e.task

theorem Ahead.insertTask {u : State κ} {task : Nat} (h : s.Ahead m n) (hq : u.queue = s.queue)
    (he : ∀ e ∈ s.queue, u.endOf e.task = s.endOf e.task) (hm : m < u.endOf task) :
    (u.insertTask task).Ahead m n := by
  have hp := ends_insertTask u task
  rw [hq] at hp
  refine h.change (List.Sublist.refl _) (fun e hmem => .inl (he e hmem)) (fun x hx => ?_) hp
  rw [List.mem_singleton.mp hx]
  exact hm

/-- **A change of the ends**, as `ModifyIf` does it. -/
theorem Ahead.taskChange {c : TaskChange} (h : s.Ahead m n) (hs : s.Sound) (hc : c.Forward)
    (hn : m ≤ s.now) : (s.apply c.op).Ahead m n := by
  have happ := c.apply_spec hs
  generalize s.apply c.op = s' at happ
  have hends : s'.ends.Perm (s.queue.map fun e => s'.endOf e.task) := by
    have hp := happ.queued.map s'.endOf
    rw [List.map_map, List.map_map] at hp
    exact hp
  refine h.keep (List.Sublist.refl _) (fun e he => ?_) hends
  obtain ⟨t, ht⟩ : ∃ t, s.heap[e.task]? = some t :=
    ⟨_, List.getElem?_eq_getElem (hs.allocated e he)⟩
  have hend : s.endOf e.task = t.ends := by rw [endOf, ht]
  have hle := h.le _ (List.mem_map_of_mem he)
  have hnew := happ.tasks e.task
  rw [ht, Option.map_some] at hnew
  rw [hend] at hle ⊢
  rw [endOf, hnew]
  dsimp only
  split
  · exact hc.newEnd hn hle
  · exact .inl rfl

/-! ### A callback -/

/-- The callback of the task `task`, which was `t` when it was invoked, runs with the context `i`;
`consumed` tells whether it has repeated its task. -/
structure Within (now : Int) (t : Task κ) (task i n : Nat) (consumed : Bool) (s : State κ) :
    Prop where
  ordered : s.Ordered []
  now_eq : s.now = now
  control : s.control = .task i
  context : s.contexts[i]? = some ⟨task, consumed⟩
  task : ∃ u, s.heap[task]? = some u ∧ t.ends ≤ u.ends ∧
    (consumed = false → u.duration = t.duration)
  ahead : s.Ahead t.ends n

variable {now : Int} {t : Task κ} {task i : Nat} {consumed : Bool} {o : ContextOp κ}

theorem Ordered.not_queued (h : s.Ordered []) (hi : s.contexts[i]? = some ⟨task, false⟩) :
    ∀ e ∈ s.queue, task ≠ e.task := by
  rintro e he rfl
  have hopen : e.task ∈ s.openTasks :=
    List.mem_map.mpr ⟨_, List.mem_filter.mpr ⟨List.mem_of_getElem? hi, rfl⟩, rfl⟩
  have hnodup : (s.queue.map (fun e => e.task) ++ s.openTasks).Nodup := h.nodup
  exact (List.nodup_append.mp hnodup).2.2 _ (List.mem_map_of_mem he) _ hopen rfl

theorem Within.repeat_ (h : Within now t task i n false s) {duration : Option Int}
    (hd : 0 < duration.getD t.duration) :
    ∃ s', s.repeat_ i ⟨task, false⟩ duration = .ok s' ∧ Within now t task i n true s' := by
  obtain ⟨u, hu, hends, hduration⟩ := h.task
  refine ⟨_, rfl, h.ordered.repeat_ h.context duration rfl, h.now_eq, h.control, ?_, ?_, ?_⟩
  · exact List.getElem?_set_self (List.getElem?_eq_some_iff.mp h.context).1
  · refine ⟨repeatTask duration u, ?_, ?_, fun hc => by cases hc⟩
    · show (s.heap.modify task (repeatTask duration))[task]? = _
      rw [List.getElem?_modify_eq, hu]
      rfl
    · show t.ends ≤ u.ends + duration.getD u.duration
      rw [hduration rfl]
      omega
  · refine h.ahead.insertTask rfl (fun e he => ?_) ?_
    · exact endOf_modifyTask (repeatTask duration) (.inl (h.ordered.not_queued h.context e he))
    · show t.ends < State.endOf (s.modifyTask task (repeatTask duration)) task
      rw [endOf, modifyTask, List.getElem?_modify_eq, hu]
      show t.ends < u.ends + duration.getD u.duration
      rw [hduration rfl]
      omega

theorem Within.scheduleAt (h : Within now t task i n consumed s) {time : Int} (ht : 0 < time)
    (group : Option UInt32) (handler : κ) :
    Within now t task i n consumed (s.scheduleAt (s.endOf task) time group handler) := by
  obtain ⟨u, hu, hends, hduration⟩ := h.task
  have hlt : task < s.heap.length := (List.getElem?_eq_some_iff.mp hu).1
  refine ⟨h.ordered.scheduleAt _ time group handler, h.now_eq, h.control, h.context,
    ⟨u, (List.getElem?_append_left hlt).trans hu, hends, hduration⟩, ?_⟩
  refine h.ahead.insertTask rfl (fun e he => ?_) ?_
  · rw [endOf, endOf, List.getElem?_append_left (h.ordered.mem_allocated he)]
    rfl
  · rw [endOf, List.getElem?_concat_length]
    show t.ends < s.endOf task + time
    rw [endOf, hu]
    dsimp only
    omega

theorem Within.removeIf (h : Within now t task i n consumed s) (filter : Task κ → Bool) :
    Within now t task i n consumed (s.removeIf filter) :=
  ⟨ordered_keeps.removeIf s filter h.ordered, h.now_eq, h.control, h.context, h.task,
    h.ahead.sublist List.filter_sublist fun _ _ => rfl⟩

theorem Within.setGroup (h : Within now t task i n consumed s) (group : Option UInt32) :
    Within now t task i n consumed (s.modifyTask task fun t => { t with group := group }) := by
  obtain ⟨u, hu, hends, hduration⟩ := h.task
  refine ⟨ordered_keeps.setGroup s task group h.ordered, h.now_eq, h.control, h.context,
    ⟨{ u with group := group }, ?_, hends, hduration⟩, ?_⟩
  · rw [modifyTask, List.getElem?_modify_eq, hu]
    rfl
  · exact h.ahead.sublist (List.Sublist.refl _) fun _ _ => endOf_modifyTask _ (.inr fun _ => rfl)

theorem Within.taskChange (h : Within now t task i n consumed s) (hn : t.ends ≤ now)
    {c : TaskChange} (hc : c.Forward) : Within now t task i n consumed (s.apply c.op) := by
  obtain ⟨u, hu, hends, hduration⟩ := h.task
  have hnow : t.ends ≤ s.now := by rw [h.now_eq]; exact hn
  have happ := c.apply_spec h.ordered.sound
  have hordered : (s.apply c.op).Ordered [] := ordered_keeps.apply h.ordered _
  have hahead := h.ahead.taskChange h.ordered.sound hc hnow
  generalize s.apply c.op = s' at happ hordered hahead
  have htask := happ.tasks task
  obtain ⟨-, -, -, -, hothers⟩ := happ
  refine ⟨hordered, ?_, ?_, ?_, ⟨_, htask.trans (by rw [hu]; rfl), ?_, ?_⟩, hahead⟩
  · rw [hothers]; exact h.now_eq
  · rw [hothers]; exact h.control
  · rw [hothers]; exact h.context
  · dsimp only
    split
    · rcases hc.newEnd hnow hends with hsame | hlt
      · rw [hsame]; exact hends
      · exact Int.le_of_lt hlt
    · exact hends
  · dsimp only
    split <;> exact hduration

/-- **A call of a callback** returns, and brings nothing to the end of its task. -/
theorem Within.contextOp (h : Within now t task i n consumed s) (hn : t.ends ≤ now)
    (ho : o.Forward t) (hr : o.repeats = true → consumed = false) :
    ∃ s', step s (.contextOp i o) = .ok s' ∧
      Within now t task i n (consumed || o.repeats) s' := by
  -- All but `Repeat` leave the context as it is.
  have hsame : o.repeats = false → ∀ {s' : State κ}, Within now t task i n consumed s' →
      Within now t task i n (consumed || o.repeats) s' := by
    intro hno s' h'
    rw [hno, Bool.or_false]
    exact h'
  rw [step, h.context]
  dsimp only
  cases o with
  | «repeat» duration =>
    obtain rfl := hr rfl
    exact h.repeat_ ho
  | schedule time group handler => exact ⟨_, rfl, hsame rfl (h.scheduleAt ho group handler)⟩
  | setGroup group => exact ⟨_, rfl, hsame rfl (h.setGroup _)⟩
  | clearGroup => exact ⟨_, rfl, hsame rfl (h.setGroup _)⟩
  | async =>
    refine ⟨_, rfl, hsame rfl ?_⟩
    exact ⟨ordered_keeps.async h.ordered, h.now_eq, h.control, h.context, h.task,
      h.ahead.sublist (List.Sublist.refl _) fun _ _ => rfl⟩
  | cancelAll =>
    refine ⟨_, rfl, hsame rfl ?_⟩
    refine ⟨ordered_keeps.cancelAll h.ordered, h.now_eq, ?_, h.context, h.task,
      h.ahead.sublist (List.nil_sublist _) fun _ he => absurd he List.not_mem_nil⟩
    show s.control.afterCancel = .task i
    rw [h.control]
    rfl
  | cancelGroup group => exact ⟨_, rfl, hsame rfl (h.removeIf _)⟩
  | cancelGroupsOf groups =>
    refine ⟨_, rfl, hsame rfl ?_⟩
    exact cancelGroupsOf_keeps (fun _ filter h => h.removeIf filter) groups s h
  | delayAll duration =>
    exact ⟨_, rfl, hsame rfl (h.taskChange hn (c := .delayAll duration) ho)⟩
  | delayGroup group duration =>
    exact ⟨_, rfl, hsame rfl (h.taskChange hn (c := .delayGroup group duration) ho)⟩
  | rescheduleGroup group duration =>
    exact ⟨_, rfl, hsame rfl (h.taskChange hn (c := .rescheduleGroup group duration) ho)⟩

theorem Within.contextOps (hn : t.ends ≤ now) : ∀ (ops : List (ContextOp κ)) (s : State κ)
    (consumed : Bool), Within now t task i n consumed s → (∀ o ∈ ops, o.Forward t) →
    ops.countP (·.repeats) ≤ (if consumed then 0 else 1) →
    ∃ s' consumed', run step s (ops.map (.contextOp i)) = .ok s' ∧
      Within now t task i n consumed' s' := by
  intro ops
  induction ops with
  | nil => intro s consumed h _ _; exact ⟨s, consumed, rfl, h⟩
  | cons o ops ih =>
    intro s consumed h ho hcount
    rw [List.countP_cons] at hcount
    obtain ⟨s₁, hs₁, h₁⟩ := h.contextOp hn (ho o List.mem_cons_self) fun hr => by
      cases consumed with
      | false => rfl
      | true => rw [hr] at hcount; simp at hcount
    have hrest : ops.countP (·.repeats) ≤ (if (consumed || o.repeats) then 0 else 1) := by
      cases consumed <;> cases hr : o.repeats <;> rw [hr] at hcount <;> simp at hcount ⊢ <;> omega
    obtain ⟨s', consumed', hs', h'⟩ :=
      ih s₁ _ h₁ (fun o' ho' => ho o' (List.mem_cons_of_mem o ho')) hrest
    exact ⟨s', consumed', by rw [List.map_cons, run_cons_of_ok hs₁]; exact hs', h'⟩

/-! ### A turn of the loop -/

theorem Ordered.head_le (h : s.Ordered []) (hq : s.queue = e :: rest) :
    ∀ x ∈ s.ends, s.endOf e.task ≤ x := by
  intro x hx
  have hhead := List.pairwise_cons.mp (hq ▸ h.sorted)
  rw [ends, hq, List.map_cons] at hx
  rcases List.mem_cons.mp hx with rfl | hx
  · exact Int.le_refl _
  · obtain ⟨y, hy, rfl⟩ := List.mem_map.mp hx
    exact (hhead.1 y hy).1

theorem Ordered.exists_task (h : s.Ordered []) (hq : s.queue = e :: rest) :
    ∃ t, s.heap[e.task]? = some t ∧ t.ends = s.endOf e.task := by
  have hlt : e.task < s.heap.length := h.mem_allocated (by simp [hq])
  exact ⟨_, List.getElem?_eq_getElem hlt, by rw [endOf, List.getElem?_eq_getElem hlt]⟩

theorem callback_invoke (P : Program κ) {t : Task κ} (ht : s.heap[e.task]? = some t) :
    TaskScheduler.callback P (s.observe.invoke e rest) s.contexts.length =
      (P t).map (.contextOp s.contexts.length) ++ [Act.returns, .validate true] := by
  have hcontext : (s.observe.invoke e rest).contexts[s.contexts.length]? = some ⟨e.task, false⟩ :=
    List.getElem?_concat_length
  have htask : (s.observe.invoke e rest).heap[e.task]? = some t := ht
  rw [TaskScheduler.callback, hcontext, Option.bind_some, htask]

/-- `Pop` takes one of the tasks that have the least end, and its callback is invoked. -/
theorem Within.invoke (h : s.Ordered []) (hd : s.Due e rest)
    (ha : s.Ahead (s.endOf e.task) (n + 1)) :
    ∃ t, s.heap[e.task]? = some t ∧ t.ends = s.endOf e.task ∧
      Within s.now t e.task s.contexts.length n false (s.observe.invoke e rest) := by
  obtain ⟨t, ht, hend⟩ := h.exists_task hd.1
  have hends : s.ends = s.endOf e.task :: rest.map fun x => s.endOf x.task := by
    rw [ends, hd.1, List.map_cons]
  refine ⟨t, ht, hend, h.invoke hd.1, rfl, rfl, List.getElem?_concat_length,
    ⟨t, ht, Int.le_refl _, fun _ => rfl⟩, ?_, ?_⟩
  · intro x hx
    rw [hend]
    refine h.head_le hd.1 x ?_
    rw [hends]
    exact List.mem_cons_of_mem _ hx
  · have hcount := ha.count
    rw [hends, List.count_cons_self] at hcount
    rw [hend]
    exact Nat.le_of_succ_le_succ hcount

/-- **One turn**: one task less has the least end. -/
theorem Ahead.turn {P : Program κ} (hP : P.Forward) (h : s.Ordered []) (hd : s.Due e rest)
    (ha : s.Ahead (s.endOf e.task) (n + 1)) :
    ∃ s', run step (s.observe.invoke e rest)
        (TaskScheduler.callback P (s.observe.invoke e rest) s.contexts.length) = .ok s' ∧
      s'.Ordered [] ∧ s'.control = .looping .tasks ∧ s'.now = s.now ∧
      s'.Ahead (s.endOf e.task) n := by
  obtain ⟨t, ht, hend, hw⟩ := Within.invoke h hd ha
  have hn : t.ends ≤ s.now := by rw [hend]; exact hd.2
  obtain ⟨s₁, consumed, hs₁, h₁⟩ :=
    Within.contextOps hn (P t) _ _ hw (hP.calls t) (hP.once t)
  refine ⟨{ s₁ with control := .looping .tasks }, ?_, ?_, rfl, h₁.now_eq, ?_⟩
  · rw [callback_invoke P ht, run_append_of_ok hs₁, run_returns h₁.control]
  · exact h₁.ordered.quiet ⟨rfl, rfl, rfl, rfl, rfl, rfl, rfl⟩
  · rw [← hend]
    exact h₁.ahead.sublist (List.Sublist.refl _) fun _ _ => rfl

/-- When no task has the least end any more, the least end is a later one. -/
theorem Ahead.later (h : s.Ahead m n) (hm : m ∉ s.ends) :
    s.Ahead (m + 1) (s.ends.count (m + 1)) := by
  refine ⟨fun x hx => ?_, Nat.le_refl _⟩
  have hle := h.le x hx
  have hne : x ≠ m := fun heq => hm (heq ▸ hx)
  omega

theorem Ordered.exists_ahead (h : s.Ordered []) : ∃ m n, s.Ahead m n := by
  cases hq : s.queue with
  | nil =>
    refine ⟨0, 0, ?_, ?_⟩ <;> rw [ends, hq]
    · exact fun x hx => absurd hx List.not_mem_nil
    · exact Nat.le_refl _
  | cons e rest => exact ⟨_, _, h.head_le hq, Nat.le_refl _⟩

end State

open State

variable {s s' : State κ} {P : Program κ}

/-! ### The loop ends -/

/-- The loop over the tasks ends, and nothing that is left is due. -/
def State.LoopEnds (P : Program κ) (s : State κ) : Prop :=
  ∃ fuel s', dispatchTasks P fuel s = .ok (some s') ∧ s'.control = .finishing ∧
    ∀ e ∈ s'.queue, s'.now < s'.endOf e.task

theorem loopEnds_of_not_due (h : s.Ordered []) (hc : s.control = .looping .tasks)
    (hd : ∀ e rest, ¬ s.Due e rest) : s.LoopEnds P := by
  have hf : s.nextTask.control = .finishing := by
    obtain ⟨probes, hn⟩ := nextTask_of_not_due hd
    rw [hn]
  exact ⟨1, s.nextTask, dispatchTasks_of_not_due hc hd 0, hf, h.nextTask_finishing hf⟩

/-- **The loop ends.**  The outer induction is on how far the time is ahead of the least end, the
inner one on how many tasks have it. -/
theorem dispatchTasks_ends (hP : P.Forward) (k : Nat) : ∀ (n : Nat) (m : Int) (s : State κ),
    s.Ordered [] → s.control = .looping .tasks → s.Ahead m n → s.now < m + k → s.LoopEnds P := by
  induction k with
  | zero =>
    intro n m s h hc ha hk
    refine loopEnds_of_not_due h hc fun e rest hd => ?_
    have hle := ha.le _ (List.mem_map_of_mem (f := fun e => s.endOf e.task)
      (show e ∈ s.queue by simp [hd.1]))
    have hdue := hd.2
    omega
  | succ k ihk =>
    intro n
    induction n with
    | zero =>
      intro m s h hc ha hk
      have hnone : m ∉ s.ends := List.count_eq_zero.mp (Nat.le_zero.mp ha.count)
      exact ihk _ (m + 1) s h hc (ha.later hnone) (by omega)
    | succ n ihn =>
      intro m s h hc ha hk
      by_cases hd : ∃ e rest, s.Due e rest
      · obtain ⟨e, rest, hd⟩ := hd
        by_cases hm : m ∈ s.ends
        · -- The head of the queue ends at `m`.
          have hend : s.endOf e.task = m :=
            Int.le_antisymm (h.head_le hd.1 m hm)
              (ha.le _ (List.mem_map_of_mem (f := fun e => s.endOf e.task)
                (show e ∈ s.queue by simp [hd.1])))
          rw [← hend] at ha
          obtain ⟨s₁, hs₁, h₁, hc₁, hn₁, ha₁⟩ := ha.turn hP h hd
          rw [hend] at ha₁
          obtain ⟨fuel, s', hs', hend'⟩ := ihn m s₁ h₁ hc₁ ha₁ (by rw [hn₁]; exact hk)
          refine ⟨fuel + 1, s', ?_, hend'⟩
          rw [dispatchTasks_of_due hc hd, hs₁]
          exact hs'
        · exact ihk _ (m + 1) s h hc (ha.later hm) (by omega)
      · exact loopEnds_of_not_due h hc fun e rest hdue => hd ⟨e, rest, hdue⟩

/-! ### The loop goes on -/

/-- A call that leaves the tasks where they are, and may bring others. -/
def ContextOp.Leaves : ContextOp κ → Prop
  | .schedule _ _ _ | .setGroup _ | .clearGroup | .async => True
  | _ => False

/-- Every callback repeats its task, in place or further back, and leaves all tasks where they
are else. -/
def Program.Stays (P : Program κ) : Prop :=
  ∀ t, ∃ before d after, P t = before ++ .repeat (some d) :: after ∧ d ≤ 0 ∧
    ∀ o ∈ before ++ after, o.Leaves

/-- The tasks are where they were, and others may have come. -/
structure State.Grown (s s' : State κ) : Prop where
  now : s'.now = s.now
  control : s'.control = s.control
  contexts : s'.contexts = s.contexts
  tasks : ∀ (task : Nat) (t : Task κ), s.heap[task]? = some t →
    ∃ u, s'.heap[task]? = some u ∧ u.ends = t.ends
  queue : s.queue ⊆ s'.queue

theorem State.Grown.refl (s : State κ) : s.Grown s :=
  ⟨rfl, rfl, rfl, fun _ t ht => ⟨t, ht, rfl⟩, fun _ he => he⟩

theorem State.Grown.trans {u : State κ} (h : s.Grown s') (h' : s'.Grown u) :
    s.Grown u where
  now := h'.now.trans h.now
  control := h'.control.trans h.control
  contexts := h'.contexts.trans h.contexts
  tasks := by
    intro task t ht
    obtain ⟨t₁, ht₁, hends₁⟩ := h.tasks task t ht
    obtain ⟨t₂, ht₂, hends₂⟩ := h'.tasks task t₁ ht₁
    exact ⟨t₂, ht₂, hends₂.trans hends₁⟩
  queue := fun _ he => h'.queue (h.queue he)

theorem State.Grown.due (hu : s.Grown s') (h : s.Ordered []) {x : Entry}
    (hx : x ∈ s.queue) (hn : s.endOf x.task ≤ s.now) : s'.endOf x.task ≤ s'.now := by
  have ht := List.getElem?_eq_getElem (h.mem_allocated hx)
  obtain ⟨u, hu', hends⟩ := hu.tasks x.task _ ht
  rw [endOf, ht] at hn
  rw [endOf, hu', hu.now]
  dsimp only at hn ⊢
  rw [hends]
  exact hn

theorem ContextOp.Leaves.step {o : ContextOp κ} (ho : o.Leaves) {i : Nat} {c : Context}
    (h : s.Ordered []) (hi : s.contexts[i]? = some c) :
    ∃ s', step s (.contextOp i o) = .ok s' ∧ s'.Ordered [] ∧ s.Grown s' := by
  have hgroup : ∀ group, (s.modifyTask c.task fun t => { t with group := group }).Ordered [] ∧
      s.Grown (s.modifyTask c.task fun t => { t with group := group }) := by
    refine fun group => ⟨ordered_keeps.setGroup s c.task group h, rfl, rfl, rfl, ?_, fun _ he => he⟩
    intro task t ht
    show ∃ u, (s.heap.modify c.task _)[task]? = some u ∧ _
    rw [List.getElem?_modify, ht]
    by_cases heq : c.task = task <;> simp [heq]
  rw [TaskScheduler.step, hi]
  dsimp only
  cases o with
  | schedule time group handler =>
    refine ⟨_, rfl, h.scheduleAt _ time group handler, rfl, rfl, rfl, ?_, ?_⟩
    · intro task t ht
      have hlt : task < s.heap.length := (List.getElem?_eq_some_iff.mp ht).1
      exact ⟨t, (List.getElem?_append_left hlt).trans ht, rfl⟩
    · exact fun x hx => (insertSorted_perm _ _ _).mem_iff.mpr (List.mem_cons_of_mem _ hx)
  | setGroup group => exact ⟨_, rfl, hgroup _⟩
  | clearGroup => exact ⟨_, rfl, hgroup _⟩
  | async =>
    exact ⟨_, rfl, ordered_keeps.async h, rfl, rfl, rfl, fun _ t ht => ⟨t, ht, rfl⟩,
      fun _ he => he⟩
  | _ => exact ho.elim

theorem leaves_run {i : Nat} {c : Context} : ∀ (ops : List (ContextOp κ)) (s : State κ),
    s.Ordered [] → s.contexts[i]? = some c → (∀ o ∈ ops, o.Leaves) →
    ∃ s', run step s (ops.map (.contextOp i)) = .ok s' ∧ s'.Ordered [] ∧ s.Grown s' := by
  intro ops
  induction ops with
  | nil => exact fun s h _ _ => ⟨s, rfl, h, .refl s⟩
  | cons o ops ih =>
    intro s h hi ho
    obtain ⟨s₁, hs₁, h₁, hu₁⟩ := (ho o List.mem_cons_self).step h hi
    obtain ⟨s', hs', h', hu'⟩ :=
      ih s₁ h₁ (by rw [hu₁.contexts]; exact hi) fun o' ho' => ho o' (List.mem_cons_of_mem o ho')
    exact ⟨s', by rw [List.map_cons, run_cons_of_ok hs₁]; exact hs', h', hu₁.trans hu'⟩

/-- **The repetition** puts the task into the queue, and it is due. -/
theorem repeat_due {i task : Nat} {u : Task κ} {d : Int} (h : s.Ordered [])
    (hi : s.contexts[i]? = some ⟨task, false⟩) (ht : s.heap[task]? = some u)
    (hd : u.ends + d ≤ s.now) :
    ∃ s', step s (.contextOp i (.repeat (some d))) = .ok s' ∧ s'.Ordered [] ∧
      s'.control = s.control ∧ s'.contexts[i]? = some ⟨task, true⟩ ∧
      ∃ x ∈ s'.queue, s'.endOf x.task ≤ s'.now := by
  obtain ⟨s', hrepeat⟩ : ∃ s', s.repeat_ i ⟨task, false⟩ (some d) = .ok s' := ⟨_, rfl⟩
  have hordered := h.repeat_ hi (some d) hrepeat
  refine ⟨s', ?_, hordered, ?_⟩
  · rw [step, hi]
    exact hrepeat
  · cases hrepeat
    refine ⟨rfl, List.getElem?_set_self (List.getElem?_eq_some_iff.mp hi).1, _,
      (insertSorted_perm _ _ _).mem_iff.mpr List.mem_cons_self, ?_⟩
    show State.endOf (s.modifyTask task (repeatTask (some d))) task ≤ s.now
    rw [endOf, modifyTask, List.getElem?_modify_eq, ht]
    exact hd

theorem State.Ordered.exists_due (h : s.Ordered []) {x : Entry} (hx : x ∈ s.queue)
    (hn : s.endOf x.task ≤ s.now) : ∃ e rest, s.Due e rest := by
  cases hq : s.queue with
  | nil => rw [hq] at hx; cases hx
  | cons e rest =>
    have hle := h.head_le hq _ (List.mem_map_of_mem (f := fun e => s.endOf e.task) hx)
    exact ⟨e, rest, hq, hle.trans hn⟩

/-- **A turn puts the task back**, and it is still due. -/
theorem stays_turn (hP : P.Stays) (h : s.Ordered []) {e : Entry} {rest : List Entry}
    (hd : s.Due e rest) :
    ∃ s', run step (s.observe.invoke e rest)
        (callback P (s.observe.invoke e rest) s.contexts.length) = .ok s' ∧
      s'.Ordered [] ∧ s'.control = .looping .tasks ∧ ∃ x ∈ s'.queue, s'.endOf x.task ≤ s'.now := by
  obtain ⟨t, ht, hend⟩ := h.exists_task hd.1
  obtain ⟨before, d, after, hcalls, hle, hleaves⟩ := hP t
  have hdue : t.ends ≤ s.now := by rw [hend]; exact hd.2
  have hcontext : (s.observe.invoke e rest).contexts[s.contexts.length]? = some ⟨e.task, false⟩ :=
    List.getElem?_concat_length
  -- the calls before the repetition
  obtain ⟨s₁, hs₁, h₁, hu₁⟩ := leaves_run before _ (h.invoke hd.1) hcontext fun o ho =>
    hleaves o (List.mem_append_left _ ho)
  obtain ⟨u, htask, hends⟩ := hu₁.tasks e.task t ht
  have hback : u.ends + d ≤ s₁.now := by
    rw [hends, hu₁.now]
    show t.ends + d ≤ s.now
    omega
  obtain ⟨s₂, hs₂, h₂, hc₂, hi₂, x, hx, hn⟩ :=
    repeat_due h₁ (by rw [hu₁.contexts]; exact hcontext) htask hback
  -- and those after it
  obtain ⟨s₃, hs₃, h₃, hu₃⟩ := leaves_run after _ h₂ hi₂ fun o ho =>
    hleaves o (List.mem_append_right _ ho)
  have hc₃ : s₃.control = .task s.contexts.length := by
    rw [hu₃.control, hc₂, hu₁.control]
    rfl
  refine ⟨{ s₃ with control := .looping .tasks }, ?_, ?_, rfl, x, hu₃.queue hx, hu₃.due h₂ hx hn⟩
  · rw [callback_invoke P ht, hcalls, List.map_append, List.append_assoc, run_append_of_ok hs₁,
      List.map_cons, List.cons_append, run_cons_of_ok hs₂, run_append_of_ok hs₃,
      State.run_returns hc₃]
  · exact h₃.quiet ⟨rfl, rfl, rfl, rfl, rfl, rfl, rfl⟩

theorem dispatchTasks_spins (hP : P.Stays) (fuel : Nat) : ∀ s : State κ, s.Ordered [] →
    s.control = .looping .tasks → (∃ x ∈ s.queue, s.endOf x.task ≤ s.now) →
    dispatchTasks P fuel s = .ok none := by
  induction fuel with
  | zero => exact fun s _ _ _ => rfl
  | succ fuel ih =>
    rintro s h hc ⟨x, hx, hn⟩
    obtain ⟨e, rest, hd⟩ := h.exists_due hx hn
    obtain ⟨s₁, hs₁, h₁, hc₁, hdue⟩ := stays_turn hP h hd
    rw [dispatchTasks_of_due hc hd, hs₁]
    exact ih s₁ h₁ hc₁ hdue

/-! ### An `Update` -/

/-- **When an `Update` returns.**  At any time between two updates, with no asyncs and a validator
that says yes: if the callbacks put nothing at the end of their own task or before it, then the
next update returns, with nothing left that is due.  If they repeat their task at its end or
before it, move no other, and a task is due, then it does not return. -/
theorem updateBy_returns {now : Int} {acts : List (Act κ)} (h : run step (new now) acts = .ok s)
    (hc : s.control = .idle) (ha : s.asyncHolder = []) (difftime : Int) :
    (∀ P : Program κ, P.Forward → ∃ fuel s', updateBy P fuel difftime s = .ok (some s') ∧
      s'.control = .idle ∧ ∀ e ∈ s'.queue, s'.now < s'.endOf e.task) ∧
    (∀ P : Program κ, P.Stays → (∃ e ∈ s.queue, s.endOf e.task ≤ s.now + difftime) →
      ∀ fuel, updateBy P fuel difftime s = .ok none) := by
  have hw : (s.wake difftime).Ordered [] :=
    (run_ordered h).quiet ⟨rfl, rfl, rfl, rfl, rfl, rfl, rfl⟩
  constructor
  · intro P hP
    obtain ⟨m, n, hahead⟩ := hw.exists_ahead
    obtain ⟨fuel, r, hr, hf, hleft⟩ := dispatchTasks_ends hP
      ((s.wake difftime).now - m + 1).toNat n m _ hw rfl hahead (by omega)
    refine ⟨fuel, { r with control := .idle }, ?_, rfl, hleft⟩
    rw [updateBy, run_update hc ha]
    show (dispatchTasks P fuel (s.wake difftime) >>= _) = _
    rw [hr]
    show (step r .returns >>= _) = _
    rw [step_returns hf]
    rfl
  · intro P hP hdue fuel
    have hspin := dispatchTasks_spins hP fuel (s.wake difftime) hw rfl hdue
    rw [updateBy, run_update hc ha]
    show (dispatchTasks P fuel (s.wake difftime) >>= _) = _
    rw [hspin]
    rfl

/-- A task that repeats itself every two seconds comes to the time.  One that repeats itself at
its end, and schedules another one each time, does not. -/
theorem updateBy_returns_two : ∃ s, run step (new 0) [.op (.schedule 1 none ())] = .ok s ∧
    (∃ fuel s', updateBy (fun _ => [.repeat (some 2)]) fuel 6 s = .ok (some s') ∧
      s'.control = .idle ∧ ∀ e ∈ s'.queue, s'.now < s'.endOf e.task) ∧
    ∀ fuel, updateBy (fun _ => [.repeat (some 0), .schedule 9 none ()]) fuel 6 s = .ok none := by
  obtain ⟨s, h, hp⟩ := ok_of_any (x := run step (new 0) [.op (.schedule 1 none ())])
    (p := fun s => s.control = .idle ∧ s.asyncHolder = [] ∧
      ∃ e ∈ s.queue, s.endOf e.task ≤ s.now + 6) (by decide)
  obtain ⟨hc, ha, hdue⟩ := of_decide_eq_true hp
  obtain ⟨hends, hspins⟩ := updateBy_returns h hc ha 6
  refine ⟨s, h, hends _ ⟨?_, ?_⟩, hspins _ (fun _ => ?_) hdue⟩
  · intro t o ho
    obtain rfl := List.mem_singleton.mp ho
    show (0 : Int) < 2
    decide
  · exact fun _ => Nat.le_refl 1
  · refine ⟨[], 0, [.schedule 9 none ()], rfl, Int.le_refl 0, fun o ho => ?_⟩
    obtain rfl := List.mem_singleton.mp ho
    trivial

end TaskScheduler

end WarheadDiscord
