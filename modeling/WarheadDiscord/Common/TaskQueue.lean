import Mathlib.Data.List.Perm.Subperm
import WarheadDiscord.Common.TaskScheduler

/-!
# The order of the task queue

A task that is in the queue is not held by a context that may still repeat it, and no
task is in two of these places: `owned` lists them all.  So nothing but the queue's own
functions changes the `_end` of a task in it.

* `Ordered`: the invariant.
* `Ordered.push`, `Ordered.modifyIf`, ...: one lemma for each thing a function does.
* `ordered_keeps`: every step keeps it.
* `taskQueue_ordered`: in every run the queue is sorted and has each task once whenever it
  is searched or popped, and equal tasks come out in the order of insertion.
-/

namespace WarheadDiscord

open Lib

namespace TaskScheduler

/-- Among equal ends, and unless one was taken out and in again, `x` was inserted first. -/
def Probe.Earlier (x y : Probe) : Prop :=
  x.ends = y.ends → x.entry.moved = false → y.entry.moved = false → x.entry.stamp < y.entry.stamp

/-- The order of two elements of a queue. -/
def Probe.Before (x y : Probe) : Prop := x.ends ≤ y.ends ∧ x.Earlier y

/-- A queue that is sorted and has each task once. -/
structure InOrder (queue : List Probe) : Prop where
  sorted : queue.Pairwise Probe.Before
  once : (queue.map fun x => x.entry.task).Nodup

def Invocation.probe (v : Invocation) : Probe := ⟨v.entry, v.ends⟩

/-- Each search and pop found the queue in order, each popped task had the least end, and equal
ones were popped in the order of insertion. -/
structure History.InOrder (h : History) : Prop where
  probes : ∀ p ∈ h.probes, TaskScheduler.InOrder p
  least : ∀ v ∈ h.invocations, ∀ p ∈ v.behind, v.ends ≤ p.ends
  fifo : h.invocations.Pairwise fun v w => v.probe.Earlier w.probe

namespace State

variable {κ : Type} {s s' : State κ} {e : Entry} {out out' : List Nat} {task i : Nat}

/-- The tasks of the contexts that may still repeat them. -/
def openTasks (s : State κ) : List Nat :=
  (s.contexts.filter fun c => !c.consumed).map fun c => c.task

/-- The tasks that are out of the queue to be put in again, those in it, and those that a
context may put in. -/
def owned (s : State κ) (out : List Nat) : List Nat :=
  out ++ (s.queue.map (fun e => e.task) ++ s.openTasks)

/-- The element as a search of `s` would see it. -/
def seen (s : State κ) (e : Entry) : Probe := ⟨e, s.endOf e.task⟩

/-- **The invariant**, while the tasks `out` are out of the queue. -/
structure Ordered (s : State κ) (out : List Nat) : Prop where
  sorted : s.queue.Pairwise fun x y => (s.seen x).Before (s.seen y)
  nodup : (s.owned out).Nodup
  allocated : ∀ t ∈ s.owned out, t < s.heap.length
  stamps : ∀ e ∈ s.queue, e.stamp < s.history.inserted.length
  invoked : ∀ v ∈ s.history.invocations, v.entry.stamp < s.history.inserted.length
  past : ∀ v ∈ s.history.invocations, ∀ e ∈ s.queue, v.probe.Earlier (s.seen e)
  history : s.history.InOrder

theorem new_ordered (now : Int) : (TaskScheduler.new now : State κ).Ordered [] where
  sorted := List.Pairwise.nil
  nodup := List.nodup_nil
  allocated := by simp [TaskScheduler.new, State.owned, openTasks]
  stamps := by simp [TaskScheduler.new]
  invoked := by simp [TaskScheduler.new]
  past := by simp [TaskScheduler.new]
  history := ⟨by simp [TaskScheduler.new], by simp [TaskScheduler.new], List.Pairwise.nil⟩

/-! ### What the parts do -/

theorem Ordered.queue_nodup (h : s.Ordered out) : (s.queue.map fun e => e.task).Nodup :=
  (List.sublist_append_of_sublist_right (List.sublist_append_left _ _)).nodup h.nodup

theorem Ordered.inOrder (h : s.Ordered out) : InOrder s.probe where
  sorted := by
    rw [probe, List.pairwise_map]
    exact h.sorted
  once := by
    rw [probe, List.map_map]
    exact h.queue_nodup

theorem Ordered.observe (h : s.Ordered out) : s.observe.Ordered out := by
  refine ⟨h.sorted, h.nodup, h.allocated, h.stamps, h.invoked, h.past, ⟨?_, h.history.least,
    h.history.fifo⟩⟩
  intro p hp
  rcases List.mem_append.mp hp with hp | hp
  · exact h.history.probes p hp
  · rw [List.mem_singleton.mp hp]
    exact h.inOrder

/-- What removes from the queue, or does not touch it, keeps the invariant, if the ends of what
is left in the queue are as before. -/
theorem Ordered.frame (h : s.Ordered out) (hq : s'.queue.Sublist s.queue)
    (he : ∀ e ∈ s'.queue, s'.endOf e.task = s.endOf e.task)
    (ho : (s'.owned out').Subperm (s.owned out)) (hh : s.heap.length ≤ s'.heap.length)
    (hi : s'.history.inserted = s.history.inserted)
    (hp : s'.history.probes = s.history.probes)
    (hv : s'.history.invocations = s.history.invocations) : s'.Ordered out' := by
  have hseen : ∀ e ∈ s'.queue, s'.seen e = s.seen e := by
    intro e hmem
    rw [seen, seen, he e hmem]
  obtain ⟨l, hl, hsub⟩ := ho
  refine ⟨?_, hl.nodup_iff.mp (hsub.nodup h.nodup), ?_, ?_, ?_, ?_, ?_⟩
  · refine (h.sorted.sublist hq).imp_of_mem ?_
    intro x y hx hy hb
    rw [hseen x hx, hseen y hy]
    exact hb
  · exact fun t ht => Nat.lt_of_lt_of_le (h.allocated t (hsub.subset (hl.mem_iff.mpr ht))) hh
  · rw [hi]
    exact fun e hmem => h.stamps e (hq.subset hmem)
  · rw [hi, hv]
    exact h.invoked
  · rw [hv]
    intro v hmem e hmem'
    rw [hseen e hmem']
    exact h.past v hmem e (hq.subset hmem')
  · exact ⟨by rw [hp]; exact h.history.probes, by rw [hv]; exact h.history.least,
      by rw [hv]; exact h.history.fifo⟩

theorem Ordered.quiet (h : s.Ordered out) (hq : Quiet s s') : s'.Ordered out := by
  refine h.frame (by rw [hq.queue]) (fun e _ => by rw [endOf, endOf, hq.heap]) ?_ (by rw [hq.heap])
    hq.inserted hq.probes hq.invocations
  rw [State.owned, State.owned, openTasks, openTasks, hq.queue, hq.contexts]

theorem Ordered.sublist (h : s.Ordered out) (hq : s'.queue.Sublist s.queue) (hh : s'.heap = s.heap)
    (hc : s'.contexts = s.contexts) (hi : s'.history.inserted = s.history.inserted)
    (hp : s'.history.probes = s.history.probes)
    (hv : s'.history.invocations = s.history.invocations) : s'.Ordered out := by
  refine h.frame hq (fun e _ => by rw [endOf, endOf, hh]) ?_ (by rw [hh]) hi hp hv
  rw [State.owned, State.owned, openTasks, openTasks, hc]
  exact (List.Sublist.append_left ((hq.map _).append_right _) out).subperm

/-- **`Push`** of a task that is out of the queue, either after it was taken out or with a stamp
above all others. -/
theorem Ordered.push (h : s.Ordered (e.task :: out)) (hs : e.stamp < s.history.inserted.length)
    (hnew : e.moved = true ∨ (∀ x ∈ s.queue, x.stamp < e.stamp) ∧
      ∀ v ∈ s.history.invocations, v.entry.stamp < e.stamp) : (s.push e).Ordered out := by
  have hperm : (s.push e).queue.Perm (e :: s.queue) := insertSorted_perm _ _ _
  have howned : ((s.push e).owned out).Perm (s.owned (e.task :: out)) := by
    have hq := (hperm.map fun x => x.task).append_right s.openTasks
    exact (hq.append_left out).trans List.perm_middle
  have hmem : ∀ x, x ∈ (s.push e).queue ↔ x = e ∨ x ∈ s.queue := fun x => by
    rw [hperm.mem_iff, List.mem_cons]
  have hearlier : ∀ x : Probe, (e.moved = true ∨ x.entry.stamp < e.stamp) →
      x.Earlier (s.seen e) := by
    rintro x (hm | hlt) - - hmoved
    · rw [seen, hm] at hmoved
      cases hmoved
    · exact hlt
  refine ⟨?_, howned.nodup_iff.mpr h.nodup, fun t ht => h.allocated t (howned.mem_iff.mp ht), ?_,
    h.invoked, ?_, h.observe.history⟩
  · refine pairwise_insertSorted (h.sorted.imp fun hb => hb.1) h.sorted ?_ ?_
    · exact fun x hx hle => ⟨hle, hearlier _ (hnew.imp id fun hn => hn.1 x hx)⟩
    · exact fun x _ hlt => ⟨le_of_lt hlt, fun heq => absurd heq (ne_of_lt hlt)⟩
  · intro x hx
    rcases (hmem x).mp hx with rfl | hx
    · exact hs
    · exact h.stamps x hx
  · intro v hv x hx
    rcases (hmem x).mp hx with rfl | hx
    · exact hearlier _ (hnew.imp id fun hn => hn.2 v hv)
    · exact h.past v hv x hx

/-- **`InsertTask`** of a task that is out of the queue. -/
theorem Ordered.insertTask (h : s.Ordered (task :: out)) : (s.insertTask task).Ordered out := by
  let e : Entry := ⟨task, s.history.inserted.length, false⟩
  let s₁ : State κ :=
    { s with history := { s.history with inserted := s.history.inserted ++ [e] } }
  have hlen : s₁.history.inserted.length = s.history.inserted.length + 1 := List.length_append
  have h₁ : s₁.Ordered (e.task :: out) := by
    refine ⟨h.sorted, h.nodup, h.allocated, ?_, ?_, h.past, ⟨h.history.probes, h.history.least,
      h.history.fifo⟩⟩
    · intro x hx
      rw [hlen]
      exact Nat.lt_succ_of_lt (h.stamps x hx)
    · intro v hv
      rw [hlen]
      exact Nat.lt_succ_of_lt (h.invoked v hv)
  refine h₁.push (e := e) ?_ (.inr ⟨h.stamps, h.invoked⟩)
  rw [hlen]
  exact Nat.lt_succ_self _

theorem Ordered.mem_allocated (h : s.Ordered out) (he : e ∈ s.queue) :
    e.task < s.heap.length := by
  refine h.allocated _ (List.mem_append_right _ (List.mem_append_left _ ?_))
  exact List.mem_map_of_mem he

/-- **`ScheduleAt`** makes a task that nothing owns yet. -/
theorem Ordered.scheduleAt (h : s.Ordered out) (ends time : Int) (group : Option UInt32)
    (handler : κ) : (s.scheduleAt ends time group handler).Ordered out := by
  let s₁ : State κ := { s with heap := s.heap ++ [Task.new (ends + time) time group 0 handler] }
  have hlen : s₁.heap.length = s.heap.length + 1 := List.length_append
  have h₁ : s₁.Ordered out := by
    refine h.frame (List.Sublist.refl _) (fun e he => ?_) (List.Subperm.refl _) (by omega) rfl rfl
      rfl
    rw [endOf, endOf, List.getElem?_append_left (h.mem_allocated he)]
  refine Ordered.insertTask ⟨h₁.sorted, ?_, ?_, h₁.stamps, h₁.invoked, h₁.past, h₁.history⟩
  · refine List.nodup_cons.mpr ⟨fun hmem => ?_, h₁.nodup⟩
    exact Nat.lt_irrefl _ (h.allocated _ hmem)
  · intro t ht
    rcases List.mem_cons.mp ht with rfl | ht
    · show s.heap.length < s₁.heap.length
      omega
    · exact h₁.allocated t ht

/-! ### `ModifyIf` -/

theorem modifyLoop_spec (filter : Task κ → Option (Task κ)) (es : List Entry) :
    ∀ heap : List (Task κ), (modifyLoop filter heap es).1.length = heap.length ∧
      (∀ t, t ∉ (modifyLoop filter heap es).2.1.map (fun e => e.task) →
        (modifyLoop filter heap es).1[t]? = heap[t]?) ∧
      (modifyLoop filter heap es).2.2.Sublist es ∧
      ((modifyLoop filter heap es).2.1 ++ (modifyLoop filter heap es).2.2).Perm es := by
  induction es with
  | nil => intro heap; exact ⟨rfl, fun _ _ => rfl, List.Sublist.refl _, List.Perm.refl _⟩
  | cons e es ih =>
    intro heap
    rw [modifyLoop]
    cases heap[e.task]?.bind filter with
    | some t =>
      obtain ⟨hlen, hget, hsub, hperm⟩ := ih (heap.set e.task t)
      refine ⟨hlen.trans List.length_set, fun u hu => ?_, hsub.cons e, hperm.cons e⟩
      obtain ⟨hne, hu⟩ := not_or.mp (mt List.mem_cons.mpr hu)
      rw [hget u hu, List.getElem?_set_ne (Ne.symm hne)]
    | none =>
      obtain ⟨hlen, hget, hsub, hperm⟩ := ih heap
      exact ⟨hlen, hget, hsub.cons_cons e, List.perm_middle.trans (hperm.cons e)⟩

theorem foldl_push_ordered (cache : List Entry) : ∀ s : State κ,
    s.Ordered (cache.map (fun e => e.task) ++ out) →
    (∀ e ∈ cache, e.stamp < s.history.inserted.length) →
    (cache.foldl (fun s e => s.push e.again) s).Ordered out := by
  induction cache with
  | nil => intro s h _; exact h
  | cons e cache ih =>
    intro s h hs
    have hpush : (s.push e.again).Ordered (cache.map (fun e => e.task) ++ out) :=
      Ordered.push (e := e.again) h (hs e (by simp)) (.inl rfl)
    exact ih _ hpush fun x hx => hs x (by simp [hx])

/-- **`ModifyIf`** has the tasks that it changes out of the queue. -/
theorem Ordered.modifyIf (h : s.Ordered out) (filter : Task κ → Option (Task κ)) :
    (s.modifyIf filter).Ordered out := by
  obtain ⟨hlen, hget, hsub, hperm⟩ := modifyLoop_spec filter s.queue s.heap
  rw [State.modifyIf]
  refine foldl_push_ordered _ _ ?_ ?_
  · have htasks := hperm.map fun e => e.task
    rw [List.map_append] at htasks
    refine h.frame hsub (fun e he => ?_) ?_ (Nat.le_of_eq hlen.symm) rfl rfl rfl
    · rw [endOf, endOf]
      dsimp only
      rw [hget]
      have hnodup := htasks.nodup_iff.mpr h.queue_nodup
      intro hmem
      exact (List.nodup_append.mp hnodup).2.2 _ hmem _ (List.mem_map_of_mem he) rfl
    · refine List.Perm.subperm ?_
      show ((_ ++ out) ++ (_ ++ s.openTasks)).Perm _
      rw [List.append_assoc]
      refine (List.perm_append_comm_assoc _ _ _).trans (List.Perm.append_left out ?_)
      rw [← List.append_assoc]
      exact htasks.append_right _
  · intro e he
    exact h.stamps e (hperm.mem_iff.mp (List.mem_append_left _ he))

/-! ### Contexts -/

variable {c : Context}

theorem endOf_modifyTask (f : Task κ → Task κ) {t : Nat} (h : task ≠ t ∨ ∀ x, (f x).ends = x.ends) :
    (s.modifyTask task f).endOf t = s.endOf t := by
  rw [endOf, endOf, modifyTask]
  dsimp only
  rw [List.getElem?_modify]
  cases s.heap[t]? with
  | none => rfl
  | some x =>
    show (if task = t then f x else x).ends = x.ends
    by_cases ht : task = t
    · rw [if_pos ht]
      exact h.resolve_left (not_not.mpr ht) x
    · rw [if_neg ht]

theorem Ordered.modifyTask (h : s.Ordered out) (f : Task κ → Task κ)
    (hf : ∀ x, (f x).ends = x.ends) : (s.modifyTask task f).Ordered out :=
  h.frame (List.Sublist.refl _) (fun _ _ => endOf_modifyTask f (.inr hf)) (List.Subperm.refl _)
    (Nat.le_of_eq (List.length_modify ..).symm) rfl rfl rfl

theorem openTasks_consume (cs : List Context) (hi : cs[i]? = some c) (hc : c.consumed = false) :
    (c.task :: (((cs.set i { c with consumed := true }).filter fun c => !c.consumed).map
      fun c => c.task)).Perm ((cs.filter fun c => !c.consumed).map fun c => c.task) := by
  induction cs generalizing i with
  | nil => cases hi
  | cons d cs ih =>
    cases i with
    | zero =>
      rw [List.getElem?_cons_zero, Option.some.injEq] at hi
      subst hi
      rw [List.set_cons_zero, List.filter_cons_of_neg (by simp),
        List.filter_cons_of_pos (by simp [hc]), List.map_cons]
    | succ i =>
      rw [List.getElem?_cons_succ] at hi
      rw [List.set_cons_succ]
      cases hd : d.consumed with
      | true =>
        rw [List.filter_cons_of_neg (by simp [hd]), List.filter_cons_of_neg (by simp [hd])]
        exact ih hi
      | false =>
        rw [List.filter_cons_of_pos (by simp [hd]), List.filter_cons_of_pos (by simp [hd]),
          List.map_cons, List.map_cons]
        exact (List.Perm.swap _ _ _).trans ((ih hi).cons d.task)

/-- **`Repeat`** puts in a task that its context has owned. -/
theorem Ordered.repeat_ (h : s.Ordered []) (hi : s.contexts[i]? = some c) (duration : Option Int)
    (hr : s.repeat_ i c duration = .ok s') : s'.Ordered [] := by
  rw [State.repeat_] at hr
  cases hc : c.consumed with
  | true =>
    rw [hc, if_pos rfl] at hr
    cases hr
  | false =>
    rw [hc, if_neg (by decide)] at hr
    cases hr
    have hopen := openTasks_consume s.contexts hi hc
    have hperm : (c.task :: (s.queue.map (fun e => e.task) ++ ((s.contexts.set i
        { c with consumed := true }).filter fun c => !c.consumed).map fun c => c.task)).Perm
        (s.owned []) := List.perm_middle.symm.trans (hopen.append_left _)
    refine Ordered.insertTask (h.frame (List.Sublist.refl _) (fun e he => ?_) hperm.subperm
      (Nat.le_of_eq (List.length_modify ..).symm) rfl rfl rfl)
    have hne : c.task ≠ e.task := by
      intro heq
      have hnot := (List.nodup_cons.mp (hperm.nodup_iff.mpr h.nodup)).1
      exact hnot (List.mem_append_left _ (List.mem_map.mpr ⟨e, he, heq.symm⟩))
    exact endOf_modifyTask (repeatTask duration) (.inl hne)

/-! ### `Dispatch` -/

/-- **`Pop`** of the first element, which a new context then owns. -/
theorem Ordered.invoke {rest : List Entry} (h : s.Ordered []) (hq : s.queue = e :: rest) :
    (s.observe.invoke e rest).Ordered [] := by
  have hsub : rest.Sublist s.queue := by
    rw [hq]
    exact List.sublist_cons_self e rest
  have hmem : e ∈ s.queue := by simp [hq]
  have hopen : (s.observe.invoke e rest).openTasks = s.openTasks ++ [e.task] := by
    show ((s.contexts ++ [(⟨e.task, false⟩ : Context)]).filter fun c => !c.consumed).map
      (fun c => c.task) = _
    rw [List.filter_append, List.map_append]
    rfl
  have howned : ((s.observe.invoke e rest).owned []).Perm (s.owned []) := by
    rw [State.owned, State.owned, hopen, hq]
    show (rest.map (fun e => e.task) ++ (s.openTasks ++ [e.task])).Perm
      (e.task :: (rest.map (fun e => e.task) ++ s.openTasks))
    rw [← List.append_assoc]
    exact List.perm_append_singleton _ _
  have hhead := List.pairwise_cons.mp (hq ▸ h.sorted)
  refine ⟨h.sorted.sublist hsub, howned.nodup_iff.mpr h.nodup,
    fun t ht => h.allocated t (howned.mem_iff.mp ht),
    fun x hx => h.stamps x (hsub.subset hx), ?_, ?_, h.observe.history.probes, ?_, ?_⟩
  · intro v hv
    rcases List.mem_append.mp hv with hv | hv
    · exact h.invoked v hv
    · rw [List.mem_singleton.mp hv]
      exact h.stamps e hmem
  · intro v hv x hx
    rcases List.mem_append.mp hv with hv | hv
    · exact h.past v hv x (hsub.subset hx)
    · rw [List.mem_singleton.mp hv]
      exact (hhead.1 x hx).2
  · intro v hv p hp
    rcases List.mem_append.mp hv with hv | hv
    · exact h.history.least v hv p hp
    · rw [List.mem_singleton.mp hv] at hp ⊢
      obtain ⟨x, hx, rfl⟩ := List.mem_map.mp hp
      exact (hhead.1 x hx).1
  · refine List.pairwise_append.mpr ⟨h.history.fifo, List.pairwise_singleton _ _, ?_⟩
    intro v hv w hw
    rw [List.mem_singleton.mp hw]
    exact h.past v hv e hmem

theorem Ordered.nextTask (h : s.Ordered []) : s.nextTask.Ordered [] := by
  rw [State.nextTask]
  cases hq : s.queue with
  | nil => exact h.quiet ⟨rfl, hq.symm, rfl, rfl, rfl, rfl, rfl⟩
  | cons e rest =>
    dsimp only
    by_cases hnow : s.now < s.endOf e.task
    · rw [if_pos hnow]
      exact h.observe.quiet ⟨rfl, rfl, rfl, rfl, rfl, rfl, rfl⟩
    · rw [if_neg hnow]
      exact h.invoke hq

end State

open State

variable {κ : Type} {s : State κ}

/-- **Every step** keeps the invariant. -/
theorem ordered_keeps : Keeps fun s : State κ => s.Ordered [] where
  quiet _ _ hq h := h.quiet hq
  scheduleAt _ ends time group task h := h.scheduleAt ends time group task
  clear _ h := h.sublist (List.nil_sublist _) rfl rfl rfl rfl rfl
  removeIf _ _ h := h.sublist List.filter_sublist rfl rfl rfl rfl rfl
  modifyIf _ filter h := h.modifyIf filter
  setGroup _ _ _ h := h.modifyTask _ fun _ => rfl
  repeat_ _ _ _ duration _ h hi hr := h.repeat_ hi duration hr
  nextTask _ h := h.nextTask

theorem run_ordered {now : Int} {acts : List (Act κ)} (h : run step (new now) acts = .ok s) :
    s.Ordered [] :=
  ordered_keeps.run (new_ordered now) h

/-- **The task queue is in order.**  In every run, each search and each pop finds the queue sorted
and with each task once, each popped task has the least end of all, and tasks of equal ends
that were not taken out and in again are popped in the order of insertion. -/
theorem taskQueue_ordered {now : Int} {acts : List (Act κ)} (h : run step (new now) acts = .ok s) :
    s.history.InOrder :=
  (run_ordered h).history

/-- The first task repeats itself and delays the last one to the same end. -/
theorem taskQueue_ordered_four : ∃ s, run step (new 0)
      [.op (.schedule 5 none ()), .op (.schedule 5 (some 1) ()), .op (.schedule 7 (some 2) ()),
        .update 6, .validate true, .next, .next, .contextOp 0 (.repeat (some 3)),
        .contextOp 0 (.delayGroup 2 1), .returns, .validate true, .next, .returns, .validate true,
        .next, .returns, .update 2, .validate true, .next, .next, .returns, .validate true,
        .next] = .ok s ∧
    s.history.invocations.map (fun v => v.entry.task) = [0, 1, 0, 2] ∧ s.history.InOrder := by
  obtain ⟨s, h, hp⟩ := ok_of_any (x := run step (new 0)
      [.op (.schedule 5 none ()), .op (.schedule 5 (some 1) ()), .op (.schedule 7 (some 2) ()),
        .update 6, .validate true, .next, .next, .contextOp 0 (.repeat (some 3)),
        .contextOp 0 (.delayGroup 2 1), .returns, .validate true, .next, .returns, .validate true,
        .next, .returns, .update 2, .validate true, .next, .next, .returns, .validate true,
        .next]) (p := fun s => s.history.invocations.map (fun v => v.entry.task) = [0, 1, 0, 2])
    (by decide)
  exact ⟨s, h, of_decide_eq_true hp, taskQueue_ordered h⟩

end TaskScheduler

end WarheadDiscord
