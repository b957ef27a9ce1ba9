import WarheadDiscord.Common.TaskQueue

/-!
# No task is lost, repeated or early

* `Conserved`: what was inserted has been invoked, or cancelled, or is in the queue.
* `conserved_keeps`: every step keeps this.
* `tasks_conserved`: so it holds in every run; a task is invoked at a time not before its
  end; and when `Dispatch` comes to its final callback no task in the queue is due.
-/

namespace WarheadDiscord

open Lib

namespace TaskScheduler

/-- The insertion that an element of the queue stands for. -/
def Entry.insertion (e : Entry) : Nat × Nat := (e.task, e.stamp)

namespace State

variable {κ : Type} {s s' : State κ} {c : Context} {i : Nat}

def queued (s : State κ) : List (Nat × Nat) := s.queue.map Entry.insertion

def invoked (s : State κ) : List (Nat × Nat) :=
  s.history.invocations.map fun v => v.entry.insertion

def cancelled (s : State κ) : List (Nat × Nat) := s.history.cancelled.map Entry.insertion

def inserted (s : State κ) : List (Nat × Nat) := s.history.inserted.map Entry.insertion

/-- **The invariant.**  Each insertion is in one of three places, and no invocation was early. -/
structure Conserved (s : State κ) : Prop where
  perm : s.inserted.Perm (s.invoked ++ s.cancelled ++ s.queued)
  due : ∀ v ∈ s.history.invocations, v.ends ≤ v.now

theorem new_conserved (now : Int) : (TaskScheduler.new now : State κ).Conserved :=
  ⟨List.Perm.refl _, by simp [TaskScheduler.new]⟩

theorem Conserved.reorder (h : s.Conserved) (hq : s'.queued.Perm s.queued)
    (hi : s'.history.inserted = s.history.inserted)
    (hv : s'.history.invocations = s.history.invocations)
    (hc : s'.history.cancelled = s.history.cancelled) : s'.Conserved := by
  refine ⟨?_, by rw [hv]; exact h.due⟩
  rw [inserted, invoked, cancelled, hi, hv, hc]
  exact h.perm.trans (hq.symm.append_left _)

theorem Conserved.quiet (h : s.Conserved) (hq : Quiet s s') : s'.Conserved :=
  h.reorder (by rw [queued, queued, hq.queue]) hq.inserted hq.invocations hq.cancelled

/-- What moves elements from the queue to the ones that were cancelled. -/
theorem Conserved.cancel (h : s.Conserved) (gone : List Entry)
    (hq : (gone ++ s'.queue).Perm s.queue) (hi : s'.history.inserted = s.history.inserted)
    (hv : s'.history.invocations = s.history.invocations)
    (hc : s'.history.cancelled = s.history.cancelled ++ gone) : s'.Conserved := by
  refine ⟨?_, by rw [hv]; exact h.due⟩
  have hqueued := hq.map Entry.insertion
  rw [List.map_append] at hqueued
  rw [inserted, invoked, cancelled, hi, hv, hc, List.map_append, List.append_assoc,
    List.append_assoc, ← List.append_assoc]
  exact h.perm.trans (hqueued.symm.append_left _)

theorem push_queued (s : State κ) (e : Entry) : (s.push e).queued.Perm (e.insertion :: s.queued) :=
  (insertSorted_perm _ e s.queue).map Entry.insertion

/-- **An insertion** goes into the queue. -/
theorem Conserved.insertTask (h : s.Conserved) (task : Nat) : (s.insertTask task).Conserved := by
  let e : Entry := ⟨task, s.history.inserted.length, false⟩
  refine ⟨?_, h.due⟩
  have hq : (s.insertTask task).queued.Perm (e.insertion :: s.queued) := push_queued s e
  have hi : (s.insertTask task).inserted = s.inserted ++ [e.insertion] := List.map_append
  have hold : (s.inserted ++ [e.insertion]).Perm
      (e.insertion :: (s.invoked ++ s.cancelled ++ s.queued)) :=
    (List.perm_append_singleton _ _).trans (h.perm.cons _)
  rw [hi]
  exact (hold.trans List.perm_middle.symm).trans (hq.symm.append_left _)

theorem Conserved.scheduleAt (h : s.Conserved) (ends time : Int) (group : Option UInt32)
    (handler : κ) : (s.scheduleAt ends time group handler).Conserved := by
  apply Conserved.insertTask
  exact h.reorder (List.Perm.refl _) rfl rfl rfl

theorem Conserved.repeat_ (h : s.Conserved) (duration : Option Int)
    (hr : s.repeat_ i c duration = .ok s') : s'.Conserved := by
  rw [State.repeat_] at hr
  split at hr
  · cases hr
  · cases hr
    apply Conserved.insertTask
    exact h.reorder (List.Perm.refl _) rfl rfl rfl

/-! ### `ModifyIf` -/

theorem foldl_push_queued (cache : List Entry) : ∀ s : State κ,
    (cache.foldl (fun s e => s.push e.again) s).queued.Perm
      (cache.map Entry.insertion ++ s.queued) ∧
    (cache.foldl (fun s e => s.push e.again) s).history.inserted = s.history.inserted ∧
    (cache.foldl (fun s e => s.push e.again) s).history.invocations = s.history.invocations ∧
    (cache.foldl (fun s e => s.push e.again) s).history.cancelled = s.history.cancelled := by
  induction cache with
  | nil => intro s; exact ⟨List.Perm.refl _, rfl, rfl, rfl⟩
  | cons e cache ih =>
    intro s
    obtain ⟨hq, hi, hv, hc⟩ := ih (s.push e.again)
    refine ⟨hq.trans ?_, hi, hv, hc⟩
    exact ((push_queued s e.again).append_left _).trans List.perm_middle

theorem Conserved.modifyIf (h : s.Conserved) (filter : Task κ → Option (Task κ)) :
    (s.modifyIf filter).Conserved := by
  obtain ⟨-, -, -, hperm⟩ := modifyLoop_spec filter s.queue s.heap
  have hq := hperm.map Entry.insertion
  rw [List.map_append] at hq
  obtain ⟨hf, hi, hv, hc⟩ := foldl_push_queued (modifyLoop filter s.heap s.queue).2.1
    { s with heap := (modifyLoop filter s.heap s.queue).1
             queue := (modifyLoop filter s.heap s.queue).2.2 }
  exact h.reorder (hf.trans hq) hi hv hc

/-! ### `Dispatch` -/

theorem Conserved.nextTask (h : s.Conserved) : s.nextTask.Conserved := by
  rw [State.nextTask]
  cases hq : s.queue with
  | nil => exact h.quiet ⟨rfl, hq.symm, rfl, rfl, rfl, rfl, rfl⟩
  | cons e rest =>
    dsimp only
    by_cases hnow : s.now < s.endOf e.task
    · rw [if_pos hnow]
      exact h.reorder (List.Perm.refl _) rfl rfl rfl
    · rw [if_neg hnow]
      refine ⟨?_, ?_⟩
      · have hqueued : s.queued = e.insertion :: rest.map Entry.insertion := by
          rw [queued, hq, List.map_cons]
        have hinvoked : (s.observe.invoke e rest).invoked = s.invoked ++ [e.insertion] :=
          List.map_append
        have hp := h.perm
        rw [hqueued] at hp
        refine hp.trans ?_
        rw [hinvoked]
        show (s.invoked ++ s.cancelled ++ e.insertion :: rest.map Entry.insertion).Perm
          (s.invoked ++ [e.insertion] ++ s.cancelled ++ rest.map Entry.insertion)
        rw [List.append_assoc, List.append_assoc, List.append_assoc]
        exact (List.perm_middle.append_left s.invoked)
      · intro v hv
        rcases List.mem_append.mp hv with hv | hv
        · exact h.due v hv
        · rw [List.mem_singleton.mp hv]
          exact not_lt.mp hnow

/-- **When the loop over the tasks ends, no task is due.** -/
theorem Ordered.nextTask_finishing (h : s.Ordered []) (hf : s.nextTask.control = .finishing) :
    ∀ e ∈ s.nextTask.queue, s.nextTask.now < s.nextTask.endOf e.task := by
  rw [State.nextTask] at hf ⊢
  cases hq : s.queue with
  | nil =>
    intro e he
    cases he
  | cons e rest =>
    rw [hq] at hf
    dsimp only at hf ⊢
    by_cases hnow : s.now < s.endOf e.task
    · rw [if_pos hnow]
      intro x hx
      have hx : x ∈ s.queue := hx
      rw [hq] at hx
      rcases List.mem_cons.mp hx with rfl | hx
      · exact hnow
      · have hhead := List.pairwise_cons.mp (hq ▸ h.sorted)
        exact lt_of_lt_of_le hnow (hhead.1 x hx).1
    · rw [if_neg hnow] at hf
      cases hf

end State

open State

variable {κ : Type} {s s' : State κ}

/-- **Every step** keeps the invariant. -/
theorem conserved_keeps : Keeps (State.Conserved : State κ → Prop) where
  quiet _ _ hq h := h.quiet hq
  scheduleAt _ ends time group task h := h.scheduleAt ends time group task
  clear s h := by
    refine h.cancel s.queue ?_ rfl rfl rfl
    show (s.queue ++ []).Perm s.queue
    rw [List.append_nil]
  removeIf s filter h :=
    h.cancel _ (List.filter_append_perm (s.filterOf filter) s.queue) rfl rfl rfl
  modifyIf _ filter h := h.modifyIf filter
  setGroup _ _ _ h := h.reorder (List.Perm.refl _) rfl rfl rfl
  repeat_ _ _ _ duration _ h _ hr := h.repeat_ duration hr
  nextTask _ h := h.nextTask

/-- **No task is lost, repeated or early.**  In every run, what was inserted is what was invoked,
what a cancel removed and what is in the queue; no task was invoked before its end; and if
`Dispatch` now comes to its final callback, then no task of the queue is due. -/
theorem tasks_conserved {now : Int} {acts : List (Act κ)} (h : run step (new now) acts = .ok s) :
    s.inserted.Perm (s.invoked ++ s.cancelled ++ s.queued) ∧
      (∀ v ∈ s.history.invocations, v.ends ≤ v.now) ∧
      (s.control = .looping .tasks → ∀ t, step s .next = .ok t → t.control = .finishing →
        ∀ e ∈ t.queue, t.now < t.endOf e.task) := by
  have hc : s.Conserved := conserved_keeps.run (new_conserved now) h
  refine ⟨hc.perm, hc.due, fun hl t ht hf => ?_⟩
  rw [step, hl] at ht
  cases ht
  exact (run_ordered h).nextTask_finishing hf

/-- Of three tasks two are invoked, and the first one repeats itself and cancels the last one. -/
theorem tasks_conserved_four : ∃ s, run step (new 0)
      [.op (.schedule 5 none ()), .op (.schedule 5 (some 1) ()), .op (.schedule 7 (some 2) ()),
        .update 6, .validate true, .next, .next, .contextOp 0 (.repeat (some 3)),
        .contextOp 0 (.cancelGroup 2), .returns, .validate true, .next, .returns,
        .validate true] = .ok s ∧
    (s.inserted.length = 4 ∧ s.invoked.length = 2 ∧ s.cancelled.length = 1 ∧ s.queued.length = 1) ∧
    s.inserted.Perm (s.invoked ++ s.cancelled ++ s.queued) ∧
      (∀ v ∈ s.history.invocations, v.ends ≤ v.now) ∧
      (s.control = .looping .tasks → ∀ t, step s .next = .ok t → t.control = .finishing →
        ∀ e ∈ t.queue, t.now < t.endOf e.task) := by
  obtain ⟨s, h, hp⟩ := ok_of_any (x := run step (new 0)
      [.op (.schedule 5 none ()), .op (.schedule 5 (some 1) ()), .op (.schedule 7 (some 2) ()),
        .update 6, .validate true, .next, .next, .contextOp 0 (.repeat (some 3)),
        .contextOp 0 (.cancelGroup 2), .returns, .validate true, .next, .returns,
        .validate true]) (p := fun s => s.inserted.length = 4 ∧ s.invoked.length = 2 ∧
          s.cancelled.length = 1 ∧ s.queued.length = 1) (by decide)
  exact ⟨s, h, of_decide_eq_true hp, tasks_conserved h⟩

end TaskScheduler

end WarheadDiscord
