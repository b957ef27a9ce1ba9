import WarheadDiscord.Common.TaskQueue

/-!
# `ModifyIf`

The functions that delay or reschedule tasks change the sort key of elements that are in the
ordered container, take these out, and put them in again when all have been looked at.

* `Sound`: a queue in order, of tasks that exist, each of them once.
* `modifyLoop_eq`: what the loop does to the tasks, the cache and the container.
* `TaskChange.apply_spec`: what each of the four functions changes, and that nothing else does.
-/

namespace WarheadDiscord

open Lib

namespace TaskScheduler

variable {κ : Type}

/-- `DelayAll`, `DelayGroup`, `RescheduleAll` and `RescheduleGroup`. -/
inductive TaskChange where
  | delayAll (duration : Int)
  | delayGroup (group : UInt32) (duration : Int)
  | rescheduleAll (duration : Int)
  | rescheduleGroup (group : UInt32) (duration : Int)
  deriving DecidableEq, Repr

namespace TaskChange

def op : TaskChange → Op κ
  | delayAll duration => .delayAll duration
  | delayGroup group duration => .delayGroup group duration
  | rescheduleAll duration => .rescheduleAll duration
  | rescheduleGroup group duration => .rescheduleGroup group duration

/-- The tasks that are meant. -/
def covers (c : TaskChange) (t : Task κ) : Bool :=
  match c with
  | delayGroup group _ => t.isInGroup group
  | rescheduleGroup group _ => t.isInGroup group
  | _ => true

/-- Their new `_end`. -/
def newEnd (c : TaskChange) (now ends : Int) : Int :=
  match c with
  | delayAll duration => ends + duration
  | delayGroup _ duration => ends + duration
  | rescheduleAll duration => now + duration
  | rescheduleGroup _ duration => now + duration

end TaskChange

namespace State

variable {s s' : State κ} {e : Entry} {es : List Entry} {heap : List (Task κ)}

/-- The queue is sorted, and its tasks exist, each of them once. -/
structure Sound (s : State κ) : Prop where
  sorted : s.queue.Pairwise fun x y => s.endOf x.task ≤ s.endOf y.task
  once : (s.queue.map fun e => e.task).Nodup
  allocated : ∀ e ∈ s.queue, e.task < s.heap.length

theorem Ordered.sound (h : s.Ordered []) : s.Sound where
  sorted := h.sorted.imp fun hb => hb.1
  once := h.queue_nodup
  allocated _ he := h.mem_allocated he

/-! ### The loop -/

/-- The filter takes the element. -/
def taken (filter : Task κ → Option (Task κ)) (heap : List (Task κ)) (e : Entry) : Bool :=
  (heap[e.task]?.bind filter).isSome

theorem taken_set (filter : Task κ → Option (Task κ)) {x : Entry} (t : Task κ)
    (h : x.task ≠ e.task) : taken filter (heap.set x.task t) e = taken filter heap e := by
  rw [taken, taken, List.getElem?_set_ne h]

theorem modifyLoop_fresh (filter : Task κ → Option (Task κ)) {task : Nat}
    (h : task ∉ es.map fun e => e.task) : (modifyLoop filter heap es).1[task]? = heap[task]? := by
  obtain ⟨-, hget, -, hperm⟩ := modifyLoop_spec filter es heap
  apply hget
  intro hmem
  obtain ⟨e, he, heq⟩ := List.mem_map.mp hmem
  exact h (List.mem_map.mpr ⟨e, hperm.mem_iff.mp (List.mem_append_left _ he), heq⟩)

/-- **What the loop of `ModifyIf` does**, for a container that has each task once: every task is
looked at as it was at the start. -/
theorem modifyLoop_eq (filter : Task κ → Option (Task κ)) (es : List Entry) :
    ∀ heap : List (Task κ), (es.map fun e => e.task).Nodup →
      (modifyLoop filter heap es).2.1 = es.filter (taken filter heap) ∧
      (modifyLoop filter heap es).2.2 = es.filter (fun e => !taken filter heap e) ∧
      ∀ e ∈ es, (modifyLoop filter heap es).1[e.task]? =
        heap[e.task]?.map fun t => (filter t).getD t := by
  induction es with
  | nil =>
    intro heap _
    exact ⟨rfl, rfl, fun e he => absurd he List.not_mem_nil⟩
  | cons x es ih =>
    intro heap hnodup
    rw [List.map_cons, List.nodup_cons] at hnodup
    obtain ⟨hfresh, hrest⟩ := hnodup
    have hne : ∀ e ∈ es, x.task ≠ e.task := fun e he heq =>
      hfresh (List.mem_map.mpr ⟨e, he, heq.symm⟩)
    rw [modifyLoop]
    cases hx : heap[x.task]?.bind filter with
    | some t =>
      obtain ⟨hcache, hleft, hheap⟩ := ih (heap.set x.task t) hrest
      have htaken : taken filter heap x = true := by rw [taken, hx]; rfl
      have hsame : ∀ e ∈ es, taken filter (heap.set x.task t) e = taken filter heap e :=
        fun e he => taken_set filter t (hne e he)
      obtain ⟨old, hold, hfilter⟩ := Option.bind_eq_some_iff.mp hx
      dsimp only
      refine ⟨?_, ?_, ?_⟩
      · rw [List.filter_cons_of_pos htaken, hcache, List.filter_congr hsame]
      · rw [List.filter_cons_of_neg (by simp [htaken]), hleft]
        exact List.filter_congr fun e he => by rw [hsame e he]
      · intro e he
        rcases List.mem_cons.mp he with rfl | he
        · -- The later turns do not come back to this task.
          have hlt : e.task < heap.length := (List.getElem?_eq_some_iff.mp hold).1
          rw [modifyLoop_fresh filter hfresh, List.getElem?_set_self hlt, hold, Option.map_some,
            hfilter]
          rfl
        · rw [hheap e he, List.getElem?_set_ne (hne e he)]
    | none =>
      obtain ⟨hcache, hleft, hheap⟩ := ih heap hrest
      have htaken : taken filter heap x = false := by rw [taken, hx]; rfl
      dsimp only
      refine ⟨?_, ?_, ?_⟩
      · rw [List.filter_cons_of_neg (by simp [htaken]), hcache]
      · rw [List.filter_cons_of_pos (by simp [htaken]), hleft]
      · intro e he
        rcases List.mem_cons.mp he with rfl | he
        · rw [modifyLoop_fresh filter hfresh]
          cases hold : heap[e.task]? with
          | none => rfl
          | some old =>
            rw [hold] at hx
            have hfilter : filter old = none := hx
            rw [Option.map_some, hfilter]
            rfl
        · exact hheap e he

/-! ### Putting in again -/

/-- A list of `Push` calls: only the queue and the record of searches change. -/
theorem foldl_push_eq (cache : List Entry) : ∀ s : State κ,
    ∃ probes, cache.foldl (fun s e => s.push e.again) s =
      { s with
        queue := insertSortedAll (fun e => s.endOf e.task) (cache.map Entry.again) s.queue
        history := { s.history with probes := probes } } := by
  induction cache with
  | nil => exact fun s => ⟨s.history.probes, rfl⟩
  | cons e cache ih =>
    intro s
    obtain ⟨probes, h⟩ := ih (s.push e.again)
    exact ⟨probes, h⟩

end State

namespace TaskChange

open State

variable {s : State κ}

/-! ### The four functions -/

/-- The filter of the four functions. -/
def filter (c : TaskChange) (now : Int) (t : Task κ) : Option (Task κ) :=
  if c.covers t then some { t with ends := c.newEnd now t.ends } else none

theorem apply_op (c : TaskChange) (s : State κ) :
    s.apply c.op = s.modifyIf (c.filter s.now) := by
  cases c <;> rfl

theorem filter_getD (c : TaskChange) (now : Int) (t : Task κ) : (c.filter now t).getD t =
    if c.covers t then { t with ends := c.newEnd now t.ends } else t := by
  rw [filter]
  split <;> rfl

theorem taken_filter (c : TaskChange) (now : Int) (e : Entry) :
    taken (c.filter now) s.heap e = s.filterOf c.covers e := by
  rw [taken, filterOf]
  cases s.heap[e.task]? with
  | none => rfl
  | some t =>
    show (c.filter now t).isSome = c.covers t
    rw [filter]
    cases c.covers t <;> rfl

/-- What is changed between `s` and `s'`. -/
structure Applied (c : TaskChange) (s s' : State κ) : Prop where
  /-- A task that is in the queue and meant has its new end, and all else is as it was. -/
  tasks : ∀ i, s'.heap[i]? = s.heap[i]?.map fun t =>
    if i ∈ (s.queue.map fun e => e.task) ∧ c.covers t then
      { t with ends := c.newEnd s.now t.ends }
    else t
  queued : (s'.queue.map fun e => e.task).Perm (s.queue.map fun e => e.task)
  sorted : s'.queue.Pairwise fun x y => s'.endOf x.task ≤ s'.endOf y.task
  /-- The elements that are not meant. -/
  order : (s'.queue.filter fun e => !s.filterOf c.covers e) =
    s.queue.filter fun e => !s.filterOf c.covers e
  others : s' = { s with
    heap := s'.heap, queue := s'.queue
    history := { s.history with probes := s'.history.probes } }

/-- **Each task that is meant is changed once, and nothing else is.**  For every queue that is in
order and has each of its tasks once, `DelayAll`, `DelayGroup`, `RescheduleAll` and
`RescheduleGroup` give the new end to the tasks of the queue that are meant, change no other task
and no other field, keep the tasks of the queue, and leave it sorted with the other tasks in their
order. -/
theorem apply_spec (c : TaskChange) (h : s.Sound) : c.Applied s (s.apply c.op) := by
  obtain ⟨hcache, hleft, hheap⟩ := modifyLoop_eq (c.filter s.now) s.queue s.heap h.once
  obtain ⟨-, -, -, hperm⟩ := modifyLoop_spec (c.filter s.now) s.queue s.heap
  have hfresh : ∀ task, task ∉ s.queue.map (fun e => e.task) →
      (modifyLoop (c.filter s.now) s.heap s.queue).1[task]? = s.heap[task]? :=
    fun task h => modifyLoop_fresh (c.filter s.now) h
  have htaken : ∀ e, taken (c.filter s.now) s.heap e = s.filterOf c.covers e :=
    fun e => taken_filter c s.now e
  rw [apply_op, modifyIf]
  generalize modifyLoop (c.filter s.now) s.heap s.queue = r at *
  obtain ⟨heap, cache, left⟩ := r
  dsimp only at *
  obtain ⟨probes, hpush⟩ := foldl_push_eq cache { s with heap := heap, queue := left }
  rw [hpush]
  have hends : ∀ e ∈ left, State.endOf { s with heap := heap, queue := left } e.task =
      s.endOf e.task := by
    intro e he
    rw [hleft, List.mem_filter] at he
    obtain ⟨he, hnot⟩ := he
    rw [endOf, endOf]
    dsimp only
    rw [hheap e he]
    cases ht : s.heap[e.task]? with
    | none => rfl
    | some t =>
      have hnone : c.filter s.now t = none := by
        rw [taken, ht] at hnot
        simpa using hnot
      rw [Option.map_some, hnone]
      rfl
  refine ⟨?_, ?_, ?_, ?_, rfl⟩
  · intro i
    by_cases hi : i ∈ s.queue.map fun e => e.task
    · obtain ⟨e, he, rfl⟩ := List.mem_map.mp hi
      simp only [hheap e he, filter_getD, hi, true_and]
    · simp only [hfresh i hi, hi, false_and, if_false, Option.map_id']
  · have hall := (insertSortedAll_perm (fun e : Entry =>
      State.endOf { s with heap := heap, queue := left } e.task) (cache.map Entry.again) left).map
      fun e => e.task
    have hagain : (cache.map Entry.again).map (fun e => e.task) = cache.map fun e => e.task := by
      rw [List.map_map]
      rfl
    rw [List.map_append, hagain, ← List.map_append] at hall
    exact hall.trans (hperm.map fun e => e.task)
  · have hsub : left.Sublist s.queue := hleft ▸ List.filter_sublist
    have hsorted : left.Pairwise fun x y =>
        State.endOf { s with heap := heap, queue := left } x.task ≤
          State.endOf { s with heap := heap, queue := left } y.task := by
      refine (h.sorted.sublist hsub).imp_of_mem ?_
      intro x y hx hy hle
      rw [hends x hx, hends y hy]
      exact hle
    exact pairwise_insertSortedAll _ _ hsorted
  · dsimp only
    rw [filter_insertSortedAll, hleft, List.filter_filter]
    · exact List.filter_congr fun e _ => by rw [htaken, Bool.and_self]
    · intro a ha
      obtain ⟨e, he, rfl⟩ := List.mem_map.mp ha
      rw [hcache, List.mem_filter, htaken] at he
      show (!s.filterOf c.covers e) = false
      rw [he.2]
      rfl

theorem run_sound {now : Int} {acts : List (Act κ)} (h : run step (new now) acts = .ok s) :
    s.Sound :=
  (run_ordered h).sound

/-- Three tasks, of which the first one is moved behind the last one. -/
theorem apply_spec_three : ∃ s : State Unit, run step (new 0) [.op (.schedule 1 (some 7) ()),
      .op (.schedule 2 none ()), .op (.schedule 2 (some 8) ())] = .ok s ∧
    (delayGroup 7 4).Applied s (s.apply (delayGroup 7 4).op) ∧
    ((s.apply (delayGroup 7 4).op).queue.map fun e => e.task) = [1, 2, 0] := by
  obtain ⟨s, hs, hp⟩ := ok_of_any (x := run step (new 0) [.op (.schedule 1 (some 7) ()),
      .op (.schedule 2 none ()), .op (.schedule 2 (some 8) ())])
    (p := fun s : State Unit =>
      ((s.apply (delayGroup 7 4).op).queue.map fun e => e.task) = [1, 2, 0]) (by decide)
  exact ⟨s, hs, apply_spec _ (run_sound hs), of_decide_eq_true hp⟩

end TaskChange

end TaskScheduler

end WarheadDiscord
