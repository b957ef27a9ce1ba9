import WarheadDiscord.Lib.Monitor
import WarheadDiscord.Lib.Progress

/-!
# `ProducerConsumerQueue`

Threads push values, pop them, wait for them and cancel the queue, each of them in any order.
Every function holds `_queueLock` but while it waits on `_condition`, and what it does with the
lock is cut into sections, between which other threads go on: they call functions, wait for the
lock, are woken without a notification.

* `run_account`: **each value pushed is popped once, deleted once or still queued**, in the order
  in which they were pushed; none is deleted before the queue is cancelled, and none popped after.
* `run_settles`: **every call returns**, except a `WaitAndPop` on an empty queue that is not
  cancelled: what the threads do is bounded by the number of calls, and as long as a thread is
  neither at rest nor in such a wait, one of them can go on.
-/

namespace WarheadDiscord.ProducerConsumerQueue

open Lib

variable {T : Type*}

/-- What a thread does with the lock, up to where another may see it. -/
inductive Section (T : Type*) where
  /-- `Push`: `_queue.push(std::move(value));` -/
  | push (value : T)
  /-- `Push`: `_condition.notify_one();` -/
  | notifyOne
  /-- `Empty` -/
  | empty
  /-- `Pop` -/
  | pop
  /-- `WaitAndPop`: `while (_queue.empty() && !_shutdown)`, and the wait -/
  | test
  /-- `WaitAndPop`: what follows the loop -/
  | take
  /-- `Cancel`: `while (!_queue.empty())`, and one object -/
  | drain
  /-- `Cancel`: `_shutdown = true;` -/
  | setShutdown
  /-- `Cancel`: `_condition.notify_all();` -/
  | notifyAll
  deriving DecidableEq, Repr

inductive Call (T : Type*) where
  | push (value : T)
  | empty
  | pop
  | waitAndPop
  | cancel
  deriving DecidableEq, Repr

/-- The section a function begins with, once it has the lock. -/
def Call.first : Call T → Section T
  | .push value => .push value
  | .empty => .empty
  | .pop => .pop
  | .waitAndPop => .test
  | .cancel => .drain

/-- What a function tells its caller: `Pop` returns false, and `WaitAndPop` leaves the
argument, where the answer is `nothing`. -/
inductive Answer (T : Type*) where
  | isEmpty (answer : Bool)
  | nothing
  | value (value : T)
  deriving DecidableEq, Repr

def Answer.popped : Answer T → Option T
  | .value v => some v
  | _ => none

structure State (T : Type*) where
  monitor : Monitor (Section T)
  queue : List T
  shutdown : Bool
  /-- What was pushed, so far. -/
  pushed : List T
  /-- What was deleted, so far. -/
  deleted : List T
  /-- What the threads were told, so far. -/
  answers : List (Nat × Answer T)

/-- An empty queue, and `n` threads. -/
def State.new (n : Nat) : State T := ⟨.new n, [], false, [], [], []⟩

namespace State

/-- The threads. -/
def threads (s : State T) : List (Phase (Section T)) := s.monitor.threads

/-- What was popped, so far. -/
def popped (s : State T) : List T := s.answers.filterMap fun told => told.2.popped

/-- A thread gives the lock back and answers its caller. -/
def answer (s : State T) (i : Nat) (answer : Answer T) : State T :=
  { s with monitor := s.monitor.leave i, answers := s.answers ++ [(i, answer)] }

/-- `Pop`, and the end of `WaitAndPop`. -/
def popFront (s : State T) (i : Nat) : State T :=
  match s.queue with
  | [] => s.answer i .nothing
  | value :: rest =>
    if s.shutdown then s.answer i .nothing
    else { s with queue := rest }.answer i (.value value)

/-- The thread `i` runs its section.  `chosen` is the thread that `notify_one` wakes. -/
def proceed (s : State T) (i : Nat) (chosen : Option Nat) : Section T → Option (State T)
  | .push value => some { s with
      queue := s.queue ++ [value], pushed := s.pushed ++ [value]
      monitor := s.monitor.goOn i .notifyOne }
  | .notifyOne => (s.monitor.notifyOne chosen).map fun m => { s with monitor := m.leave i }
  | .empty => some (s.answer i (.isEmpty s.queue.isEmpty))
  | .pop => some (s.popFront i)
  | .test =>
    if s.queue.isEmpty && !s.shutdown then some { s with monitor := s.monitor.wait i .test }
    else some { s with monitor := s.monitor.goOn i .take }
  | .take => some (s.popFront i)
  | .drain =>
    match s.queue with
    | [] => some { s with monitor := s.monitor.goOn i .setShutdown }
    | value :: rest => some { s with queue := rest, deleted := s.deleted ++ [value] }
  | .setShutdown => some { s with shutdown := true, monitor := s.monitor.goOn i .notifyAll }
  | .notifyAll => some { s with monitor := s.monitor.wakeAll.leave i }

end State

inductive Act (T : Type*) where
  /-- A thread calls a function. -/
  | call (i : Nat) (function : Call T)
  /-- A thread gets the lock. -/
  | enter (i : Nat)
  /-- The thread with the lock runs its section. -/
  | proceed (i : Nat) (chosen : Option Nat)
  /-- A wait ends without a notification. -/
  | spurious (i : Nat)
  deriving DecidableEq, Repr

/-- The action is not possible in the state. -/
inductive Disabled where
  | disabled
  deriving DecidableEq, Repr

def State.act (s : State T) : Act T → Option (State T)
  | .call i function => (s.monitor.call i function.first).map fun m => { s with monitor := m }
  | .enter i => (s.monitor.enter i).map fun m => { s with monitor := m }
  | .proceed i chosen =>
    match s.threads[i]? with
    | some (.locked current) => s.proceed i chosen current
    | _ => none
  | .spurious i => (s.monitor.wake i).map fun m => { s with monitor := m }

def step (s : State T) (a : Act T) : Except Disabled (State T) :=
  match s.act a with
  | some t => .ok t
  | none => .error .disabled

/-! ### What the queue keeps -/

/-- A thread that is going to look whether there is a value, or to take one, or to wake
another. -/
def coming : Phase (Section T) → Bool
  | .acquire .test | .locked .test | .locked .take | .locked .notifyOne => true
  | _ => false

structure Safe (s : State T) : Prop where
  owned : s.monitor.Owned
  /-- Only `WaitAndPop` waits. -/
  resumes : ∀ r, .asleep r ∈ s.threads → r = .test
  /-- Each value pushed was popped or deleted, or is queued. -/
  account : s.pushed = s.popped ++ s.deleted ++ s.queue
  /-- Only `Cancel` deletes. -/
  deletes : s.deleted ≠ [] →
    s.shutdown = true ∨ .locked .drain ∈ s.threads ∨ .locked .setShutdown ∈ s.threads
  /-- While a thread sleeps, another comes for each value. -/
  comes : s.shutdown = false → 0 < s.threads.countP Phase.isAsleep →
    s.queue.length ≤ s.threads.countP coming
  /-- No thread sleeps on a cancelled queue. -/
  cancels : s.shutdown = true →
    s.threads.countP Phase.isAsleep = 0 ∨ .locked .notifyAll ∈ s.threads

section Steps

variable {s t : State T} {i j : Nat} {a b : Phase (Section T)} {x y : Section T}
  {m : Monitor (Section T)}

theorem safe_new (n : Nat) : Safe (State.new n : State T) where
  owned := Monitor.owned_new n
  resumes := fun r h => by simp [State.new, State.threads, Monitor.new] at h
  account := rfl
  deletes := fun h => absurd rfl h
  comes := fun _ _ => Nat.zero_le _
  cancels := fun h => by cases h

theorem Safe.only (hs : Safe s) (hi : s.threads[i]? = some (.locked x))
    (hy : .locked y ∈ s.threads) : y = x := by
  obtain ⟨j, hj⟩ := List.getElem?_of_mem hy
  have hij := hs.owned.unique hj hi
  rw [hij] at hj
  cases hj.symm.trans hi
  rfl

theorem mem_set_of_ne {l : List (Phase (Section T))} (hb : b ∈ l) (hi : l[i]? = some a)
    (hne : b ≠ a) (c : Phase (Section T)) : b ∈ l.set i c := by
  obtain ⟨j, hj⟩ := List.getElem?_of_mem hb
  have hij : i ≠ j := by
    rintro rfl
    exact hne (Option.some.inj (hj.symm.trans hi))
  refine List.mem_of_getElem? (i := j) ?_
  rw [List.getElem?_set_ne hij]
  exact hj

theorem mem_set_self {l : List (Phase (Section T))} (hi : l[i]? = some a)
    (c : Phase (Section T)) : c ∈ l.set i c :=
  List.mem_set (List.getElem?_eq_some_iff.mp hi).1 c

theorem Safe.moved (hs : Safe s) (hi : s.threads[i]? = some a) (hm : m.Owned)
    (ht : m.threads = s.threads.set i b) (ha : a.isLocked = false) (hb : b.isAsleep = false)
    (hc : coming a = true → coming b = true) : Safe { s with monitor := m } := by
  have hstay : ∀ x, Phase.locked x ∈ s.threads → Phase.locked x ∈ m.threads := by
    intro x hx
    rw [ht]
    refine mem_set_of_ne hx hi ?_ b
    rintro rfl
    cases ha
  have hasleep := Monitor.countP_set_add (b := b) Phase.isAsleep hi
  have hcoming := Monitor.countP_set_add (b := b) coming hi
  rw [← ht, hb, Bool.toNat_false, Nat.add_zero] at hasleep
  rw [← ht] at hcoming
  refine ⟨hm, ?_, hs.account, ?_, ?_, ?_⟩
  · intro r hr
    rw [State.threads, ht] at hr
    rcases List.mem_or_eq_of_mem_set hr with hr | rfl
    · exact hs.resumes r hr
    · cases hb
  · intro hd
    exact (hs.deletes hd).imp_right fun h => h.imp (hstay _) (hstay _)
  · intro hsd (hpos : 0 < m.threads.countP Phase.isAsleep)
    have hle := hs.comes hsd (by omega)
    have hmono : (coming a).toNat ≤ (coming b).toNat := Bool.toNat_le_toNat hc
    exact hle.trans (show _ ≤ m.threads.countP coming by omega)
  · intro hsd
    exact (hs.cancels hsd).imp (fun h => show m.threads.countP _ = 0 by omega) (hstay _)

theorem Safe.shut (hs : Safe s) (hi : s.threads[i]? = some (.locked x)) (hdrain : x ≠ .drain)
    (hset : x ≠ .setShutdown) (hd : s.deleted ≠ []) : s.shutdown = true := by
  rcases hs.deletes hd with h | h | h
  · exact h
  · exact absurd (hs.only hi h).symm hdrain
  · exact absurd (hs.only hi h).symm hset

/-- No thread sleeps on a cancelled queue, but before `Cancel` has woken them. -/
theorem Safe.awake (hs : Safe s) (hi : s.threads[i]? = some (.locked x)) (hx : x ≠ .notifyAll)
    (hsd : s.shutdown = true) : s.threads.countP Phase.isAsleep = 0 :=
  (hs.cancels hsd).resolve_right fun h => hx (hs.only hi h).symm

theorem Safe.resumes_set (hs : Safe s) (hb : ∀ r, b = .asleep r → r = .test) :
    ∀ r, .asleep r ∈ s.threads.set i b → r = .test := by
  intro r hr
  rcases List.mem_or_eq_of_mem_set hr with hr | hr
  · exact hs.resumes r hr
  · exact hb r hr.symm

/-- A section that changes neither the queue nor whether it is cancelled.  The thread that runs it
sleeps only where the queue is empty, and it may stop to come where the others suffice. -/
theorem Safe.ran (hs : Safe s) (hi : s.threads[i]? = some (.locked x)) (hm : m.Owned)
    (ht : m.threads = s.threads.set i b) (hdrain : x ≠ .drain) (hset : x ≠ .setShutdown)
    (hall : x ≠ .notifyAll)
    (hb : ∀ r, b = .asleep r → r = .test ∧ s.queue = [] ∧ s.shutdown = false)
    (hc : s.shutdown = false → coming (.locked x) = true →
      coming b = true ∨ s.queue.length < s.threads.countP coming ∨ s.queue = []) :
    Safe { s with monitor := m } := by
  have hasleep := Monitor.countP_set_add (b := b) Phase.isAsleep hi
  have hcoming := Monitor.countP_set_add (b := b) coming hi
  rw [← ht] at hasleep hcoming
  change m.threads.countP Phase.isAsleep + 0 = _ at hasleep
  refine ⟨hm, ?_, hs.account, fun hd => .inl (hs.shut hi hdrain hset hd), ?_, fun hsd => .inl ?_⟩
  · rw [State.threads, ht]
    exact hs.resumes_set fun r hr => (hb r hr).1
  · intro hsd (hpos : 0 < m.threads.countP Phase.isAsleep)
    change s.queue.length ≤ m.threads.countP coming
    by_cases hq : s.queue = []
    · rw [hq]
      exact Nat.zero_le _
    have hnot : b.isAsleep = false := by
      cases b with
      | asleep r => exact absurd (hb r rfl).2.1 hq
      | _ => rfl
    rw [hnot, Bool.toNat_false, Nat.add_zero] at hasleep
    have hle := hs.comes hsd (by omega)
    cases hx : coming (.locked x) with
    | false =>
      rw [hx, Bool.toNat_false] at hcoming
      omega
    | true =>
      rw [hx, Bool.toNat_true] at hcoming
      rcases hc hsd hx with hcb | hlt | hnil
      · rw [hcb, Bool.toNat_true] at hcoming
        omega
      · omega
      · exact absurd hnil hq
  · have hzero := hs.awake hi hall hsd
    have hnot : b.isAsleep = false := by
      cases b with
      | asleep r => exact absurd ((hb r rfl).2.2.symm.trans hsd) Bool.false_ne_true
      | _ => rfl
    rw [hnot, Bool.toNat_false, Nat.add_zero, hzero] at hasleep
    exact hasleep

theorem popped_answers {answer : Answer T} (h : t.answers = s.answers ++ [(i, answer)]) :
    t.popped = s.popped ++ answer.popped.toList := by
  rw [State.popped, h, List.filterMap_append]
  cases answer <;> rfl

theorem Safe.told (hs : Safe s) {answer : Answer T} (ha : answer.popped = none) :
    Safe { s with answers := s.answers ++ [(i, answer)] } := by
  refine ⟨hs.owned, hs.resumes, ?_, hs.deletes, hs.comes, hs.cancels⟩
  rw [popped_answers (s := s) rfl, ha, Option.toList_none, List.append_nil]
  exact hs.account

theorem Safe.push (hs : Safe s) {value : T} (hi : s.threads[i]? = some (.locked (.push value))) :
    Safe { s with
      queue := s.queue ++ [value], pushed := s.pushed ++ [value]
      monitor := s.monitor.goOn i .notifyOne } := by
  have hasleep := Monitor.countP_set_add (b := .locked .notifyOne) Phase.isAsleep hi
  have hcoming := Monitor.countP_set_add (b := .locked .notifyOne) coming hi
  change _ + 0 = _ + 0 at hasleep
  change _ + 0 = _ + 1 at hcoming
  refine ⟨hs.owned.goOn hi _, hs.resumes_set fun r hr => (by cases hr), ?_, fun hd => .inl ?_,
    ?_, fun hsd => .inl ?_⟩
  · change s.pushed ++ [value] = s.popped ++ s.deleted ++ (s.queue ++ [value])
    rw [hs.account, List.append_assoc (s.popped ++ s.deleted)]
  · exact hs.shut hi (by simp) (by simp) hd
  · intro hsd (hpos : 0 < (s.threads.set i (.locked .notifyOne)).countP Phase.isAsleep)
    change (s.queue ++ [value]).length ≤ (s.threads.set i (.locked .notifyOne)).countP coming
    have hle := hs.comes hsd (by omega)
    rw [List.length_append, List.length_singleton]
    omega
  · change (s.threads.set i (.locked .notifyOne)).countP Phase.isAsleep = 0
    have hzero := hs.awake hi (by simp) hsd
    omega

theorem Safe.popFront (hs : Safe s) (hi : s.threads[i]? = some (.locked x))
    (hx : x = .pop ∨ x = .take) : Safe (s.popFront i) := by
  have hne : x ≠ .drain ∧ x ≠ .setShutdown ∧ x ≠ .notifyAll := by
    rcases hx with rfl | rfl <;> simp
  have hleave : s.shutdown = true ∨ s.queue = [] → Safe (s.answer i .nothing) := by
    intro h
    refine (hs.ran hi (hs.owned.release hi rfl) rfl hne.1 hne.2.1 hne.2.2 (by simp) ?_).told rfl
    intro hsd _
    rcases h with h | h
    · rw [hsd] at h
      cases h
    · exact .inr (.inr h)
  rw [State.popFront]
  split
  · rename_i hq
    exact hleave (.inr hq)
  · rename_i value rest hq
    split
    · rename_i hsd
      exact hleave (.inl hsd)
    · rename_i hsd
      have hsd : s.shutdown = false := by simpa using hsd
      have hnone : s.deleted = [] := by
        by_contra hd
        rw [hs.shut hi hne.1 hne.2.1 hd] at hsd
        cases hsd
      have hasleep := Monitor.countP_set_add (b := .idle) Phase.isAsleep hi
      have hcoming := Monitor.countP_set_add (b := .idle) coming hi
      change _ + 0 = _ + 0 at hasleep
      change _ = _ + 0 at hcoming
      have hone := Bool.toNat_le (coming (.locked x))
      refine ⟨hs.owned.release hi rfl, hs.resumes_set (by simp), ?_, fun hd => absurd hnone hd,
        fun _ hpos => ?_, fun h => ?_⟩
      · rw [popped_answers (s := s) rfl]
        change s.pushed = s.popped ++ [value] ++ s.deleted ++ rest
        rw [hs.account, hnone, hq]
        simp
      · change 0 < (s.threads.set i .idle).countP Phase.isAsleep at hpos
        change rest.length ≤ (s.threads.set i .idle).countP coming
        have hle := hs.comes hsd (by omega)
        rw [hq, List.length_cons] at hle
        omega
      · change s.shutdown = true at h
        rw [hsd] at h
        cases h

theorem Safe.notifyOne (hs : Safe s) (hi : s.threads[i]? = some (.locked .notifyOne))
    {chosen : Option Nat} (hm : s.monitor.notifyOne chosen = some m) :
    Safe { s with monitor := m.leave i } := by
  cases chosen with
  | none =>
    -- Nobody sleeps.
    rw [Monitor.notifyOne] at hm
    split at hm
    · cases hm
    · rename_i hnone
      cases hm
      have hzero : s.threads.countP Phase.isAsleep = 0 := by
        rw [List.countP_eq_zero]
        intro a ha
        simp only [List.any_eq_true, not_exists, not_and] at hnone
        exact hnone a ha
      have hasleep := Monitor.countP_set_add (b := .idle) Phase.isAsleep hi
      change _ + 0 = _ + 0 at hasleep
      refine ⟨hs.owned.release hi rfl, hs.resumes_set (by simp), hs.account,
        fun hd => .inl (hs.shut hi (by simp) (by simp) hd), fun _ hpos => ?_, fun _ => .inl ?_⟩
      · change 0 < (s.threads.set i .idle).countP Phase.isAsleep at hpos
        omega
      · change (s.threads.set i .idle).countP Phase.isAsleep = 0
        omega
  | some j =>
    -- The one that is woken comes in place of the one that leaves.
    obtain ⟨howned, -, r, hj, ht⟩ := hs.owned.wake hm
    have hr : r = .test := hs.resumes r (List.mem_of_getElem? hj)
    subst hr
    have hwoken : Safe { s with monitor := m } := hs.moved hj howned ht rfl rfl fun _ => rfl
    have hlt : s.shutdown = false → s.queue.length < m.threads.countP coming := by
      intro hsd
      have hle := hs.comes hsd (List.countP_pos_iff.mpr ⟨_, List.mem_of_getElem? hj, rfl⟩)
      have hcoming := Monitor.countP_set_add (b := .acquire .test) coming hj
      rw [← ht] at hcoming
      change _ + 0 = s.threads.countP coming + 1 at hcoming
      omega
    have hij : j ≠ i := by
      rintro rfl
      cases hj.symm.trans hi
    have hi' : m.threads[i]? = some (.locked .notifyOne) := by
      rw [ht, List.getElem?_set_ne hij]
      exact hi
    exact hwoken.ran hi' (howned.release hi' rfl) rfl (by simp) (by simp) (by simp) (by simp)
      fun hsd _ => .inr (.inl (hlt hsd))

theorem Safe.drain (hs : Safe s) (hi : s.threads[i]? = some (.locked .drain)) {value : T}
    {rest : List T} (hq : s.queue = value :: rest) :
    Safe { s with queue := rest, deleted := s.deleted ++ [value] } := by
  refine ⟨hs.owned, hs.resumes, ?_, fun _ => .inr (.inl (List.mem_of_getElem? hi)), ?_,
    hs.cancels⟩
  · change s.pushed = s.popped ++ (s.deleted ++ [value]) ++ rest
    rw [hs.account, hq]
    simp
  · intro hsd hpos
    have hle := hs.comes hsd hpos
    rw [hq, List.length_cons] at hle
    exact Nat.le_of_succ_le hle

theorem Safe.drained (hs : Safe s) (hi : s.threads[i]? = some (.locked .drain))
    (hq : s.queue = []) : Safe { s with monitor := s.monitor.goOn i .setShutdown } := by
  have hasleep := Monitor.countP_set_add (b := .locked .setShutdown) Phase.isAsleep hi
  change _ + 0 = _ + 0 at hasleep
  refine ⟨hs.owned.goOn hi _, hs.resumes_set (by simp), hs.account,
    fun _ => .inr (.inr (mem_set_self hi _)), fun _ _ => ?_, fun hsd => .inl ?_⟩
  · change s.queue.length ≤ _
    rw [hq]
    exact Nat.zero_le _
  · change (s.threads.set i (.locked .setShutdown)).countP Phase.isAsleep = 0
    have hzero := hs.awake hi (by simp) hsd
    omega

theorem Safe.setShutdown (hs : Safe s) (hi : s.threads[i]? = some (.locked .setShutdown)) :
    Safe { s with shutdown := true, monitor := s.monitor.goOn i .notifyAll } :=
  ⟨hs.owned.goOn hi _, hs.resumes_set (by simp), hs.account, fun _ => .inl rfl,
    fun hsd => (by cases hsd), fun _ => .inr (mem_set_self hi _)⟩

theorem Safe.notifyAll (hs : Safe s) (hi : s.threads[i]? = some (.locked .notifyAll)) :
    Safe { s with monitor := s.monitor.wakeAll.leave i } := by
  have hi' : s.monitor.wakeAll.threads[i]? = some (.locked .notifyAll) := by
    change (s.threads.map Phase.woken)[i]? = _
    rw [List.getElem?_map, hi]
    rfl
  have hzero : (s.monitor.wakeAll.leave i).threads.countP Phase.isAsleep = 0 := by
    have hasleep := Monitor.countP_set_add (b := .idle) Phase.isAsleep hi'
    have hwoken := Monitor.countP_woken s.threads
    change _ + 0 = (s.threads.map Phase.woken).countP Phase.isAsleep + 0 at hasleep
    exact (Nat.add_right_cancel hasleep).trans hwoken
  refine ⟨hs.owned.wakeAll.release hi' rfl, fun r hr => ?_, hs.account,
    fun hd => .inl (hs.shut hi (by simp) (by simp) hd), fun _ hpos => ?_, fun _ => .inl hzero⟩
  · exact absurd rfl (List.countP_eq_zero.mp hzero _ hr)
  · exact absurd hpos (hzero.symm ▸ lt_irrefl 0)

theorem Safe.proceed (hs : Safe s) (hi : s.threads[i]? = some (.locked x)) {chosen : Option Nat}
    (h : s.proceed i chosen x = some t) : Safe t := by
  cases x with
  | push value => cases h; exact hs.push hi
  | notifyOne =>
    obtain ⟨m, hm, rfl⟩ := Option.map_eq_some_iff.mp h
    exact hs.notifyOne hi hm
  | empty =>
    cases h
    exact (hs.ran hi (hs.owned.release hi rfl) rfl (by simp) (by simp) (by simp) (by simp)
      fun _ hc => by cases hc).told rfl
  | pop => cases h; exact hs.popFront hi (.inl rfl)
  | take => cases h; exact hs.popFront hi (.inr rfl)
  | test =>
    rw [State.proceed] at h
    split at h
    · rename_i hwait
      rw [Bool.and_eq_true, List.isEmpty_iff, Bool.not_eq_true'] at hwait
      cases h
      exact hs.ran hi (hs.owned.release hi rfl) rfl (by simp) (by simp) (by simp)
        (fun r hr => by cases hr; exact ⟨rfl, hwait⟩) fun _ _ => .inr (.inr hwait.1)
    · cases h
      exact hs.ran hi (hs.owned.goOn hi _) rfl (by simp) (by simp) (by simp) (by simp)
        fun _ _ => .inl rfl
  | drain =>
    rw [State.proceed] at h
    split at h
    · rename_i hq
      cases h
      exact hs.drained hi hq
    · rename_i value rest hq
      cases h
      exact hs.drain hi hq
  | setShutdown => cases h; exact hs.setShutdown hi
  | notifyAll => cases h; exact hs.notifyAll hi

theorem act_of_step {a : Act T} (h : step s a = .ok t) : s.act a = some t := by
  rw [step] at h
  split at h
  · rename_i u hu
    cases h
    exact hu
  · cases h

/-- **Every action keeps all of it.** -/
theorem Safe.act (hs : Safe s) {a : Act T} (h : step s a = .ok t) : Safe t := by
  have h := act_of_step h
  cases a with
  | call i function =>
    obtain ⟨m, hm, rfl⟩ := Option.map_eq_some_iff.mp h
    obtain ⟨howned, hi, ht⟩ := hs.owned.call hm
    exact hs.moved hi howned ht rfl rfl fun hc => by cases hc
  | enter i =>
    obtain ⟨m, hm, rfl⟩ := Option.map_eq_some_iff.mp h
    obtain ⟨howned, next, hi, ht⟩ := hs.owned.enter hm
    refine hs.moved hi howned ht rfl rfl fun hc => ?_
    cases next <;> first | rfl | cases hc
  | proceed i chosen =>
    rw [State.act] at h
    split at h
    · rename_i current hi
      exact hs.proceed hi h
    · cases h
  | spurious i =>
    obtain ⟨m, hm, rfl⟩ := Option.map_eq_some_iff.mp h
    obtain ⟨howned, -, r, hi, ht⟩ := hs.owned.wake hm
    exact hs.moved hi howned ht rfl rfl fun hc => by cases hc

theorem safe_run (n : Nat) {as : List (Act T)} (h : run step (.new n) as = .ok s) : Safe s :=
  run_invariant (fun _ _ _ hs h => hs.act h) as _ _ (safe_new n) h

/-! ### What becomes of the values -/

/-- Once the queue is cancelled, or a value is deleted, nothing is popped. -/
theorem Safe.popped_step (hs : Safe s) (hend : s.shutdown = true ∨ s.deleted ≠ []) {a : Act T}
    (h : step s a = .ok t) : (t.shutdown = true ∨ t.deleted ≠ []) ∧ t.popped = s.popped := by
  have h := act_of_step h
  cases a with
  | call i function | enter i | spurious i =>
    obtain ⟨m, -, rfl⟩ := Option.map_eq_some_iff.mp h
    exact ⟨hend, rfl⟩
  | proceed i chosen =>
    rw [State.act] at h
    split at h
    · rename_i x hi
      have hpop : x = .pop ∨ x = .take → (s.popFront i).popped = s.popped ∧
          (s.popFront i).shutdown = s.shutdown ∧ (s.popFront i).deleted = s.deleted := by
        intro hx
        have hsd : s.shutdown = true := by
          refine hend.elim id fun hd => ?_
          rcases hx with rfl | rfl <;> exact hs.shut hi (by simp) (by simp) hd
        have hnothing : (s.answer i .nothing).popped = s.popped :=
          (popped_answers rfl).trans (List.append_nil _)
        rw [State.popFront]
        split
        · exact ⟨hnothing, rfl, rfl⟩
        · rw [if_pos hsd]
          exact ⟨hnothing, rfl, rfl⟩
      cases x with
      | push value => cases h; exact ⟨hend, rfl⟩
      | notifyOne =>
        obtain ⟨m, -, rfl⟩ := Option.map_eq_some_iff.mp h
        exact ⟨hend, rfl⟩
      | empty =>
        cases h
        exact ⟨hend, (popped_answers rfl).trans (List.append_nil _)⟩
      | pop =>
        cases h
        obtain ⟨hp, hsd, hd⟩ := hpop (.inl rfl)
        exact ⟨by rw [hsd, hd]; exact hend, hp⟩
      | take =>
        cases h
        obtain ⟨hp, hsd, hd⟩ := hpop (.inr rfl)
        exact ⟨by rw [hsd, hd]; exact hend, hp⟩
      | test =>
        rw [State.proceed] at h
        split at h <;> cases h <;> exact ⟨hend, rfl⟩
      | drain =>
        rw [State.proceed] at h
        split at h <;> cases h
        · exact ⟨hend, rfl⟩
        · exact ⟨.inr (by simp), rfl⟩
      | setShutdown => cases h; exact ⟨.inl rfl, rfl⟩
      | notifyAll => cases h; exact ⟨hend, rfl⟩
    · cases h

/-- **Each value pushed is popped once, deleted once or still queued**, in the order in which they
were pushed.  What is popped was pushed before all that is deleted, and none is popped once the
queue is cancelled or a value is deleted. -/
theorem run_account (n : Nat) {as bs : List (Act T)} (h : run step (.new n) as = .ok s)
    (ht : run step s bs = .ok t) :
    s.pushed = s.popped ++ s.deleted ++ s.queue ∧
      (s.shutdown = true ∨ s.deleted ≠ [] → t.popped = s.popped) := by
  have hs := safe_run n h
  refine ⟨hs.account, fun hend => ?_⟩
  refine (run_invariant (I := fun t => Safe t ∧ (t.shutdown = true ∨ t.deleted ≠ []) ∧
    t.popped = s.popped) ?_ bs s t ⟨hs, hend, rfl⟩ ht).2.2
  rintro u a v ⟨hu, hend, hp⟩ hv
  obtain ⟨hend', hp'⟩ := hu.popped_step hend hv
  exact ⟨hu.act hv, hend', hp'.trans hp⟩

/-- One thread waits and gets what the other pushes, which then pushes again and cancels. -/
def handover : List (Act Nat) :=
  [.call 0 .waitAndPop, .enter 0, .proceed 0 none, .call 1 (.push 7), .enter 1, .proceed 1 none,
    .proceed 1 (some 0), .enter 0, .proceed 0 none, .proceed 0 none, .call 1 (.push 8), .enter 1,
    .proceed 1 none, .proceed 1 none, .call 1 .cancel, .enter 1, .proceed 1 none,
    .proceed 1 none, .proceed 1 none, .proceed 1 none]

def handedOver : State Nat :=
  { monitor := ⟨none, [.idle, .idle]⟩, queue := [], shutdown := true, pushed := [7, 8]
    deleted := [8], answers := [(0, .value 7)] }

/-- A `Pop` after the end gets nothing. -/
theorem run_account_handover : handedOver.pushed = [7] ++ [8] ++ [] ∧
    ({ handedOver with answers := [(0, .value 7), (0, .nothing)] } : State Nat).popped = [7] := by
  have h : run step (.new 2) handover = .ok handedOver := rfl
  have ht : run step handedOver [.call 0 .pop, .enter 0, .proceed 0 none] =
      .ok { handedOver with answers := [(0, .value 7), (0, .nothing)] } := rfl
  exact (run_account 2 h ht).imp id fun hp => hp (.inl rfl)

/-! ### How much the threads do -/

/-- How many steps a section leads to at most, with `n` threads.  Those of a thread that it wakes
are among them, and for `push` the one of `drain` that deletes the value. -/
def weight (n : Nat) : Section T → Nat
  | .empty | .pop | .take => 1
  | .test => 2
  | .notifyOne => 4
  | .push _ => 6
  | .notifyAll => 3 * n + 1
  | .setShutdown => 3 * n + 2
  | .drain => 3 * n + 3

def load (n : Nat) : Phase (Section T) → Nat
  | .idle | .asleep _ => 0
  | .acquire next => weight n next + 1
  | .locked current => weight n current

/-- What is still to be done by the calls under way. -/
def rank (n : Nat) (s : State T) : Nat := s.queue.length + (s.threads.map (load n)).sum

namespace Act

/-- A step of a call under way. -/
def isInside : Act T → Bool
  | .enter _ | .proceed _ _ => true
  | _ => false

def isCall : Act T → Bool
  | .call _ _ => true
  | _ => false

def isSpurious : Act T → Bool
  | .spurious _ => true
  | _ => false

/-- What an action brings in. -/
def brings (n : Nat) : Act T → Nat
  | .call _ _ => 3 * n + 7
  | .spurious _ => 3
  | _ => 0

end Act

theorem weight_first (n : Nat) (function : Call T) : weight n function.first + 1 ≤ 3 * n + 7 := by
  cases function <;> simp only [Call.first, weight] <;> omega

theorem rank_lt (n : Nat) (hi : s.threads[i]? = some a) (ht : t.threads = s.threads.set i b)
    (hle : t.queue.length + load n b < s.queue.length + load n a) :
    t.threads.length = s.threads.length ∧ rank n t < rank n s := by
  have hsum := Monitor.sum_map_set (b := b) (load n) hi
  rw [rank, rank, ht, List.length_set]
  exact ⟨rfl, by omega⟩

theorem popFront_threads (s : State T) (i : Nat) : (s.popFront i).threads = s.threads.set i .idle ∧
    (s.popFront i).queue.length ≤ s.queue.length := by
  rw [State.popFront]
  split
  · rename_i hq
    exact ⟨rfl, by simp [State.answer]⟩
  · rename_i value rest hq
    split
    · exact ⟨rfl, le_refl _⟩
    · rw [hq]
      exact ⟨rfl, Nat.le_succ _⟩

theorem Safe.rank_notifyOne (hs : Safe s) (n : Nat) (hi : s.threads[i]? = some (.locked .notifyOne))
    {chosen : Option Nat} (hm : s.monitor.notifyOne chosen = some m) :
    (m.leave i).threads.length = s.threads.length ∧
      rank n { s with monitor := m.leave i } < rank n s := by
  cases chosen with
  | none =>
    rw [Monitor.notifyOne] at hm
    split at hm
    · cases hm
    · cases hm
      refine rank_lt (t := { s with monitor := s.monitor.leave i }) (b := .idle) n hi rfl ?_
      simp [load, weight]
  | some j =>
    obtain ⟨-, -, r, hj, ht⟩ := hs.owned.wake hm
    have hr : r = .test := hs.resumes r (List.mem_of_getElem? hj)
    subst hr
    have hij : j ≠ i := by
      rintro rfl
      cases hj.symm.trans hi
    have hi' : m.threads[i]? = some (.locked .notifyOne) := by
      rw [ht, List.getElem?_set_ne hij]
      exact hi
    have hwake := Monitor.sum_map_set (b := .acquire .test) (load n) hj
    have hleave := Monitor.sum_map_set (b := .idle) (load n) hi'
    rw [ht] at hleave
    simp only [load, weight] at hwake hleave
    refine ⟨?_, ?_⟩
    · rw [Monitor.leave, List.length_set, ht, List.length_set]
      rfl
    · change s.queue.length + ((m.threads.set i .idle).map (load n)).sum < rank n s
      rw [rank, ht]
      simp only [State.threads] at *
      omega

theorem Safe.rank_notifyAll (hs : Safe s) (hi : s.threads[i]? = some (.locked .notifyAll)) :
    (s.monitor.wakeAll.leave i).threads.length = s.threads.length ∧
      rank s.threads.length { s with monitor := s.monitor.wakeAll.leave i } <
        rank s.threads.length s := by
  have hi' : (s.threads.map Phase.woken)[i]? = some (.locked .notifyAll) := by
    rw [List.getElem?_map, hi]
    rfl
  have hleave := Monitor.sum_map_set (b := .idle) (load s.threads.length) hi'
  have hwoken : ∀ a ∈ s.threads, load s.threads.length a.woken ≤ load s.threads.length a + 3 := by
    intro a ha
    cases a with
    | asleep r =>
      rw [hs.resumes r ha]
      exact le_refl _
    | _ => exact Nat.le_add_right _ _
  have hwake := Monitor.sum_map_woken (load s.threads.length) 3 hwoken
  simp only [load, weight] at hleave
  refine ⟨?_, ?_⟩
  · change ((s.threads.map Phase.woken).set i .idle).length = _
    rw [List.length_set, List.length_map]
  · change s.queue.length + (((s.threads.map Phase.woken).set i .idle).map _).sum < rank _ s
    rw [rank]
    omega

theorem Safe.rank_proceed (hs : Safe s) (hi : s.threads[i]? = some (.locked x))
    {chosen : Option Nat} (h : s.proceed i chosen x = some t) :
    t.threads.length = s.threads.length ∧
      rank s.threads.length t < rank s.threads.length s := by
  have hpop : x = .pop ∨ x = .take → t = s.popFront i → t.threads.length = s.threads.length ∧
      rank s.threads.length t < rank s.threads.length s := by
    rintro hx rfl
    obtain ⟨ht, hq⟩ := popFront_threads s i
    refine rank_lt _ hi ht ?_
    rcases hx with rfl | rfl <;> simp only [load, weight] <;> omega
  cases x with
  | push value =>
    cases h
    refine rank_lt (b := .locked .notifyOne) _ hi rfl ?_
    simp only [load, weight, List.length_append, List.length_singleton]
    omega
  | notifyOne =>
    obtain ⟨m, hm, rfl⟩ := Option.map_eq_some_iff.mp h
    exact hs.rank_notifyOne _ hi hm
  | empty =>
    cases h
    exact rank_lt (b := .idle) _ hi rfl (Nat.lt_succ_self _)
  | pop => cases h; exact hpop (.inl rfl) rfl
  | take => cases h; exact hpop (.inr rfl) rfl
  | test =>
    rw [State.proceed] at h
    split at h <;> cases h
    · exact rank_lt (b := .asleep .test) _ hi rfl (by simp [load, weight])
    · exact rank_lt (b := .locked .take) _ hi rfl (by simp [load, weight])
  | drain =>
    rw [State.proceed] at h
    split at h <;> cases h
    · exact rank_lt (b := .locked .setShutdown) _ hi rfl (by simp [load, weight])
    · rename_i value rest hq
      refine ⟨rfl, ?_⟩
      rw [rank, rank, hq]
      exact Nat.add_lt_add_right (Nat.lt_succ_self _) _
  | setShutdown =>
    cases h
    exact rank_lt (b := .locked .notifyAll) _ hi rfl (by simp [load, weight])
  | notifyAll => cases h; exact hs.rank_notifyAll hi

/-- **A step of a call lowers the rank**, and nothing else raises it by more than it brings in. -/
theorem Safe.rank_act (hs : Safe s) {a : Act T} (h : step s a = .ok t) :
    t.threads.length = s.threads.length ∧
      rank s.threads.length t + (if a.isInside then 1 else 0) ≤
        rank s.threads.length s + a.brings s.threads.length := by
  have h := act_of_step h
  cases a with
  | call i function =>
    obtain ⟨m, hm, rfl⟩ := Option.map_eq_some_iff.mp h
    obtain ⟨-, hi, ht⟩ := hs.owned.call hm
    change s.threads[i]? = _ at hi
    change _ = s.threads.set i _ at ht
    have hsum := Monitor.sum_map_set (b := .acquire function.first) (load s.threads.length) hi
    have hle := weight_first s.threads.length function
    rw [← ht] at hsum
    refine ⟨(congrArg List.length ht).trans (List.length_set ..), ?_⟩
    change s.queue.length + (m.threads.map _).sum + 0 ≤ rank _ s + (3 * s.threads.length + 7)
    simp only [load] at hsum
    rw [rank]
    omega
  | enter i =>
    obtain ⟨m, hm, rfl⟩ := Option.map_eq_some_iff.mp h
    obtain ⟨-, next, hi, ht⟩ := hs.owned.enter hm
    exact rank_lt _ hi ht (Nat.lt_succ_self _)
  | proceed i chosen =>
    rw [State.act] at h
    split at h
    · rename_i current hi
      exact hs.rank_proceed hi h
    · cases h
  | spurious i =>
    obtain ⟨m, hm, rfl⟩ := Option.map_eq_some_iff.mp h
    obtain ⟨-, -, r, hi, ht⟩ := hs.owned.wake hm
    have hr : r = .test := hs.resumes r (List.mem_of_getElem? hi)
    subst hr
    change s.threads[i]? = _ at hi
    change _ = s.threads.set i _ at ht
    have hsum := Monitor.sum_map_set (b := .acquire .test) (load s.threads.length) hi
    rw [← ht] at hsum
    refine ⟨(congrArg List.length ht).trans (List.length_set ..), ?_⟩
    change s.queue.length + (m.threads.map _).sum + 0 ≤ rank _ s + 3
    simp only [load, weight] at hsum
    rw [rank]
    omega

/-! ### Who can go on -/

theorem proceed_possible (s : State T) (i : Nat) (x : Section T) :
    ∃ chosen t, s.proceed i chosen x = some t := by
  cases x with
  | notifyOne =>
    cases hany : s.monitor.threads.any Phase.isAsleep with
    | false => exact ⟨none, by simp [State.proceed, Monitor.notifyOne, hany]⟩
    | true =>
      obtain ⟨a, ha, hasleep⟩ := List.any_eq_true.mp hany
      obtain ⟨j, hj⟩ := List.getElem?_of_mem ha
      cases a with
      | asleep r => exact ⟨some j, by simp [State.proceed, Monitor.notifyOne, Monitor.wake, hj]⟩
      | _ => cases hasleep
  | test | drain =>
    refine ⟨none, ?_⟩
    rw [State.proceed]
    split <;> exact ⟨_, rfl⟩
  | _ => exact ⟨none, _, rfl⟩

/-- **No call is stuck**, but a `WaitAndPop` on an empty queue that is not cancelled. -/
theorem Safe.goesOn (hs : Safe s) : (∃ a t, Act.isInside a = true ∧ step s a = .ok t) ∨
    ∀ b ∈ s.threads, b = .idle ∨ b = .asleep .test ∧ s.queue = [] ∧ s.shutdown = false := by
  by_cases hbusy : ∃ b ∈ s.monitor.threads, b.isQuiet = false
  · refine .inl ?_
    rcases hs.owned.goesOn hbusy with ⟨i, x, hi⟩ | ⟨hown, i, next, hi⟩
    · obtain ⟨chosen, t, ht⟩ := proceed_possible s i x
      exact ⟨.proceed i chosen, t, rfl, by simp [step, State.act, State.threads, hi, ht]⟩
    · exact ⟨.enter i, _, rfl, by rw [step, State.act, Monitor.enter, hown, hi]; rfl⟩
  · refine .inr fun b hb => ?_
    have hquiet : ∀ c ∈ s.threads, c.isQuiet = true := by
      intro c hc
      cases h : c.isQuiet with
      | true => rfl
      | false => exact absurd ⟨c, hc, h⟩ hbusy
    have hnone : s.threads.countP coming = 0 := by
      rw [List.countP_eq_zero]
      intro c hc
      have := hquiet c hc
      cases c with
      | idle | asleep r => exact Bool.false_ne_true
      | acquire y | locked y => cases this
    cases b with
    | idle => exact .inl rfl
    | asleep r =>
      have hpos : 0 < s.threads.countP Phase.isAsleep := List.countP_pos_iff.mpr ⟨_, hb, rfl⟩
      have hsd : s.shutdown = false := by
        cases hsd : s.shutdown with
        | false => rfl
        | true =>
          rcases hs.cancels hsd with h | h
          · omega
          · cases hquiet _ h
      have hle := hs.comes hsd hpos
      rw [hnone] at hle
      rw [hs.resumes r hb]
      exact .inr ⟨rfl, List.length_eq_zero_iff.mp (Nat.le_zero.mp hle), hsd⟩
    | acquire y => cases hquiet _ hb
    | locked y => cases hquiet _ hb

theorem sum_brings (n : Nat) : ∀ as : List (Act T), (as.map (Act.brings n)).sum =
    (3 * n + 7) * as.countP Act.isCall + 3 * as.countP Act.isSpurious := by
  intro as
  induction as with
  | nil => rfl
  | cons a as ih =>
    rw [List.map_cons, List.sum_cons, List.countP_cons, List.countP_cons, ih]
    cases a <;> simp [Act.brings, Act.isCall, Act.isSpurious, Nat.mul_add_one] <;> omega

/-- **Every call returns**, except a `WaitAndPop` on an empty queue that is not cancelled.  In any
run the threads take a bounded number of steps for each call and each spurious wakeup, and
at its end one of them can take another step, unless each is at rest or in such a wait. -/
theorem run_settles (n : Nat) {as : List (Act T)} (h : run step (.new n) as = .ok s) :
    as.countP Act.isInside ≤ (3 * n + 7) * as.countP Act.isCall + 3 * as.countP Act.isSpurious ∧
      ((∃ a t, Act.isInside a = true ∧ step s a = .ok t) ∨
        ∀ b ∈ s.threads, b = .idle ∨ b = .asleep .test ∧ s.queue = [] ∧ s.shutdown = false) := by
  refine ⟨?_, (safe_run n h).goesOn⟩
  have hstep : ∀ (u : State T) (a : Act T) (v : State T), (Safe u ∧ u.threads.length = n) → True →
      step u a = .ok v → (Safe v ∧ v.threads.length = n) ∧
        rank n v + (if a.isInside then 1 else 0) ≤ rank n u + a.brings n := by
    rintro u a v ⟨hu, hn⟩ - hv
    obtain ⟨hlen, hle⟩ := hu.rank_act hv
    rw [hn] at hlen hle
    exact ⟨⟨hu.act hv, hlen⟩, hle⟩
  have hstart : (State.new n : State T).threads.length = n := by
    simp [State.new, State.threads, Monitor.new]
  have hzero : rank n (State.new n : State T) = 0 := by
    simp [rank, State.new, State.threads, Monitor.new, load]
  have hle := tally_le_potential hstep as _ s ⟨safe_new n, hstart⟩
    (each_of_forall as _ fun _ _ _ => trivial) h
  rw [tally_eq_countP as _ s h, sum_brings, hzero, Nat.zero_add] at hle
  exact Nat.le_of_add_left_le hle

theorem run_settles_handover : handover.countP Act.isInside = 16 ∧
    handover.countP Act.isInside ≤ 13 * 4 + 3 * 0 ∧ ∀ b ∈ handedOver.threads, b = .idle := by
  have h : run step (.new 2) handover = .ok handedOver := rfl
  obtain ⟨hle, -⟩ := run_settles 2 h
  exact ⟨by decide, hle, by decide⟩

end Steps

end WarheadDiscord.ProducerConsumerQueue
