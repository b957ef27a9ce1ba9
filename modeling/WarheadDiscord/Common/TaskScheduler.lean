import Mathlib.Algebra.Order.Ring.Int
import WarheadDiscord.Common.Fault
import WarheadDiscord.Lib.Machine
import WarheadDiscord.Lib.SortedInsert

/-!
# `TaskScheduler`

The scheduler with its queue of tasks and its queue of asyncs.  A `Task` is an object
of its own that the queue and the contexts point to: `heap` has all of them, and a
task is named by its place there.  The queue is the in-order list of the multiset, which
an insertion searches for the first greater `_end`.

Callables, task callbacks and the validator are not part of the scheduler.  One call into
it is one step, and so is each turn of the loops of `Dispatch`; `Control` says where
`Dispatch` is.  While a callback runs, the steps are what it does.

Time points and durations are integers, without the bounds of `std::chrono`.
-/

namespace WarheadDiscord

open Lib

namespace TaskScheduler

/-- `TaskScheduler::Task`, with a handler of type `κ`. -/
structure Task (κ : Type) where
  /-- `_end`. -/
  ends : Int
  duration : Int
  group : Option UInt32
  repeated : UInt32
  task : κ
  deriving DecidableEq, Repr

namespace Task

variable {κ : Type}

/-- The constructor with all arguments. -/
def new (ends duration : Int) (group : Option UInt32) (repeated : UInt32) (task : κ) : Task κ :=
  ⟨ends, duration, group, repeated, task⟩

def isInGroup (t : Task κ) (group : UInt32) : Bool := t.group == some group

end Task

/-- An element of the queue: the task, and for the proofs the number of its insertion and
whether `ModifyIf` has taken it out and in again. -/
structure Entry where
  task : Nat
  stamp : Nat
  moved : Bool
  deriving DecidableEq, Repr

/-- The element as `ModifyIf` puts it back. -/
def Entry.again (e : Entry) : Entry := { e with moved := true }

/-- What the copies of one `TaskContext` share. -/
structure Context where
  task : Nat
  consumed : Bool
  deriving DecidableEq, Repr

/-- The loops of `Dispatch`, each of which goes on only if the validator says so. -/
inductive Loop where
  | asyncs
  | tasks
  deriving DecidableEq, Repr

/-- Where `Dispatch` is. -/
inductive Control where
  /-- No `Dispatch` runs. -/
  | idle
  /-- It asks the validator, and then goes on with the loop. -/
  | validating (loop : Loop)
  /-- It is at the head of a loop. -/
  | looping (loop : Loop)
  /-- A callable runs; `cancelled` says whether it has called `CancelAll`. -/
  | async (callable : Nat) (cancelled : Bool)
  /-- The callback of a task runs, with the context of this number. -/
  | task (context : Nat)
  /-- The final callback runs. -/
  | finishing
  deriving DecidableEq, Repr

/-- A callable that runs while `CancelAll` is called. -/
def Control.afterCancel : Control → Control
  | async callable _ => async callable true
  | c => c

/-- One element of the queue, with the `_end` that it has when the queue is searched. -/
structure Probe where
  entry : Entry
  ends : Int
  deriving DecidableEq, Repr

/-- A task that is popped and invoked. -/
structure Invocation where
  entry : Entry
  ends : Int
  repeated : UInt32
  now : Int
  /-- What is left in the queue. -/
  behind : List Probe
  deriving DecidableEq, Repr

/-- What has happened: for the proofs only. -/
structure History where
  /-- The elements that were inserted. -/
  inserted : List Entry
  invocations : List Invocation
  /-- The elements that a cancel removed. -/
  cancelled : List Entry
  /-- The queue at each search and at each `First` and `Pop`. -/
  probes : List (List Probe)
  invokedAsyncs : List Nat
  /-- The callables that `CancelAll` removed before they were invoked. -/
  cancelledAsyncs : List Nat
  deriving DecidableEq, Repr

structure State (κ : Type) where
  now : Int
  heap : List (Task κ)
  /-- `_task_holder`. -/
  queue : List Entry
  contexts : List Context
  /-- `_asyncHolder`: the numbers of the callables. -/
  asyncHolder : List Nat
  /-- How many callables there were so far. -/
  asyncs : Nat
  control : Control
  history : History
  deriving DecidableEq, Repr

variable {κ : Type}

/-- `TaskScheduler()`. -/
def new (now : Int) : State κ :=
  ⟨now, [], [], [], [], 0, .idle, ⟨[], [], [], [], [], []⟩⟩

namespace State

/-- The `_end` of a task. -/
def endOf (s : State κ) (task : Nat) : Int :=
  match s.heap[task]? with
  | some t => t.ends
  | none => 0

/-- The queue as a search sees it. -/
def probe (s : State κ) : List Probe := s.queue.map fun e => ⟨e, s.endOf e.task⟩

def observe (s : State κ) : State κ :=
  { s with history := { s.history with probes := s.history.probes ++ [s.probe] } }

/-! ### `TaskQueue` -/

/-- `Push`: `container.insert(task)`. -/
def push (s : State κ) (e : Entry) : State κ :=
  { s.observe with queue := insertSorted (fun x => s.endOf x.task) e s.queue }

def clear (s : State κ) : State κ :=
  { s with queue := [], history := { s.history with cancelled := s.history.cancelled ++ s.queue } }

/-- What a filter says of an element. -/
def filterOf (s : State κ) (filter : Task κ → Bool) (e : Entry) : Bool :=
  s.heap[e.task]?.any filter

def removeIf (s : State κ) (filter : Task κ → Bool) : State κ :=
  { s with
    queue := s.queue.filter fun e => !s.filterOf filter e
    history := { s.history with
      cancelled := s.history.cancelled ++ s.queue.filter (s.filterOf filter) } }

/-- The loop of `ModifyIf`.  The filter changes a task in its place or says no; the result is the
heap, the cache and what is left in the container. -/
def modifyLoop (filter : Task κ → Option (Task κ)) (heap : List (Task κ)) :
    List Entry → List (Task κ) × List Entry × List Entry
  | [] => (heap, [], [])
  | e :: es =>
    match heap[e.task]?.bind filter with
    | some t =>
      let r := modifyLoop filter (heap.set e.task t) es
      (r.1, e :: r.2.1, r.2.2)
    | none =>
      let r := modifyLoop filter heap es
      (r.1, r.2.1, e :: r.2.2)

def modifyIf (s : State κ) (filter : Task κ → Option (Task κ)) : State κ :=
  let r := modifyLoop filter s.heap s.queue
  r.2.1.foldl (fun s e => s.push e.again) { s with heap := r.1, queue := r.2.2 }

/-! ### The functions of the scheduler -/

def insertTask (s : State κ) (task : Nat) : State κ :=
  let e : Entry := ⟨task, s.history.inserted.length, false⟩
  { s.push e with
    history := { (s.push e).history with inserted := (s.push e).history.inserted ++ [e] } }

/-- `ScheduleAt`, both with a group and without one. -/
def scheduleAt (s : State κ) (ends time : Int) (group : Option UInt32) (task : κ) : State κ :=
  insertTask { s with heap := s.heap ++ [Task.new (ends + time) time group 0 task] } s.heap.length

def async (s : State κ) : State κ :=
  { s with asyncHolder := s.asyncHolder ++ [s.asyncs], asyncs := s.asyncs + 1 }

/-- The callables that wait, without the one that runs. -/
def waiting (s : State κ) : List Nat :=
  match s.control with
  | .async _ false => s.asyncHolder.tail
  | _ => s.asyncHolder

def cancelAll (s : State κ) : State κ :=
  { s.clear with
    asyncHolder := []
    control := s.control.afterCancel
    history := { s.clear.history with
      cancelledAsyncs := s.history.cancelledAsyncs ++ s.waiting } }

def cancelGroup (s : State κ) (group : UInt32) : State κ := s.removeIf (·.isInGroup group)

def cancelGroupsOf (s : State κ) (groups : List UInt32) : State κ := groups.foldl cancelGroup s

def delayAll (s : State κ) (duration : Int) : State κ :=
  s.modifyIf fun t => some { t with ends := t.ends + duration }

def delayGroup (s : State κ) (group : UInt32) (duration : Int) : State κ :=
  s.modifyIf fun t => if t.isInGroup group then some { t with ends := t.ends + duration } else none

def rescheduleAll (s : State κ) (duration : Int) : State κ :=
  s.modifyIf fun t => some { t with ends := s.now + duration }

def rescheduleGroup (s : State κ) (group : UInt32) (duration : Int) : State κ :=
  s.modifyIf fun t => if t.isInGroup group then some { t with ends := s.now + duration } else none

end State

/-- A call of a function of the scheduler. -/
inductive Op (κ : Type) where
  | async
  | schedule (time : Int) (group : Option UInt32) (task : κ)
  | cancelAll
  | cancelGroup (group : UInt32)
  | cancelGroupsOf (groups : List UInt32)
  | delayAll (duration : Int)
  | delayGroup (group : UInt32) (duration : Int)
  | rescheduleAll (duration : Int)
  | rescheduleGroup (group : UInt32) (duration : Int)
  deriving DecidableEq, Repr

def State.apply (s : State κ) : Op κ → State κ
  | .async => s.async
  | .schedule time group task => s.scheduleAt s.now time group task
  | .cancelAll => s.cancelAll
  | .cancelGroup group => s.cancelGroup group
  | .cancelGroupsOf groups => s.cancelGroupsOf groups
  | .delayAll duration => s.delayAll duration
  | .delayGroup group duration => s.delayGroup group duration
  | .rescheduleAll duration => s.rescheduleAll duration
  | .rescheduleGroup group duration => s.rescheduleGroup group duration

/-! ### `TaskContext` -/

/-- A call of a function of a `TaskContext`.  Its `RescheduleAll` does not compile. -/
inductive ContextOp (κ : Type) where
  /-- `Repeat(duration)`, and `Repeat()` without one. -/
  | repeat (duration : Option Int)
  | schedule (time : Int) (group : Option UInt32) (task : κ)
  | setGroup (group : UInt32)
  | clearGroup
  | async
  | cancelAll
  | cancelGroup (group : UInt32)
  | cancelGroupsOf (groups : List UInt32)
  | delayAll (duration : Int)
  | delayGroup (group : UInt32) (duration : Int)
  | rescheduleGroup (group : UInt32) (duration : Int)
  deriving DecidableEq, Repr

namespace State

/-- A task object with one of its fields set. -/
def modifyTask (s : State κ) (task : Nat) (f : Task κ → Task κ) : State κ :=
  { s with heap := s.heap.modify task f }

/-- What `Repeat` does to the task. -/
def repeatTask (duration : Option Int) (t : Task κ) : Task κ :=
  let d := duration.getD t.duration
  { t with duration := d, ends := t.ends + d, repeated := t.repeated + 1 }

/-- `Repeat` of the context `i`, which is `c`. -/
def repeat_ (s : State κ) (i : Nat) (c : Context) (duration : Option Int) :
    Except Fault (State κ) :=
  if c.consumed then
    .error (.assertion
      "!(*_consumed) && \"Bad task logic, task context was consumed already!\"")
  else
    .ok (insertTask { s.modifyTask c.task (repeatTask duration) with
      contexts := s.contexts.set i { c with consumed := true } } c.task)

/-- A function of the context `i`, which is `c`. -/
def applyContext (s : State κ) (i : Nat) (c : Context) : ContextOp κ → Except Fault (State κ)
  | .repeat duration => s.repeat_ i c duration
  | .schedule time group task => .ok (s.scheduleAt (s.endOf c.task) time group task)
  | .setGroup group => .ok (s.modifyTask c.task fun t => { t with group := some group })
  | .clearGroup => .ok (s.modifyTask c.task fun t => { t with group := none })
  | .async => .ok s.async
  | .cancelAll => .ok s.cancelAll
  | .cancelGroup group => .ok (s.cancelGroup group)
  | .cancelGroupsOf groups => .ok (s.cancelGroupsOf groups)
  | .delayAll duration => .ok (s.delayAll duration)
  | .delayGroup group duration => .ok (s.delayGroup group duration)
  | .rescheduleGroup group duration => .ok (s.rescheduleGroup group duration)

/-! ### `Dispatch` -/

/-- The head of the loop over the asyncs: the first one is invoked in its place. -/
def nextAsync (s : State κ) : State κ :=
  match s.asyncHolder with
  | [] => { s with control := .looping .tasks }
  | callable :: _ =>
    { s with
      control := .async callable false
      history := { s.history with invokedAsyncs := s.history.invokedAsyncs ++ [callable] } }

/-- The invocation of `e`, with `rest` behind it. -/
def invocation (s : State κ) (e : Entry) (rest : List Entry) : Invocation where
  entry := e
  ends := s.endOf e.task
  repeated := (s.heap[e.task]?.map (·.repeated)).getD 0
  now := s.now
  behind := rest.map fun x => ⟨x, s.endOf x.task⟩

/-- `Pop`, and `Invoke` of a context for the task. -/
def invoke (s : State κ) (e : Entry) (rest : List Entry) : State κ :=
  { s with
    queue := rest
    contexts := s.contexts ++ [⟨e.task, false⟩]
    control := .task s.contexts.length
    history := { s.history with
      invocations := s.history.invocations ++ [s.invocation e rest] } }

/-- The head of the loop over the tasks. -/
def nextTask (s : State κ) : State κ :=
  match s.queue with
  | [] => { s with control := .finishing }
  | e :: rest =>
    if s.now < s.endOf e.task then { s.observe with control := .finishing }
    else s.observe.invoke e rest

/-- `_asyncHolder.pop()`. -/
def popAsync (s : State κ) : Except Fault (State κ) :=
  match s.asyncHolder with
  | [] => .error (.undefinedBehaviour "pop of an empty queue")
  | _ :: rest => .ok { s with asyncHolder := rest, control := .validating .asyncs }

/-- What runs returns to `Dispatch`, or `Dispatch` to its caller. -/
def returns (s : State κ) : Except Fault (State κ) :=
  match s.control with
  | .async _ _ => s.popAsync
  | .task _ => .ok { s with control := .validating .tasks }
  | .finishing => .ok { s with control := .idle }
  | _ => .ok s

end State

inductive Act (κ : Type) where
  /-- `Update(difftime)`; `Update()` takes the clock, which may have come to any time. -/
  | update (difftime : Int)
  /-- The validator answers. -/
  | validate (result : Bool)
  /-- `Dispatch` looks at the head of its loop. -/
  | next
  /-- A function of the scheduler is called. -/
  | op (o : Op κ)
  /-- A function of the context with this number, or of a copy of it, is called. -/
  | contextOp (i : Nat) (o : ContextOp κ)
  | returns
  deriving DecidableEq, Repr

/-- One step.  One that `Dispatch` is not ready for does nothing. -/
def step (s : State κ) : Act κ → Except Fault (State κ)
  | .update difftime =>
    match s.control with
    | .idle => .ok { s with now := s.now + difftime, control := .validating .asyncs }
    | _ => .ok s
  | .validate result =>
    match s.control with
    | .validating loop => .ok { s with control := if result then .looping loop else .idle }
    | _ => .ok s
  | .next =>
    match s.control with
    | .looping .asyncs => .ok s.nextAsync
    | .looping .tasks => .ok s.nextTask
    | _ => .ok s
  | .op o => .ok (s.apply o)
  | .contextOp i o =>
    match s.contexts[i]? with
    | some c => s.applyContext i c o
    | none => .ok s
  | .returns => s.returns

/-! ### The cases of a step -/

/-- There is nothing that the action could go on with. -/
def State.ignores (s : State κ) : Act κ → Bool
  | .update _ => s.control ≠ .idle
  | .validate _ =>
    match s.control with
    | .validating _ => false
    | _ => true
  | .next =>
    match s.control with
    | .looping _ => false
    | _ => true
  | .op _ => false
  | .contextOp i _ => s.contexts[i]?.isNone
  | .returns =>
    match s.control with
    | .async _ _ => false
    | .task _ => false
    | .finishing => false
    | _ => true

/-- What a step can be. -/
inductive Steps (s : State κ) : Act κ → State κ → Prop where
  | update (difftime : Int) (hc : s.control = .idle) :
    Steps s (.update difftime) { s with now := s.now + difftime, control := .validating .asyncs }
  | validate (loop : Loop) (result : Bool) (hc : s.control = .validating loop) :
    Steps s (.validate result) { s with control := if result then .looping loop else .idle }
  | nextAsync (hc : s.control = .looping .asyncs) : Steps s .next s.nextAsync
  | nextTask (hc : s.control = .looping .tasks) : Steps s .next s.nextTask
  | op (o : Op κ) : Steps s (.op o) (s.apply o)
  | contextOp {s' : State κ} (i : Nat) (o : ContextOp κ) (c : Context)
    (hi : s.contexts[i]? = some c) (ho : s.applyContext i c o = .ok s') :
    Steps s (.contextOp i o) s'
  | popAsync (callable : Nat) (cancelled : Bool) (front : Nat) (rest : List Nat)
    (hc : s.control = .async callable cancelled) (ha : s.asyncHolder = front :: rest) :
    Steps s .returns { s with asyncHolder := rest, control := .validating .asyncs }
  | taskReturns (i : Nat) (hc : s.control = .task i) :
    Steps s .returns { s with control := .validating .tasks }
  | finished (hc : s.control = .finishing) : Steps s .returns { s with control := .idle }
  | ignored (a : Act κ) (h : s.ignores a) : Steps s a s

theorem steps_returns {s s' : State κ} (h : s.returns = .ok s') : Steps s .returns s' := by
  rw [State.returns] at h
  cases hc : s.control with
  | async callable cancelled =>
    rw [hc] at h
    dsimp only at h
    rw [State.popAsync] at h
    cases ha : s.asyncHolder with
    | nil =>
      rw [ha] at h
      cases h
    | cons front rest =>
      rw [ha] at h
      cases h
      exact .popAsync callable cancelled front rest hc ha
  | task i =>
    rw [hc] at h
    cases h
    exact .taskReturns i hc
  | finishing =>
    rw [hc] at h
    cases h
    exact .finished hc
  | _ =>
    rw [hc] at h
    cases h
    exact .ignored _ (by simp [State.ignores, hc])

/-- **Every step that succeeds is one of these.** -/
theorem steps_of_step {s s' : State κ} {a : Act κ} (h : step s a = .ok s') : Steps s a s' := by
  cases a with
  | update difftime =>
    rw [step] at h
    split at h <;> cases h
    · exact .update difftime ‹_›
    · exact .ignored _ (by simpa [State.ignores] using ‹_›)
  | validate result =>
    rw [step] at h
    cases hc : s.control with
    | validating loop =>
      rw [hc] at h
      cases h
      exact .validate loop result hc
    | _ =>
      rw [hc] at h
      cases h
      exact .ignored _ (by simp [State.ignores, hc])
  | next =>
    rw [step] at h
    split at h <;> cases h
    · exact .nextAsync ‹_›
    · exact .nextTask ‹_›
    · refine .ignored _ ?_
      cases hc : s.control with
      | looping loop => cases loop <;> simp_all
      | _ => simp [State.ignores, hc]
  | op o =>
    cases h
    exact .op o
  | contextOp i o =>
    rw [step] at h
    cases hi : s.contexts[i]? with
    | some c =>
      rw [hi] at h
      exact .contextOp i o c hi h
    | none =>
      rw [hi] at h
      cases h
      exact .ignored _ (by simp [State.ignores, hi])
  | returns => exact steps_returns h

/-! ### What the loops keep -/

theorem State.cancelGroupsOf_keeps {P : State κ → Prop}
    (hremove : ∀ s filter, P s → P (s.removeIf filter)) (groups : List UInt32) :
    ∀ s : State κ, P s → P (s.cancelGroupsOf groups) := by
  induction groups with
  | nil => exact fun _ h => h
  | cons g gs ih => exact fun s h => ih (s.cancelGroup g) (hremove s _ h)

theorem State.modifyIf_keeps {P : State κ → Prop}
    (hplace : ∀ s heap queue, P s → P { s with heap := heap, queue := queue })
    (hpush : ∀ s e, P s → P (s.push e)) (filter : Task κ → Option (Task κ)) {s : State κ}
    (h : P s) : P (s.modifyIf filter) := by
  have hfold : ∀ (cache : List Entry) (s : State κ), P s →
      P (cache.foldl (fun s e => s.push e.again) s) := by
    intro cache
    induction cache with
    | nil => exact fun _ h => h
    | cons e cache ih => exact fun s h => ih (s.push e.again) (hpush s _ h)
  exact hfold _ _ (hplace s _ _ h)

/-! ### What keeps a property of the tasks

A property that speaks of the tasks only, and not of the asyncs, is kept by every step if it is
kept by the few things that the functions do to the tasks. -/

/-- The tasks and their history are the same. -/
structure Quiet (s s' : State κ) : Prop where
  heap : s'.heap = s.heap
  queue : s'.queue = s.queue
  contexts : s'.contexts = s.contexts
  inserted : s'.history.inserted = s.history.inserted
  invocations : s'.history.invocations = s.history.invocations
  cancelled : s'.history.cancelled = s.history.cancelled
  probes : s'.history.probes = s.history.probes

structure Keeps (P : State κ → Prop) : Prop where
  quiet : ∀ s s', Quiet s s' → P s → P s'
  scheduleAt : ∀ s ends time group task, P s → P (s.scheduleAt ends time group task)
  clear : ∀ s, P s → P s.clear
  removeIf : ∀ s filter, P s → P (s.removeIf filter)
  modifyIf : ∀ s filter, P s → P (s.modifyIf filter)
  setGroup : ∀ s task group, P s → P (s.modifyTask task fun t => { t with group := group })
  repeat_ : ∀ s i c duration s', P s → s.contexts[i]? = some c →
    s.repeat_ i c duration = .ok s' → P s'
  nextTask : ∀ s, P s → P s.nextTask

namespace Keeps

variable {P : State κ → Prop} {s s' : State κ} {a : Act κ}

theorem cancelAll (h : Keeps P) (hs : P s) : P s.cancelAll :=
  h.quiet s.clear _ ⟨rfl, rfl, rfl, rfl, rfl, rfl, rfl⟩ (h.clear s hs)

theorem cancelGroupsOf (h : Keeps P) (hs : P s) (groups : List UInt32) :
    P (s.cancelGroupsOf groups) :=
  State.cancelGroupsOf_keeps h.removeIf groups s hs

theorem async (h : Keeps P) (hs : P s) : P s.async :=
  h.quiet s _ ⟨rfl, rfl, rfl, rfl, rfl, rfl, rfl⟩ hs

theorem apply (h : Keeps P) (hs : P s) (o : Op κ) : P (s.apply o) := by
  cases o with
  | async => exact h.async hs
  | schedule time group task => exact h.scheduleAt s s.now time group task hs
  | cancelAll => exact h.cancelAll hs
  | cancelGroup group => exact h.removeIf s _ hs
  | cancelGroupsOf groups => exact h.cancelGroupsOf hs groups
  | delayAll duration => exact h.modifyIf s _ hs
  | delayGroup group duration => exact h.modifyIf s _ hs
  | rescheduleAll duration => exact h.modifyIf s _ hs
  | rescheduleGroup group duration => exact h.modifyIf s _ hs

theorem applyContext (h : Keeps P) (hs : P s) {i : Nat} {c : Context} (hi : s.contexts[i]? = some c)
    (o : ContextOp κ) (ho : s.applyContext i c o = .ok s') : P s' := by
  cases o with
  | «repeat» duration => exact h.repeat_ s i c duration s' hs hi ho
  | schedule time group task => cases ho; exact h.scheduleAt s _ time group task hs
  | setGroup group => cases ho; exact h.setGroup s c.task (some group) hs
  | clearGroup => cases ho; exact h.setGroup s c.task none hs
  | async => cases ho; exact h.async hs
  | cancelAll => cases ho; exact h.cancelAll hs
  | cancelGroup group => cases ho; exact h.removeIf s _ hs
  | cancelGroupsOf groups => cases ho; exact h.cancelGroupsOf hs groups
  | delayAll duration => cases ho; exact h.modifyIf s _ hs
  | delayGroup group duration => cases ho; exact h.modifyIf s _ hs
  | rescheduleGroup group duration => cases ho; exact h.modifyIf s _ hs

theorem nextAsync (h : Keeps P) (hs : P s) : P s.nextAsync := by
  rw [State.nextAsync]
  cases s.asyncHolder <;> exact h.quiet s _ ⟨rfl, rfl, rfl, rfl, rfl, rfl, rfl⟩ hs

/-- **One step** keeps the property. -/
theorem step (h : Keeps P) (hs : P s) (ha : TaskScheduler.step s a = .ok s') : P s' := by
  cases steps_of_step ha with
  | update difftime => exact h.quiet s _ ⟨rfl, rfl, rfl, rfl, rfl, rfl, rfl⟩ hs
  | validate loop result => exact h.quiet s _ ⟨rfl, rfl, rfl, rfl, rfl, rfl, rfl⟩ hs
  | nextAsync => exact h.nextAsync hs
  | nextTask => exact h.nextTask s hs
  | op o => exact h.apply hs o
  | contextOp i o c hi ho => exact h.applyContext hs hi o ho
  | popAsync => exact h.quiet s _ ⟨rfl, rfl, rfl, rfl, rfl, rfl, rfl⟩ hs
  | taskReturns => exact h.quiet s _ ⟨rfl, rfl, rfl, rfl, rfl, rfl, rfl⟩ hs
  | finished => exact h.quiet s _ ⟨rfl, rfl, rfl, rfl, rfl, rfl, rfl⟩ hs
  | ignored => exact hs

/-- **Every run** keeps it. -/
theorem run (h : Keeps P) {acts : List (Act κ)} (hs : P s)
    (hr : Lib.run TaskScheduler.step s acts = .ok s') : P s' :=
  run_invariant (fun _ _ _ hi ha => h.step hi ha) acts s s' hs hr

end Keeps

end TaskScheduler

end WarheadDiscord
