import WarheadDiscord.Lib.LinkEntry
import WarheadDiscord.Lib.Machine

/-!
# `MPSCQueueIntrusive`

Any number of calls of `Enqueue` and one consumer that calls `Dequeue`, one atomic access at a
time.  A producer is known by the place in `Enqueue` at which it stands; the consumer may be
in `Enqueue` too, with the dummy node.

* `EnqueuePc`, `State.dequeueStep`: the next access of a call.
* `State.step`: one access of any of the calls, or a new call.
* `State.Inv`: the nodes in the queue are a sound chain, and what the consumer has read still
  holds.  `step_inv`: every step keeps it.
* `intrusive_order`: **the nodes come out in the order of their exchanges**, once each and
  never the dummy, and an undisturbed `Dequeue` finds what there is.
-/

namespace WarheadDiscord.MPSCQueueIntrusive

open Lib

variable {T : Type*}

/-- A `T*`: the dummy, or a node of the user. -/
inductive Ptr (T : Type*) where
  | dummy
  | user (node : T)
  deriving DecidableEq, Repr

/-- The node of the user, if it is one. -/
def Ptr.node? : Ptr T → Option T
  | .dummy => none
  | .user node => some node

/-- The next access of an `Enqueue`:
* `storeNull input`: `(input->*IntrusiveLink).store(nullptr)`,
* `exchange input`: `prevHead = _head.exchange(input)`,
* `storeLink prevHead input`: `(prevHead->*IntrusiveLink).store(input)`. -/
abbrev EnqueuePc (T : Type*) := Entry (Ptr T)

/-- The next access of the consumer, with the local variables that are still read. -/
inductive DequeuePc (T : Type*) where
  /-- No `Dequeue` is under way. -/
  | idle
  /-- `tail = _tail.load()`. -/
  | loadTail
  /-- `next = (tail->*IntrusiveLink).load()`. -/
  | loadNext (tail : Ptr T)
  /-- `_tail.store(next)`, past the dummy. -/
  | skipDummy (next : Ptr T)
  /-- `next = (next->*IntrusiveLink).load()`, behind the dummy. -/
  | loadNextAgain (tail : Ptr T)
  /-- `_tail.store(next)`, and `tail` is the result. -/
  | storeTail (tail next : Ptr T)
  /-- `head = _head.load()`. -/
  | loadHead (tail : Ptr T)
  /-- In `Enqueue(_dummyPtr)`. -/
  | enqueue (tail : Ptr T) (pc : EnqueuePc T)
  /-- `next = (tail->*IntrusiveLink).load()`, after `Enqueue(_dummyPtr)`. -/
  | loadLink (tail : Ptr T)
  deriving DecidableEq, Repr

/-- The links, `_head` and `_tail`, the calls under way, and what `Dequeue` has returned. -/
structure State (T : Type*) extends LinkQueue (Ptr T) where
  enqueues : List (EnqueuePc T) := []
  dequeue : DequeuePc T := .idle
  /-- The results of `Dequeue`, and nothing for `false`. -/
  answers : List (Option (Ptr T)) := []
  /-- No `Enqueue` was in progress during the `Dequeue` that is under way. -/
  quiet : Bool := false

inductive Act (T : Type*) where
  /-- `Enqueue(input)` is called. -/
  | enqueue (input : T)
  /-- A call that stands at `pc` goes on. -/
  | producer (pc : EnqueuePc T)
  /-- `Dequeue` is called. -/
  | dequeue
  /-- The `Dequeue` under way goes on. -/
  | consumer
  deriving DecidableEq, Repr

/-- There is no such call, or it may not be made. -/
inductive NotPossible where
  | noSuchCall
  /-- `Enqueue` for a node that is in the queue, or on its way there. -/
  | alreadyQueued

variable [DecidableEq T]

namespace State

/-- The constructor.  The links of other nodes may hold anything. -/
def new (next : Ptr T → Option (Ptr T)) : State T :=
  { LinkQueue.single (Function.update next .dummy none) .dummy with }

/-- `return false`. -/
def returnFalse (s : State T) : State T :=
  { s with dequeue := .idle, answers := s.answers ++ [none] }

/-- The next access of `Dequeue`. -/
def dequeueStep (s : State T) : Except NotPossible (State T) :=
  match s.dequeue with
  | .idle => .error .noSuchCall
  | .loadTail => .ok { s with dequeue := .loadNext s.tail }
  | .loadNext tail =>
    if tail = .dummy then
      match s.next tail with
      | none => .ok s.returnFalse
      | some next => .ok { s with dequeue := .skipDummy next }
    else
      match s.next tail with
      | some next => .ok { s with dequeue := .storeTail tail next }
      | none => .ok { s with dequeue := .loadHead tail }
  | .skipDummy next =>
    .ok { s with toLinkQueue := s.toLinkQueue.storeTail next, dequeue := .loadNextAgain next }
  | .loadNextAgain tail =>
    match s.next tail with
    | some next => .ok { s with dequeue := .storeTail tail next }
    | none => .ok { s with dequeue := .loadHead tail }
  | .storeTail tail next =>
    .ok { s with
      toLinkQueue := s.toLinkQueue.storeTail next
      dequeue := .idle
      answers := s.answers ++ [some tail] }
  | .loadHead tail =>
    if tail ≠ s.head then .ok s.returnFalse
    else .ok { s with dequeue := .enqueue tail (.storeNull .dummy) }
  | .enqueue tail pc =>
    match pc.step s.toLinkQueue with
    | (q, some pc) => .ok { s with toLinkQueue := q, dequeue := .enqueue tail pc }
    | (q, none) => .ok { s with toLinkQueue := q, dequeue := .loadLink tail }
  | .loadLink tail =>
    match s.next tail with
    | some next => .ok { s with dequeue := .storeTail tail next }
    | none => .ok s.returnFalse

def step (s : State T) : Act T → Except NotPossible (State T)
  | .enqueue input =>
    if .user input ∈ s.chain ∨ .user input ∈ entering s.enqueues then .error .alreadyQueued
    else .ok { s with enqueues := .storeNull (.user input) :: s.enqueues, quiet := false }
  | .producer pc =>
    if pc ∉ s.enqueues then .error .noSuchCall
    else
      match pc.step s.toLinkQueue with
      | (q, pc') =>
        .ok { s with toLinkQueue := q, enqueues := pc'.toList ++ s.enqueues.erase pc }
  | .dequeue =>
    if s.dequeue ≠ .idle then .error .noSuchCall
    else .ok { s with dequeue := .loadTail, quiet := s.enqueues.isEmpty }
  | .consumer => s.dequeueStep

/-- The nodes that `Dequeue` has returned. -/
def returned (s : State T) : List (Ptr T) := s.answers.filterMap id

/-- The nodes of the user, in the order of their exchanges on `_head`. -/
def exchanged (s : State T) : List T := s.entered.filterMap Ptr.node?

end State

omit [DecidableEq T] in
/-- The node with which `Enqueue` is called. -/
def Act.input? : Act T → Option T
  | .enqueue input => some input
  | _ => none

/-! ### The invariant -/

/-- What the consumer has read still holds. -/
def ConsumerOk (q : LinkQueue (Ptr T)) (quiet : Bool) : DequeuePc T → Prop
  | .idle => True
  | .loadTail => True
  | .loadNext tail => tail = q.tail
  | .skipDummy next => q.tail = .dummy ∧ q.next q.tail = some next
  | .loadNextAgain tail => tail = q.tail ∧ tail ≠ .dummy
  | .storeTail tail next => tail = q.tail ∧ tail ≠ .dummy ∧ q.next q.tail = some next
  | .loadHead tail => tail = q.tail ∧ tail ≠ .dummy ∧ (quiet = true → q.next q.tail = none)
  | .enqueue tail pc => tail = q.tail ∧ tail ≠ .dummy ∧ pc.Ready q ∧ pc.input = .dummy
  | .loadLink tail => tail = q.tail ∧ tail ≠ .dummy ∧ .dummy ∈ q.chain

def DequeuePc.link? : DequeuePc T → Option (Ptr T × Ptr T)
  | .enqueue _ pc => pc.link?
  | _ => none

namespace State

/-- The invariant of a run. -/
structure Inv (s : State T) : Prop where
  entries : Entries s.toLinkQueue s.dequeue.link?.toList s.enqueues
  user : ∀ x ∈ entering s.enqueues, x ≠ .dummy
  consumer : ConsumerOk s.toLinkQueue s.quiet s.dequeue
  returned : s.returned = s.left.filter (· ≠ .dummy)
  quiet : s.quiet = true → s.enqueues = []

end State

section Consumer

variable {q q' : LinkQueue (Ptr T)} {pc : EnqueuePc T}

omit [DecidableEq T] in
theorem consumerOk_enters {links : List (Ptr T × Ptr T)} {quiet : Bool} {dpc : DequeuePc T}
    (hs : q.Sound links) (h : ConsumerOk q quiet dpc) (he : pc.Enters q q')
    (hpc : pc.input? ≠ some .dummy) : ConsumerOk q' false dpc := by
  have hlinked : ∀ y, q.next q.tail = some y → q'.next q'.tail = some y := by
    intro y hy
    rw [he.tail]
    exact he.linked _ hs.tail_mem y hy
  cases dpc with
  | idle => trivial
  | loadTail => trivial
  | loadNext tail => exact h.trans he.tail.symm
  | skipDummy next => exact ⟨he.tail.trans h.1, hlinked next h.2⟩
  | loadNextAgain tail => exact ⟨h.1.trans he.tail.symm, h.2⟩
  | storeTail tail next => exact ⟨h.1.trans he.tail.symm, h.2.1, hlinked next h.2.2⟩
  | loadHead tail => exact ⟨h.1.trans he.tail.symm, h.2.1, fun hq => by cases hq⟩
  | enqueue tail dpc =>
    obtain ⟨htail, hne, hok, hdummy⟩ := h
    refine ⟨htail.trans he.tail.symm, hne, ?_, hdummy⟩
    cases dpc with
    | storeNull input =>
      obtain rfl : input = .dummy := hdummy
      exact (he.outside _ hok hpc).1
    | exchange input =>
      obtain rfl : input = .dummy := hdummy
      obtain ⟨hmem, hnext⟩ := he.outside _ hok.1 hpc
      exact ⟨hmem, hnext.trans hok.2⟩
    | storeLink prevHead input => trivial
  | loadLink tail => exact ⟨h.1.trans he.tail.symm, h.2.1, he.stays _ h.2.2⟩

omit [DecidableEq T] in
theorem consumerOk_disturbed {quiet : Bool} {dpc : DequeuePc T} (h : ConsumerOk q quiet dpc) :
    ConsumerOk q false dpc := by
  cases dpc with
  | loadHead tail => exact ⟨h.1, h.2.1, fun hq => by cases hq⟩
  | _ => exact h

end Consumer

namespace State

variable {s t : State T}

/-! ### Steps of the producers -/

theorem enqueue_inv {input : T} (h : s.Inv) (hstep : s.step (.enqueue input) = .ok t) :
    t.Inv := by
  rw [step] at hstep
  split at hstep
  · cases hstep
  · rename_i hnew
    rw [not_or] at hnew
    cases hstep
    exact {
      entries := h.entries.insert hnew.1 hnew.2
      user := by
        intro x hx
        rcases List.mem_cons.mp hx with rfl | hx
        · simp
        · exact h.user x hx
      consumer := consumerOk_disturbed h.consumer
      returned := h.returned
      quiet := fun hq => by cases hq }

theorem producer_inv {pc : EnqueuePc T} (h : s.Inv) (hstep : s.step (.producer pc) = .ok t) :
    t.Inv := by
  rw [step] at hstep
  split at hstep
  · cases hstep
  rename_i hmem
  rw [not_not] at hmem
  obtain ⟨hentries, henters⟩ := h.entries.step hmem
  have hinput := fun x => Entry.step_input? (q := s.toLinkQueue) (e := pc) (x := x)
  generalize pc.step s.toLinkQueue = r at hstep hentries henters hinput
  obtain ⟨q, pc'⟩ := r
  cases hstep
  have hquiet : s.quiet = false := by
    by_contra hq
    rw [Bool.not_eq_false] at hq
    rw [h.quiet hq] at hmem
    cases hmem
  have hdummy : pc.input? ≠ some .dummy := fun heq => h.user .dummy (mem_entering hmem heq) rfl
  exact {
    entries := hentries
    user := by
      intro x hx
      obtain ⟨e, he, hex⟩ := List.mem_filterMap.mp hx
      rcases List.mem_append.mp he with he | he
      · have hpc' : pc' = some e := Option.mem_toList.mp he
        exact h.user x (mem_entering hmem (hinput x (by rw [hpc']; exact hex)))
      · exact h.user x (mem_entering (List.mem_of_mem_erase he) hex)
    consumer := by
      show ConsumerOk _ s.quiet s.dequeue
      rw [hquiet]
      exact consumerOk_enters h.entries.sound h.consumer henters hdummy
    returned := by
      show s.returned = q.left.filter _
      rw [henters.left]
      exact h.returned
    quiet := by
      show s.quiet = true → _
      rw [hquiet]
      exact fun hq => by cases hq }

/-! ### Steps of the consumer -/

theorem dequeue_inv (h : s.Inv) (hstep : s.step .dequeue = .ok t) : t.Inv := by
  rw [step] at hstep
  split at hstep
  · cases hstep
  · rename_i hidle
    rw [not_not] at hidle
    cases hstep
    have hentries := h.entries
    rw [hidle] at hentries
    exact ⟨hentries, h.user, trivial, h.returned, List.isEmpty_iff.mp⟩

theorem Inv.setDequeue (h : s.Inv) (dpc : DequeuePc T) (hl : s.dequeue.link? = none)
    (hl' : dpc.link? = none) (hc : ConsumerOk s.toLinkQueue s.quiet dpc) :
    ({ s with dequeue := dpc } : State T).Inv where
  entries := by
    have hentries := h.entries
    rw [hl] at hentries
    show Entries _ dpc.link?.toList _
    rw [hl']
    exact hentries
  user := h.user
  consumer := hc
  returned := h.returned
  quiet := h.quiet

theorem Inv.returnFalse (h : s.Inv) (hl : s.dequeue.link? = none) : s.returnFalse.Inv :=
  { h.setDequeue .idle hl rfl trivial with
    returned := by
      show (s.answers ++ [none]).filterMap id = _
      rw [List.filterMap_append]
      exact (List.append_nil _).trans h.returned }

/-- The consumer moves the tail along its link, and may return the node that it was at. -/
theorem Inv.storeTail (h : s.Inv) {dpc : DequeuePc T} {next : Ptr T}
    {answers : List (Option (Ptr T))} (hl : s.dequeue.link? = none) (hl' : dpc.link? = none)
    (hn : s.next s.tail = some next) (hc : ConsumerOk (s.toLinkQueue.storeTail next) s.quiet dpc)
    (ha : answers.filterMap id = s.returned ++ [s.tail].filter (· ≠ .dummy)) :
    ({ s with
      toLinkQueue := s.toLinkQueue.storeTail next
      dequeue := dpc
      answers := answers } : State T).Inv where
  entries := by
    have hentries := h.entries.storeTail hn
    rw [hl] at hentries
    show Entries _ dpc.link?.toList _
    rw [hl']
    exact hentries
  user := h.user
  consumer := hc
  returned := by
    show answers.filterMap id = (s.toLinkQueue.storeTail next).left.filter _
    rw [ha, h.returned, h.entries.sound.left_storeTail, List.filter_append]
  quiet := h.quiet

/-- The consumer goes on in `Enqueue(_dummyPtr)`. -/
theorem Inv.enqueueDummy (h : s.Inv) {tail : Ptr T} {pc : EnqueuePc T} {dpc : DequeuePc T}
    {q : LinkQueue (Ptr T)} {pc' : Option (EnqueuePc T)} (hd : s.dequeue = .enqueue tail pc)
    (hstep : pc.step s.toLinkQueue = (q, pc'))
    (hdpc : dpc = match pc' with | some pc => .enqueue tail pc | none => .loadLink tail) :
    ({ s with toLinkQueue := q, dequeue := dpc } : State T).Inv := by
  have hc := h.consumer
  have hentries := h.entries
  rw [hd] at hc hentries
  obtain ⟨htail, hne, hready, hdummy⟩ := hc
  have hinput : ∀ x, pc.input? = some x → x ∉ entering s.enqueues := by
    intro x hx hmem
    refine h.user x hmem ?_
    cases pc <;> cases hx <;> exact hdummy
  obtain ⟨hentries', henters, hnext⟩ := Entries.step_other (e := pc) hentries hready hinput
  have hnode := fun p (hp : (pc.step s.toLinkQueue).2 = some p) => Entry.step_input hp
  have hmem : pc' = none → .dummy ∈ q.chain := by
    intro hnone
    cases pc with
    | storeNull input => cases hstep; cases hnone
    | exchange input => cases hstep; cases hnone
    | storeLink prevHead input =>
      cases hstep
      obtain rfl : input = .dummy := hdummy
      exact (LinkQueue.Sound.of_link hentries.sound List.mem_cons_self).2.1
  rw [hstep] at hentries' henters hnext hnode
  exact {
    entries := by
      cases pc' <;> subst hdpc <;> exact hentries'
    user := h.user
    consumer := by
      cases pc' with
      | none =>
        subst hdpc
        exact ⟨htail.trans henters.tail.symm, hne, hmem rfl⟩
      | some p =>
        subst hdpc
        exact ⟨htail.trans henters.tail.symm, hne, hnext p rfl, (hnode p rfl).trans hdummy⟩
    returned := by
      show s.returned = q.left.filter _
      rw [henters.left]
      exact h.returned
    quiet := h.quiet }

/-- The consumer reads the link of the tail, to move along it if there is one. -/
theorem Inv.readLink (h : s.Inv) (hl : s.dequeue.link? = none) (hne : s.tail ≠ .dummy)
    {other : State T} (hother : s.next s.tail = none → other.Inv)
    (hstep : (match s.next s.tail with
      | some next => (.ok { s with dequeue := .storeTail s.tail next } :
          Except NotPossible (State T))
      | none => .ok other) = .ok t) : t.Inv := by
  cases hn : s.next s.tail with
  | none =>
    rw [hn] at hstep
    cases hstep
    exact hother hn
  | some next =>
    rw [hn] at hstep
    cases hstep
    exact h.setDequeue _ hl rfl ⟨rfl, hne, hn⟩

theorem consumer_inv (h : s.Inv) (hstep : s.step .consumer = .ok t) : t.Inv := by
  change s.dequeueStep = .ok t at hstep
  have hc := h.consumer
  rw [dequeueStep] at hstep
  cases hd : s.dequeue with
  | idle => rw [hd] at hstep; cases hstep
  | loadTail =>
    rw [hd] at hstep
    cases hstep
    exact h.setDequeue _ (by rw [hd]; rfl) rfl rfl
  | loadNext tail =>
    rw [hd] at hstep hc
    obtain rfl : tail = s.tail := hc
    have hl : s.dequeue.link? = none := by rw [hd]; rfl
    dsimp only at hstep
    by_cases htail : s.tail = .dummy
    · rw [if_pos htail] at hstep
      cases hn : s.next s.tail with
      | none => rw [hn] at hstep; cases hstep; exact h.returnFalse hl
      | some next =>
        rw [hn] at hstep
        cases hstep
        exact h.setDequeue _ hl rfl ⟨htail, hn⟩
    · rw [if_neg htail] at hstep
      exact h.readLink hl htail
        (fun hn => h.setDequeue (.loadHead s.tail) hl rfl ⟨rfl, htail, fun _ => hn⟩) hstep
  | skipDummy next =>
    rw [hd] at hstep hc
    cases hstep
    obtain ⟨htail, hn⟩ := hc
    have hne : next ≠ .dummy := by
      obtain ⟨l, hl⟩ := h.entries.sound.chain_of_link hn
      have hnodup := h.entries.sound.nodup
      rw [hl, htail] at hnodup
      rintro rfl
      simp at hnodup
    exact h.storeTail (by rw [hd]; rfl) rfl hn ⟨rfl, hne⟩ (by simp [State.returned, htail])
  | loadNextAgain tail =>
    rw [hd] at hstep hc
    obtain ⟨rfl, hne⟩ := hc
    have hl : s.dequeue.link? = none := by rw [hd]; rfl
    exact h.readLink hl hne
      (fun hn => h.setDequeue (.loadHead s.tail) hl rfl ⟨rfl, hne, fun _ => hn⟩) hstep
  | storeTail tail next =>
    rw [hd] at hstep hc
    cases hstep
    obtain ⟨rfl, hne, hn⟩ := hc
    refine h.storeTail (by rw [hd]; rfl) rfl hn trivial ?_
    rw [List.filterMap_append]
    simp [State.returned, hne]
  | loadHead tail =>
    rw [hd] at hstep hc
    obtain ⟨rfl, hne, -⟩ := hc
    have hl : s.dequeue.link? = none := by rw [hd]; rfl
    dsimp only at hstep
    split at hstep
    · cases hstep
      exact h.returnFalse hl
    · rename_i heq
      rw [not_not] at heq
      cases hstep
      refine h.setDequeue _ hl rfl ⟨rfl, hne, ?_, rfl⟩
      show Ptr.dummy ∉ s.chain
      rw [h.entries.sound.single_of_eq heq, List.mem_singleton]
      exact Ne.symm hne
  | enqueue tail pc =>
    rw [hd] at hstep
    dsimp only at hstep
    cases hr : pc.step s.toLinkQueue with
    | mk q pc' =>
      rw [hr] at hstep
      cases pc' with
      | none => cases hstep; exact h.enqueueDummy hd hr rfl
      | some p => cases hstep; exact h.enqueueDummy hd hr rfl
  | loadLink tail =>
    rw [hd] at hstep hc
    obtain ⟨rfl, hne, -⟩ := hc
    have hl : s.dequeue.link? = none := by rw [hd]; rfl
    exact h.readLink hl hne (fun _ => h.returnFalse hl) hstep

/-! ### Runs -/

/-- **Every step keeps the invariant.** -/
theorem step_inv (s : State T) (a : Act T) (t : State T) (h : s.Inv) (hstep : s.step a = .ok t) :
    t.Inv := by
  cases a with
  | enqueue input => exact enqueue_inv h hstep
  | producer pc => exact producer_inv h hstep
  | dequeue => exact dequeue_inv h hstep
  | consumer => exact consumer_inv h hstep

theorem new_inv (next : Ptr T → Option (Ptr T)) : (new next).Inv where
  entries := entries_single (Function.update_self ..)
  user := by
    intro x hx
    cases hx
  consumer := trivial
  returned := rfl
  quiet := by
    intro hq
    cases hq

theorem Inv.returned_eq (h : s.Inv) :
    s.exchanged.map .user = s.returned ++ s.chain.filter (· ≠ .dummy) := by
  have hfilter : ∀ l : List (Ptr T),
      (l.filterMap Ptr.node?).map Ptr.user = l.filter (· ≠ .dummy) := by
    intro l
    induction l with
    | nil => rfl
    | cons x l ih => cases x <;> simp [List.filterMap_cons, Ptr.node?, ih]
  rw [exchanged, hfilter, h.returned, ← List.filter_append, LinkQueue.left_append_chain]

/-- No link is to come while a `Dequeue` is undisturbed, except its own. -/
theorem Inv.sound_of_quiet (h : s.Inv) (hq : s.quiet = true) (hl : s.dequeue.link? = none) :
    s.toLinkQueue.Sound [] := by
  have hsound := h.entries.sound
  rw [hl, h.quiet hq] at hsound
  exact hsound

/-- **An undisturbed `Dequeue` that returns `false`** leaves no node of the user behind. -/
theorem Inv.chain_of_false (h : s.Inv) (hq : s.quiet = true) (hstep : s.step .consumer = .ok t)
    (hans : t.answers = s.answers ++ [none]) : t.chain.filter (· ≠ .dummy) = [] := by
  change s.dequeueStep = .ok t at hstep
  have hc := h.consumer
  have hsound := h.sound_of_quiet hq
  rw [dequeueStep] at hstep
  cases hd : s.dequeue with
  | idle => rw [hd] at hstep; cases hstep
  | loadTail => rw [hd] at hstep; cases hstep; simp at hans
  | loadNext tail =>
    rw [hd] at hstep hc hsound
    obtain rfl : tail = s.tail := hc
    dsimp only at hstep
    by_cases htail : s.tail = .dummy
    · rw [if_pos htail] at hstep
      cases hn : s.next s.tail with
      | none =>
        rw [hn] at hstep
        cases hstep
        show s.chain.filter _ = []
        rw [(hsound rfl).end_of_no_links hn, htail]
        simp
      | some next => rw [hn] at hstep; cases hstep; simp at hans
    · rw [if_neg htail] at hstep
      cases hn : s.next s.tail <;> rw [hn] at hstep <;> cases hstep <;> simp at hans
  | skipDummy next => rw [hd] at hstep; cases hstep; simp at hans
  | loadNextAgain tail =>
    rw [hd] at hstep
    dsimp only at hstep
    cases hn : s.next tail <;> rw [hn] at hstep <;> cases hstep <;> simp at hans
  | storeTail tail next => rw [hd] at hstep; cases hstep; simp at hans
  | loadHead tail =>
    rw [hd] at hstep hc hsound
    obtain ⟨rfl, -, hn⟩ := hc
    dsimp only at hstep
    split at hstep
    · rename_i hne
      -- The tail is the only node, and so it is the head.
      have hlast := h.entries.sound.last
      rw [(hsound rfl).end_of_no_links (hn hq)] at hlast
      exact absurd (Option.some.inj hlast) hne
    · cases hstep
      simp at hans
  | enqueue tail pc =>
    rw [hd] at hstep
    dsimp only at hstep
    cases hr : pc.step s.toLinkQueue with
    | mk q pc' => cases pc' <;> rw [hr] at hstep <;> cases hstep <;> simp at hans
  | loadLink tail =>
    rw [hd] at hstep hc hsound
    obtain ⟨rfl, hne, hmem⟩ := hc
    dsimp only at hstep
    cases hn : s.next s.tail with
    | none =>
      -- The dummy is behind the tail, and no link to it is to come.
      rw [(hsound rfl).end_of_no_links hn, List.mem_singleton] at hmem
      exact absurd hmem.symm hne
    | some next => rw [hn] at hstep; cases hstep; simp at hans

/-! ### What was enqueued -/

/-- The nodes of the user that have been exchanged, and those on their way. -/
def enqueued (s : State T) : List T :=
  (s.entered ++ entering s.enqueues).filterMap Ptr.node?

theorem consumer_frame (h : s.Inv) (hstep : s.step .consumer = .ok t) :
    t.exchanged = s.exchanged ∧ t.enqueues = s.enqueues := by
  change s.dequeueStep = .ok t at hstep
  have hc := h.consumer
  rw [dequeueStep] at hstep
  cases hd : s.dequeue with
  | enqueue tail pc =>
    rw [hd] at hstep hc
    have hsame := filterMap_step_entered (f := Ptr.node?) s.toLinkQueue
      (by rw [hc.2.2.2]; rfl : pc.input.node? = none)
    dsimp only at hstep
    cases hr : pc.step s.toLinkQueue with
    | mk q pc' =>
      rw [hr] at hstep hsame
      cases pc' <;> cases hstep <;> exact ⟨hsame, rfl⟩
  | _ =>
    rw [hd] at hstep
    dsimp only at hstep
    repeat' split at hstep
    all_goals cases hstep
    all_goals exact ⟨rfl, rfl⟩

theorem step_enqueued (s : State T) (a : Act T) (t : State T) (h : s.Inv)
    (hstep : s.step a = .ok t) : t.enqueued.Perm (s.enqueued ++ a.input?.toList) := by
  cases a with
  | enqueue input =>
    rw [step] at hstep
    split at hstep
    · cases hstep
    · cases hstep
      show ((s.entered ++ .user input :: entering s.enqueues).filterMap Ptr.node?).Perm _
      rw [List.filterMap_append, enqueued, List.filterMap_append, List.append_assoc]
      exact (List.perm_append_singleton _ _).symm.append_left _
  | producer pc =>
    rw [step] at hstep
    split at hstep
    · cases hstep
    rename_i hmem
    rw [not_not] at hmem
    have hperm := step_entered s.toLinkQueue hmem
    generalize pc.step s.toLinkQueue = r at hstep hperm
    obtain ⟨q, pc'⟩ := r
    cases hstep
    rw [show (Act.producer pc).input?.toList = [] from rfl, List.append_nil]
    exact hperm.filterMap Ptr.node?
  | dequeue =>
    rw [step] at hstep
    split at hstep
    · cases hstep
    · cases hstep
      rw [show Act.dequeue.input?.toList = ([] : List T) from rfl, List.append_nil]
      exact List.Perm.refl _
  | consumer =>
    obtain ⟨hexchanged, henqueues⟩ := consumer_frame h hstep
    rw [show Act.consumer.input?.toList = ([] : List T) from rfl, List.append_nil, enqueued,
      enqueued, List.filterMap_append, List.filterMap_append, ← exchanged, ← exchanged, hexchanged,
      henqueues]

/-- **The nodes come out in the order of their exchanges.**  In every run from a new queue,
what `Dequeue` has returned is the first part of what was exchanged, without the dummy; no
node comes out twice if none went in twice; the nodes from `_tail` to `_head` are a chain
without repetitions; and a `Dequeue` that returns `false`, and during which no `Enqueue` was
in progress, does so when everything that went in has come out. -/
theorem intrusive_order (next : Ptr T → Option (Ptr T)) (acts : List (Act T)) (s : State T)
    (h : run step (new next) acts = .ok s) :
    (s.returned <+: s.exchanged.map .user ∧ .dummy ∉ s.returned) ∧
      ((acts.filterMap Act.input?).Nodup → s.returned.Nodup) ∧
      (s.chain.Nodup ∧ s.chain.head? = some s.tail ∧ s.chain.getLast? = some s.head ∧
        Linked s.next s.chain) ∧
      ∀ t, s.quiet = true → s.step .consumer = .ok t → t.answers = s.answers ++ [none] →
        ((acts.filterMap Act.input?).map .user).Perm t.returned := by
  have hinv : s.Inv := run_invariant step_inv acts _ _ (new_inv next) h
  have hperm : (s.exchanged ++ (entering s.enqueues).filterMap Ptr.node?).Perm
      (acts.filterMap Act.input?) := by
    rw [exchanged, ← List.filterMap_append]
    exact run_collects step_inv step_enqueued acts _ _ (new_inv next) h
  have hreturned := hinv.returned_eq
  refine ⟨⟨⟨_, hreturned.symm⟩, ?_⟩, fun hnodup => ?_, ?_, fun t hq hstep hans => ?_⟩
  · rw [hinv.returned]
    simp
  · have hall := (List.nodup_append.mp (hperm.nodup_iff.mpr hnodup)).1
    have huser : (s.exchanged.map Ptr.user).Nodup := hall.map fun a b hab => by cases hab; rfl
    rw [hreturned] at huser
    exact (List.nodup_append.mp huser).1
  · exact ⟨hinv.entries.sound.nodup, hinv.entries.sound.first, hinv.entries.sound.last,
      hinv.entries.sound.linked⟩
  · have hall := (step_inv s .consumer t hinv hstep).returned_eq
    rw [hinv.chain_of_false hq hstep hans, List.append_nil, (consumer_frame hinv hstep).1] at hall
    rw [hinv.quiet hq, entering, List.filterMap_nil, List.filterMap_nil, List.append_nil] at hperm
    rw [← hall]
    exact (hperm.map _).symm

/-- Two producers, whose links are stored in the other order, and a consumer that waits for
the first one. -/
def twoProducers : List (Act Nat) :=
  [.enqueue 1, .enqueue 2, .producer (.storeNull (.user 1)), .producer (.storeNull (.user 2)),
    .producer (.exchange (.user 2)), .producer (.exchange (.user 1)),
    .producer (.storeLink (.user 2) (.user 1)), .dequeue, .consumer, .consumer,
    .producer (.storeLink .dummy (.user 2)), .dequeue, .consumer, .consumer, .consumer, .consumer,
    .consumer, .dequeue, .consumer, .consumer, .consumer, .consumer, .consumer, .consumer,
    .consumer, .consumer, .dequeue, .consumer]

theorem intrusive_order_two :
    ∃ s, run step (new fun _ => none) twoProducers = .ok s ∧ s.returned = [.user 2, .user 1] ∧
      s.returned <+: s.exchanged.map .user := by
  obtain ⟨s, hs, hp⟩ := ok_of_any (p := fun s => s.returned = [.user 2, .user 1])
    (x := run step (new fun _ => none) twoProducers) (by decide)
  exact ⟨s, hs, of_decide_eq_true hp, (intrusive_order _ _ s hs).1.1⟩

end State

end WarheadDiscord.MPSCQueueIntrusive
