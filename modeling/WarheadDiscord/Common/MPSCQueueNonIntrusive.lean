import WarheadDiscord.Lib.LinkEntry
import WarheadDiscord.Lib.Outcome

/-!
# `MPSCQueueNonIntrusive`

The queue makes a node for each element and the consumer deletes it.  Nodes are numbered as
they are made.  An access to a node that has been deleted ends a run with `useAfterFree`, a
look at the `Data` of the first node, which has none, with `uninitialised`.

* `State.enqueueStep`, `State.dequeueStep`: the next access of a call, with these checks.
* `State.Inv`: the nodes from the tail to the head are a sound chain, and those before it have
  been deleted.  `step_spec`: every step keeps it, and fails no check.
* `nonIntrusive_order`: **the elements come out in the order of the exchanges, and no deleted node
  is touched**.
-/

namespace WarheadDiscord.MPSCQueueNonIntrusive

open Lib

/-- The next access of an `Enqueue`, whose `new Node(input)` has a number and its `Data`:
* `storeNull node`: `Next.store(nullptr)` in the constructor of the node,
* `exchange node`: `prevHead = _head.exchange(node)`,
* `storeLink prevHead node`: `prevHead->Next.store(node)`. -/
abbrev EnqueuePc := Entry Nat

/-- The next access of the consumer. -/
inductive DequeuePc (T : Type) where
  /-- No `Dequeue` is under way. -/
  | idle
  /-- `tail = _tail.load()`. -/
  | loadTail
  /-- `next = tail->Next.load()`. -/
  | loadNext (tail : Nat)
  /-- `result = next->Data`. -/
  | readData (tail next : Nat)
  /-- `_tail.store(next)`. -/
  | storeTail (tail next : Nat) (result : T)
  /-- `delete tail`. -/
  | delete (tail : Nat) (result : T)
  deriving DecidableEq, Repr

/-- The nodes with their `Next`, `_head`, `_tail`, the calls under way and the history. -/
structure State (T : Type) extends LinkQueue Nat where
  /-- How many nodes have been made. -/
  allocated : Nat
  data : Nat → Option T
  deleted : List Nat := []
  enqueues : List EnqueuePc := []
  dequeue : DequeuePc T := .idle
  /-- The elements, in the order of the exchanges of their nodes on `_head`. -/
  exchanged : List T := []
  /-- The results of `Dequeue`, and nothing for `false`. -/
  answers : List (Option T) := []
  /-- No `Enqueue` was in progress during the `Dequeue` that is under way. -/
  quiet : Bool := false

inductive Act (T : Type) where
  /-- `Enqueue(input)` is called, and makes its node. -/
  | enqueue (input : T)
  /-- A call that stands at `pc` goes on. -/
  | producer (pc : EnqueuePc)
  /-- `Dequeue` is called. -/
  | dequeue
  /-- The `Dequeue` under way goes on. -/
  | consumer
  deriving DecidableEq, Repr

inductive Failure where
  /-- There is no such call. -/
  | noSuchCall
  | useAfterFree (node : Nat)
  | uninitialised (node : Nat)
  deriving DecidableEq, Repr

namespace State

variable {T : Type}

/-- The constructor.  Memory that no node has been made in may hold anything. -/
def new (next : Nat → Option Nat) : State T :=
  { LinkQueue.single (Function.update next 0 none) 0 with allocated := 1, data := fun _ => none }

/-- An access to a node. -/
def access (s : State T) (node : Nat) : Except Failure Unit :=
  if node ∈ s.deleted then .error (.useAfterFree node) else .ok ()

/-- The node that the next access of an `Enqueue` is to, if it is to one. -/
def enqueueAccess (s : State T) : EnqueuePc → Except Failure Unit
  | .storeNull node => s.access node
  | .exchange _ => .ok ()
  | .storeLink prevHead _ => s.access prevHead

/-- The element whose node is exchanged. -/
def exchangedData (s : State T) : EnqueuePc → Option T
  | .exchange node => s.data node
  | _ => none

/-- The next access of an `Enqueue`. -/
def enqueueStep (s : State T) (pc : EnqueuePc) : Except Failure (State T) := do
  s.enqueueAccess pc
  .ok { s with
    toLinkQueue := (pc.step s.toLinkQueue).1
    enqueues := (pc.step s.toLinkQueue).2.toList ++ s.enqueues.erase pc
    exchanged := s.exchanged ++ (s.exchangedData pc).toList }

/-- The next access of `Dequeue`. -/
def dequeueStep (s : State T) : Except Failure (State T) :=
  match s.dequeue with
  | .idle => .error .noSuchCall
  | .loadTail => .ok { s with dequeue := .loadNext s.tail }
  | .loadNext tail => do
    s.access tail
    match s.next tail with
    | none => .ok { s with dequeue := .idle, answers := s.answers ++ [none] }
    | some next => .ok { s with dequeue := .readData tail next }
  | .readData tail next => do
    s.access next
    match s.data next with
    | none => .error (.uninitialised next)
    | some result => .ok { s with dequeue := .storeTail tail next result }
  | .storeTail tail next result =>
    .ok { s with toLinkQueue := s.toLinkQueue.storeTail next, dequeue := .delete tail result }
  | .delete tail result => do
    s.access tail
    .ok { s with
      deleted := s.deleted ++ [tail]
      dequeue := .idle
      answers := s.answers ++ [some result] }

def step (s : State T) : Act T → Except Failure (State T)
  | .enqueue input =>
    .ok { s with
      allocated := s.allocated + 1
      data := Function.update s.data s.allocated (some input)
      enqueues := .storeNull s.allocated :: s.enqueues
      quiet := false }
  | .producer pc => if pc ∉ s.enqueues then .error .noSuchCall else s.enqueueStep pc
  | .dequeue =>
    match s.dequeue with
    | .idle => .ok { s with dequeue := .loadTail, quiet := s.enqueues.isEmpty }
    | _ => .error .noSuchCall
  | .consumer => s.dequeueStep

/-- What `Dequeue` has returned. -/
def returned (s : State T) : List T := s.answers.filterMap id

end State

/-- The element with which `Enqueue` is called. -/
def Act.input? {T : Type} : Act T → Option T
  | .enqueue input => some input
  | _ => none

/-! ### The invariant -/

section

variable {T : Type}

/-- The node that `Dequeue` has left and not yet deleted. -/
def DequeuePc.leaving : DequeuePc T → List Nat
  | .delete tail _ => [tail]
  | _ => []

/-- The element of this node's successor. -/
def DequeuePc.result : DequeuePc T → List T
  | .delete _ result => [result]
  | _ => []

/-- What the consumer has read still holds. -/
def ConsumerOk (q : LinkQueue Nat) (data : Nat → Option T) : DequeuePc T → Prop
  | .loadNext tail => tail = q.tail
  | .readData tail next => tail = q.tail ∧ q.next q.tail = some next
  | .storeTail tail next result =>
    tail = q.tail ∧ q.next q.tail = some next ∧ data next = some result
  | _ => True

theorem consumerOk_enters {q q' : LinkQueue Nat} {links : List (Nat × Nat)}
    {data : Nat → Option T} {pc : EnqueuePc} {dpc : DequeuePc T} (hs : q.Sound links)
    (h : ConsumerOk q data dpc) (he : pc.Enters q q') : ConsumerOk q' data dpc := by
  have hlinked : ∀ y, q.next q.tail = some y → q'.next q'.tail = some y := by
    intro y hy
    rw [he.tail]
    exact he.linked _ hs.tail_mem y hy
  cases dpc with
  | loadNext tail => exact h.trans he.tail.symm
  | readData tail next => exact ⟨h.1.trans he.tail.symm, hlinked next h.2⟩
  | storeTail tail next result => exact ⟨h.1.trans he.tail.symm, hlinked next h.2.1, h.2.2⟩
  | _ => trivial

end

namespace State

variable {T : Type} {s t : State T}

/-- The invariant of a run. -/
structure Inv (s : State T) : Prop where
  entries : Entries s.toLinkQueue [] s.enqueues
  nodup : (s.entered ++ entering s.enqueues).Nodup
  made : ∀ x ∈ s.entered ++ entering s.enqueues, x < s.allocated
  first : s.entered.head? = some 0
  filled : ∀ x ∈ s.entered ++ entering s.enqueues, x ≠ 0 → (s.data x).isSome
  data : s.entered.filterMap s.data = s.exchanged
  consumer : ConsumerOk s.toLinkQueue s.data s.dequeue
  /-- What the tail has left is deleted. -/
  deleted : s.left = s.deleted ++ s.dequeue.leaving
  returned : (s.left ++ [s.tail]).filterMap s.data = s.returned ++ s.dequeue.result
  quiet : s.quiet = true → s.enqueues = []

theorem Inv.left_append_chain (_ : s.Inv) : s.left ++ s.chain = s.entered :=
  LinkQueue.left_append_chain _

theorem Inv.mem_entered_of_chain (h : s.Inv) {x : Nat} (hx : x ∈ s.chain) : x ∈ s.entered := by
  rw [← h.left_append_chain]
  exact List.mem_append_right _ hx

theorem Inv.next_mem (h : s.Inv) {next : Nat} (hn : s.next s.tail = some next) :
    next ∈ s.chain := by
  obtain ⟨l, hl⟩ := h.entries.sound.chain_of_link hn
  rw [hl]
  simp

theorem Inv.next_ne_zero (h : s.Inv) {next : Nat} (hn : s.next s.tail = some next) :
    next ≠ 0 := by
  obtain ⟨l, hl⟩ := h.entries.sound.chain_of_link hn
  have hfirst := h.first
  have hnodup := (List.nodup_append.mp h.nodup).1
  rw [← h.left_append_chain, hl] at hfirst hnodup
  rintro rfl
  cases hleft : s.left with
  | nil =>
    rw [hleft] at hfirst hnodup
    have htail : s.tail = 0 := Option.some.inj hfirst
    simp [htail] at hnodup
  | cons x left =>
    rw [hleft] at hfirst hnodup
    cases hfirst
    simp at hnodup

theorem Inv.mem_entered_of_passed (h : s.Inv) {x : Nat} (hx : x ∈ s.left ++ [s.tail]) :
    x ∈ s.entered := by
  rcases List.mem_append.mp hx with hx | hx
  · rw [← h.left_append_chain]
    exact List.mem_append_left _ hx
  · rw [List.mem_singleton.mp hx]
    exact h.mem_entered_of_chain h.entries.sound.tail_mem

theorem Inv.mem_entered_of_deleted (h : s.Inv) {x : Nat} (hx : x ∈ s.deleted) :
    x ∈ s.entered := by
  rw [← h.left_append_chain, h.deleted]
  exact List.mem_append_left _ (List.mem_append_left _ hx)

/-- **A node of the chain has not been deleted.** -/
theorem Inv.chain_alive (h : s.Inv) {x : Nat} (hx : x ∈ s.chain) : x ∉ s.deleted := by
  intro hdel
  have hnodup := (List.nodup_append.mp h.nodup).1
  rw [← h.left_append_chain] at hnodup
  refine (List.nodup_append.mp hnodup).2.2 x ?_ x hx rfl
  rw [h.deleted]
  exact List.mem_append_left _ hdel

/-- **A node that is on its way has not been deleted.** -/
theorem Inv.entering_alive (h : s.Inv) {x : Nat} (hx : x ∈ entering s.enqueues) :
    x ∉ s.deleted := fun hdel =>
  (List.nodup_append.mp h.nodup).2.2 x (h.mem_entered_of_deleted hdel) x hx rfl

theorem access_ok {x : Nat} (hx : x ∉ s.deleted) : s.access x = .ok () := if_neg hx

/-! ### Steps of the producers -/

theorem enqueue_inv (h : s.Inv) (input : T) :
    Ends (· = .noSuchCall) Inv (s.step (.enqueue input)) := by
  have hfresh : s.allocated ∉ s.entered ++ entering s.enqueues := fun hmem =>
    Nat.lt_irrefl _ (h.made _ hmem)
  have hentered : s.allocated ∉ s.entered := fun hmem => hfresh (List.mem_append_left _ hmem)
  have hentering : s.allocated ∉ entering s.enqueues := fun hmem =>
    hfresh (List.mem_append_right _ hmem)
  have hsame : ∀ x ∈ s.entered, Function.update s.data s.allocated (some input) x = s.data x := by
    intro x hx
    exact Function.update_of_ne (by rintro rfl; exact hentered hx) _ _
  have hmem : ∀ x, x ∈ s.entered ++ s.allocated :: entering s.enqueues →
      x = s.allocated ∨ x ∈ s.entered ++ entering s.enqueues := by
    intro x hx
    simp only [List.mem_append, List.mem_cons] at hx ⊢
    rcases hx with hx | rfl | hx
    · exact Or.inr (Or.inl hx)
    · exact Or.inl rfl
    · exact Or.inr (Or.inr hx)
  exact {
    entries := h.entries.insert (fun hc => hentered (h.mem_entered_of_chain hc)) hentering
    nodup := by
      show (s.entered ++ s.allocated :: entering s.enqueues).Nodup
      rw [List.nodup_middle]
      exact List.nodup_cons.mpr ⟨hfresh, h.nodup⟩
    made := by
      intro x hx
      rcases hmem x hx with rfl | hx
      · exact Nat.lt_succ_self _
      · exact Nat.lt_succ_of_lt (h.made x hx)
    first := h.first
    filled := by
      intro x hx hne
      show (Function.update s.data s.allocated (some input) x).isSome
      rcases hmem x hx with rfl | hx
      · rw [Function.update_self, Option.isSome_some]
      · rw [Function.update_of_ne (by rintro rfl; exact hfresh hx)]
        exact h.filled x hx hne
    data := by
      show s.entered.filterMap (Function.update s.data s.allocated (some input)) = s.exchanged
      rw [List.filterMap_congr hsame]
      exact h.data
    consumer := by
      have hc := h.consumer
      show ConsumerOk s.toLinkQueue (Function.update s.data s.allocated (some input)) s.dequeue
      cases hd : s.dequeue with
      | storeTail tail next result =>
        rw [hd] at hc
        refine ⟨hc.1, hc.2.1, ?_⟩
        rw [hsame next (h.mem_entered_of_chain (h.next_mem hc.2.1))]
        exact hc.2.2
      | _ => rw [hd] at hc; exact hc
    deleted := h.deleted
    returned := by
      show (s.left ++ [s.tail]).filterMap (Function.update s.data s.allocated (some input)) = _
      rw [List.filterMap_congr fun x hx => hsame x (h.mem_entered_of_passed hx)]
      exact h.returned
    quiet := fun hq => by cases hq }

theorem producer_inv (h : s.Inv) (pc : EnqueuePc) :
    Ends (· = .noSuchCall) Inv (s.step (.producer pc)) := by
  rw [step]
  by_cases hmem : pc ∈ s.enqueues
  · rw [if_neg (not_not.mpr hmem), enqueueStep]
    have haccess : s.enqueueAccess pc = .ok () := by
      cases pc with
      | storeNull node => exact access_ok (h.entering_alive (mem_entering hmem rfl))
      | exchange node => rfl
      | storeLink prevHead node =>
        have hlink : (prevHead, node) ∈ s.enqueues.filterMap Entry.link? :=
          List.mem_filterMap.mpr ⟨_, hmem, rfl⟩
        exact access_ok (h.chain_alive (h.entries.sound.of_link hlink).1)
    rw [haccess]
    obtain ⟨hentries, henters⟩ := h.entries.step hmem
    have hperm := step_entered s.toLinkQueue hmem
    have hmem' := fun x => (hperm.mem_iff (a := x)).mp
    exact {
      entries := hentries
      nodup := hperm.nodup_iff.mpr h.nodup
      made := fun x hx => h.made x (hmem' x hx)
      first := by
        cases pc with
        | storeNull node => exact h.first
        | exchange node =>
          show (s.entered ++ [node]).head? = some 0
          rw [List.head?_append, h.first]
          rfl
        | storeLink prevHead node => exact h.first
      filled := fun x hx => h.filled x (hmem' x hx)
      data := by
        cases pc with
        | storeNull node => exact h.data.trans (List.append_nil _).symm
        | exchange node =>
          show (s.entered ++ [node]).filterMap s.data = s.exchanged ++ (s.data node).toList
          rw [List.filterMap_append, h.data]
          cases hd : s.data node <;> simp [hd]
        | storeLink prevHead node => exact h.data.trans (List.append_nil _).symm
      consumer := consumerOk_enters h.entries.sound h.consumer henters
      deleted := by
        show (pc.step s.toLinkQueue).1.left = _
        rw [henters.left]
        exact h.deleted
      returned := by
        show ((pc.step s.toLinkQueue).1.left ++ [(pc.step s.toLinkQueue).1.tail]).filterMap _ = _
        rw [henters.left, henters.tail]
        exact h.returned
      quiet := by
        intro hq
        rw [h.quiet hq] at hmem
        cases hmem }
  · rw [if_pos hmem]
    rfl

/-! ### Steps of the consumer -/

theorem Inv.setDequeue (h : s.Inv) (dpc : DequeuePc T) (hl : s.dequeue.leaving = [])
    (hr : s.dequeue.result = []) (hl' : dpc.leaving = []) (hr' : dpc.result = [])
    (hc : ConsumerOk s.toLinkQueue s.data dpc) : ({ s with dequeue := dpc } : State T).Inv :=
  { h with
    consumer := hc
    deleted := by
      show s.left = s.deleted ++ dpc.leaving
      rw [hl', ← hl]
      exact h.deleted
    returned := by
      show _ = s.returned ++ dpc.result
      rw [hr', ← hr]
      exact h.returned }

theorem dequeue_inv (h : s.Inv) : Ends (· = .noSuchCall) Inv (s.step .dequeue) := by
  rw [step]
  cases hd : s.dequeue with
  | idle =>
    have hidle := h.setDequeue .loadTail (by rw [hd]; rfl) (by rw [hd]; rfl) rfl rfl trivial
    exact { hidle with quiet := List.isEmpty_iff.mp }
  | _ => rfl

theorem Inv.storeTail (h : s.Inv) {tail next : Nat} {result : T}
    (hd : s.dequeue = .storeTail tail next result) :
    ({ s with
      toLinkQueue := s.toLinkQueue.storeTail next
      dequeue := .delete tail result } : State T).Inv := by
  have hc := h.consumer
  rw [hd] at hc
  obtain ⟨rfl, hn, hdata⟩ := hc
  have hleft := h.entries.sound.left_storeTail next
  exact {
    entries := h.entries.storeTail hn
    nodup := h.nodup
    made := h.made
    first := h.first
    filled := h.filled
    data := h.data
    consumer := trivial
    deleted := by
      have hdel := h.deleted
      rw [hd] at hdel
      show (s.toLinkQueue.storeTail next).left = s.deleted ++ [s.tail]
      rw [hleft, hdel]
      simp [DequeuePc.leaving]
    returned := by
      have hret := h.returned
      rw [hd] at hret
      show ((s.toLinkQueue.storeTail next).left ++ [next]).filterMap s.data =
        s.returned ++ [result]
      rw [hleft, List.filterMap_append, hret]
      simp [DequeuePc.result, hdata]
    quiet := h.quiet }

theorem consumer_inv (h : s.Inv) : Ends (· = .noSuchCall) Inv (s.step .consumer) := by
  change Ends _ _ s.dequeueStep
  have hc := h.consumer
  rw [dequeueStep]
  cases hd : s.dequeue with
  | idle => rfl
  | loadTail => exact h.setDequeue _ (by rw [hd]; rfl) (by rw [hd]; rfl) rfl rfl rfl
  | loadNext tail =>
    rw [hd] at hc
    obtain rfl : tail = s.tail := hc
    dsimp only
    rw [access_ok (h.chain_alive h.entries.sound.tail_mem)]
    have hl : s.dequeue.leaving = [] := by rw [hd]; rfl
    have hr : s.dequeue.result = [] := by rw [hd]; rfl
    cases hn : s.next s.tail with
    | none =>
      have hidle := h.setDequeue .idle hl hr rfl rfl trivial
      refine { hidle with returned := hidle.returned.trans ?_ }
      show s.returned ++ [] = (s.answers ++ [none]).filterMap id ++ []
      simp [State.returned]
    | some next => exact h.setDequeue _ hl hr rfl rfl ⟨rfl, hn⟩
  | readData tail next =>
    rw [hd] at hc
    obtain ⟨rfl, hn⟩ := hc
    dsimp only
    have hmem := h.next_mem hn
    rw [access_ok (h.chain_alive hmem)]
    obtain ⟨result, hdata⟩ := Option.isSome_iff_exists.mp (h.filled next
      (List.mem_append_left _ (h.mem_entered_of_chain hmem)) (h.next_ne_zero hn))
    show Ends _ _ (match s.data next with | none => _ | some result => _)
    rw [hdata]
    exact h.setDequeue _ (by rw [hd]; rfl) (by rw [hd]; rfl) rfl rfl ⟨rfl, hn, hdata⟩
  | storeTail tail next result => exact h.storeTail hd
  | delete tail result =>
    have hdel := h.deleted
    have hret := h.returned
    rw [hd] at hdel hret
    have halive : tail ∉ s.deleted := by
      have hnodup := (List.nodup_append.mp h.nodup).1
      rw [← h.left_append_chain, hdel] at hnodup
      intro hmem
      exact (List.nodup_append.mp (List.nodup_append.mp hnodup).1).2.2 tail hmem tail
        (List.mem_singleton_self _) rfl
    dsimp only
    rw [access_ok halive]
    exact { h with
      consumer := trivial
      deleted := hdel.trans (List.append_nil _).symm
      returned := by
        refine hret.trans ?_
        show s.returned ++ [result] = (s.answers ++ [some result]).filterMap id ++ []
        rw [List.filterMap_append, List.append_nil]
        rfl }

/-- **Every step keeps the invariant**, and fails at most because there is no such call. -/
theorem step_spec (s : State T) (a : Act T) (h : s.Inv) :
    Ends (· = .noSuchCall) Inv (s.step a) := by
  cases a with
  | enqueue input => exact enqueue_inv h input
  | producer pc => exact producer_inv h pc
  | dequeue => exact dequeue_inv h
  | consumer => exact consumer_inv h

theorem new_inv (next : Nat → Option Nat) : (new next : State T).Inv where
  entries := entries_single (Function.update_self ..)
  nodup := List.nodup_singleton 0
  made := by
    intro x hx
    rw [List.mem_singleton.mp hx]
    exact Nat.one_pos
  first := rfl
  filled := by
    intro x hx hne
    exact absurd (List.mem_singleton.mp hx) hne
  data := rfl
  consumer := trivial
  deleted := rfl
  returned := rfl
  quiet := by
    intro hq
    cases hq

/-! ### Runs -/

theorem Inv.returned_first (h : s.Inv) : s.returned <+: s.exchanged := by
  obtain ⟨l, hl⟩ := h.entries.sound.cons
  rw [← h.data, ← h.left_append_chain, hl, List.append_cons, List.filterMap_append, h.returned,
    List.append_assoc]
  exact List.prefix_append _ _

/-- **An undisturbed `Dequeue` that returns `false`** leaves nothing behind. -/
theorem Inv.returned_of_false (h : s.Inv) (hq : s.quiet = true) (hstep : s.step .consumer = .ok t)
    (hans : t.answers = s.answers ++ [none]) : t.returned = t.exchanged := by
  change s.dequeueStep = .ok t at hstep
  have hc := h.consumer
  rw [dequeueStep] at hstep
  cases hd : s.dequeue with
  | idle => rw [hd] at hstep; cases hstep
  | loadTail => rw [hd] at hstep; cases hstep; simp at hans
  | loadNext tail =>
    rw [hd] at hstep hc
    obtain rfl : tail = s.tail := hc
    obtain ⟨-, -, hstep⟩ := bind_ok hstep
    cases hn : s.next s.tail with
    | none =>
      rw [hn] at hstep
      cases hstep
      have hsound := h.entries.sound
      have hret := h.returned
      rw [h.quiet hq] at hsound
      rw [hd, ← hsound.end_of_no_links hn, h.left_append_chain, h.data] at hret
      show (s.answers ++ [none]).filterMap id = s.exchanged
      rw [List.filterMap_append, hret]
      rfl
    | some next => rw [hn] at hstep; cases hstep; simp at hans
  | readData tail next =>
    rw [hd] at hstep
    obtain ⟨-, -, hstep⟩ := bind_ok hstep
    cases hdata : s.data next <;> rw [hdata] at hstep <;> cases hstep
    simp at hans
  | storeTail tail next result => rw [hd] at hstep; cases hstep; simp at hans
  | delete tail result =>
    rw [hd] at hstep
    obtain ⟨-, -, hstep⟩ := bind_ok hstep
    cases hstep
    simp at hans

/-! ### What was enqueued -/

/-- The elements whose nodes have been exchanged, and those on their way. -/
def enqueued (s : State T) : List T := (s.entered ++ entering s.enqueues).filterMap s.data

theorem consumer_frame (hstep : s.step .consumer = .ok t) :
    t.entered = s.entered ∧ t.enqueues = s.enqueues ∧ t.data = s.data := by
  change s.dequeueStep = .ok t at hstep
  rw [dequeueStep] at hstep
  cases hd : s.dequeue with
  | idle => rw [hd] at hstep; cases hstep
  | loadTail => rw [hd] at hstep; cases hstep; exact ⟨rfl, rfl, rfl⟩
  | loadNext tail =>
    rw [hd] at hstep
    obtain ⟨-, -, hstep⟩ := bind_ok hstep
    cases hn : s.next tail <;> rw [hn] at hstep <;> cases hstep <;> exact ⟨rfl, rfl, rfl⟩
  | readData tail next =>
    rw [hd] at hstep
    obtain ⟨-, -, hstep⟩ := bind_ok hstep
    cases hdata : s.data next <;> rw [hdata] at hstep <;> cases hstep
    exact ⟨rfl, rfl, rfl⟩
  | storeTail tail next result => rw [hd] at hstep; cases hstep; exact ⟨rfl, rfl, rfl⟩
  | delete tail result =>
    rw [hd] at hstep
    obtain ⟨-, -, hstep⟩ := bind_ok hstep
    cases hstep
    exact ⟨rfl, rfl, rfl⟩

theorem step_enqueued (s : State T) (a : Act T) (t : State T) (h : s.Inv)
    (hstep : s.step a = .ok t) : t.enqueued.Perm (s.enqueued ++ a.input?.toList) := by
  cases a with
  | enqueue input =>
    cases hstep
    have hfresh : s.allocated ∉ s.entered ++ entering s.enqueues := fun hmem =>
      Nat.lt_irrefl _ (h.made _ hmem)
    have hsame : ∀ x ∈ s.entered ++ entering s.enqueues,
        Function.update s.data s.allocated (some input) x = s.data x := by
      intro x hx
      exact Function.update_of_ne (by rintro rfl; exact hfresh hx) _ _
    show ((s.entered ++ s.allocated :: entering s.enqueues).filterMap
      (Function.update s.data s.allocated (some input))).Perm _
    refine (List.perm_middle.filterMap _).trans ?_
    rw [List.filterMap_cons, Function.update_self, List.filterMap_congr hsame]
    exact (List.perm_append_singleton _ _).symm
  | producer pc =>
    rw [step] at hstep
    split at hstep
    · cases hstep
    rename_i hmem
    rw [not_not] at hmem
    obtain ⟨-, -, hstep⟩ := bind_ok hstep
    cases hstep
    rw [show (Act.producer pc : Act T).input?.toList = [] from rfl, List.append_nil]
    exact (step_entered s.toLinkQueue hmem).filterMap s.data
  | dequeue =>
    rw [step] at hstep
    split at hstep
    · cases hstep
      rw [show (Act.dequeue : Act T).input?.toList = [] from rfl, List.append_nil]
      exact List.Perm.refl _
    · cases hstep
  | consumer =>
    obtain ⟨hentered, henqueues, hdata⟩ := consumer_frame hstep
    rw [show (Act.consumer : Act T).input?.toList = [] from rfl, List.append_nil, enqueued,
      enqueued, hentered, henqueues, hdata]

/-- **The elements come out in the order of the exchanges, and no deleted node is touched.**
A run from a new queue fails at most because there is no such call.  What `Dequeue` has
returned is the first part of what was exchanged, and a `Dequeue` that returns `false`, and
during which no `Enqueue` was in progress, does so when everything that went in has come
out. -/
theorem nonIntrusive_order (next : Nat → Option Nat) (acts : List (Act T)) :
    (∀ e, run step (new next) acts = .error e → e = .noSuchCall) ∧
      ∀ s : State T, run step (new next) acts = .ok s →
        s.returned <+: s.exchanged ∧
          ∀ t, s.quiet = true → s.step .consumer = .ok t → t.answers = s.answers ++ [none] →
            (acts.filterMap Act.input?).Perm t.returned := by
  have hends : Ends (· = .noSuchCall) Inv (run step (new next : State T) acts) :=
    ends_run step_spec acts _ (new_inv next)
  refine ⟨fun e he => hends.of_error he, fun s hs => ?_⟩
  have hinv : s.Inv := hends.of_ok hs
  refine ⟨hinv.returned_first, fun t hq hstep hans => ?_⟩
  have hperm := run_collects (fun s a _ h => (step_spec s a h).of_ok) step_enqueued acts _ _
    (new_inv next) hs
  have hinv' : t.Inv := (step_spec s .consumer hinv).of_ok hstep
  obtain ⟨hentered, -, hdata⟩ := consumer_frame hstep
  rw [enqueued, hinv.quiet hq, entering, List.filterMap_nil, List.append_nil, ← hentered, ← hdata,
    hinv'.data, ← hinv.returned_of_false hq hstep hans] at hperm
  exact hperm.symm

/-- Two producers, the second of which is exchanged first, and two elements that are taken
out; then a `Dequeue` that has read the tail. -/
def twoProducers : List (Act Char) :=
  [.enqueue 'a', .enqueue 'b', .producer (.storeNull 1), .producer (.storeNull 2),
    .producer (.exchange 2), .producer (.exchange 1), .producer (.storeLink 2 1), .dequeue,
    .consumer, .consumer, .producer (.storeLink 0 2), .dequeue, .consumer, .consumer, .consumer,
    .consumer, .consumer, .dequeue, .consumer, .consumer, .consumer, .consumer, .consumer,
    .dequeue, .consumer]

theorem nonIntrusive_order_two :
    ∃ s, run step (new fun _ => none) twoProducers = .ok s ∧ s.returned = ['b', 'a'] ∧
      s.deleted = [0, 2] ∧ s.returned <+: s.exchanged := by
  obtain ⟨s, hs, hp⟩ := ok_of_any (p := fun s => s.returned = ['b', 'a'] ∧ s.deleted = [0, 2])
    (x := run step (new fun _ => none) twoProducers) (by decide)
  obtain ⟨hreturned, hdeleted⟩ := of_decide_eq_true hp
  exact ⟨s, hs, hreturned, hdeleted, ((nonIntrusive_order _ _).2 s hs).1⟩

end State

end WarheadDiscord.MPSCQueueNonIntrusive
