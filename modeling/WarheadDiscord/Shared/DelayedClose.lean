import WarheadDiscord.Common.Fault
import WarheadDiscord.Lib.Machine
import WarheadDiscord.Shared.Socket

/-!
# Closing a socket after its last write

`DelayedCloseSocket` marks a socket, and the pop that empties the write queue of a marked
socket closes it.  `Update` lets a marked socket with an empty queue through, but then
`HandleQueue` finds nothing to write and returns before it looks at the mark.

* `handleQueue_settled`: a write does not leave a marked socket open with nothing to do.
* `idle_of_run`: a socket is marked and open with nothing to do only after a
  `DelayedCloseSocket` that found its queue empty.
* `delayedClose_iff`: **every `Update` finds or leaves the marked socket closed** unless one
  comes right after such a call.
-/

namespace WarheadDiscord

open Lib

namespace Socket

/-- What happens to the write side of a socket that may be closed. -/
inductive CloseEvent where
  | queuePacket (buffer : MessageBuffer)
  | delayedCloseSocket
  | closeSocket
  | update (writeSome : Nat → Nat → WriteResult)
  /-- The wait for writability is over, if there is one. -/
  | writeReady (writeSome : Nat → WriteResult)

def closeStep (s : Socket) : CloseEvent → Except Fault Socket
  | .queuePacket buffer => .ok (s.queuePacket buffer)
  | .delayedCloseSocket => .ok s.delayedCloseSocket
  | .closeSocket => .ok s.closeSocket
  | .update w => .ok (s.update w).1
  | .writeReady w => .ok (if s.isWritingAsync then s.writeHandlerWrapper w else s)

/-- A marked socket that has nothing left to write is closed. -/
def Settled (s : Socket) : Prop :=
  s.closing = true → s.isWritingAsync = false → s.writeQueue = [] → s.closed = true

/-- Marked, open, and nothing left to write. -/
structure Idle (s : Socket) : Prop where
  closing : s.closing = true
  isWritingAsync : s.isWritingAsync = false
  writeQueue : s.writeQueue = []
  closed : s.closed = false

/-- A wait for writability is for a message in the queue. -/
def Waiting (s : Socket) : Prop := s.isWritingAsync = true → s.writeQueue ≠ []

variable {s t : Socket}

theorem not_settled_iff (s : Socket) : ¬ s.Settled ↔ s.Idle := by
  constructor
  · intro h
    by_contra hn
    apply h
    intro hc ha hq
    by_contra ho
    exact hn ⟨hc, ha, hq, Bool.eq_false_iff.mpr ho⟩
  · intro h hs
    have hclosed := hs h.closing h.isWritingAsync h.writeQueue
    rw [h.closed] at hclosed
    simp at hclosed

/-! ### The writes -/

theorem popPacket_settled (s : Socket) : s.popPacket.Settled := by
  intro hc _ hq
  rw [popPacket_closing] at hc
  rw [popPacket_writeQueue] at hq
  simp [popPacket_closed, hc, hq]

/-- **A write does not leave a marked socket open with nothing to do.** -/
theorem handleQueue_settled (writeSome : Nat → WriteResult) (h : s.Settled) :
    (s.handleQueue writeSome).1.Settled := by
  have hcase := handleQueue_handled writeSome s
  generalize s.handleQueue writeSome = r at hcase ⊢
  cases hcase with
  | empty => exact h
  | wait => intro _ ha; simp at ha
  | fail => exact popPacket_settled _
  | nothing => exact popPacket_settled _
  | part => intro _ ha; simp at ha
  | whole => exact popPacket_settled _

theorem handleQueueLoop_settled : ∀ (fuel : Nat) (w : Nat → Nat → WriteResult) (s : Socket),
    s.Settled → (handleQueueLoop fuel w s).Settled := by
  intro fuel
  induction fuel with
  | zero => intro _ s h; exact h
  | succ fuel ih =>
    intro w s h
    have hnext := handleQueue_settled (w 0) h
    rw [handleQueueLoop]
    split
    · exact ih _ _ hnext
    · exact hnext

/-- A message is in the queue while there is a wait for it. -/
theorem handleQueue_waiting (writeSome : Nat → WriteResult) (h : s.isWritingAsync = false) :
    (s.handleQueue writeSome).1.Waiting ∧
      ((s.handleQueue writeSome).2 = true →
        (s.handleQueue writeSome).1.isWritingAsync = false) := by
  have hpop (sent : List UInt8) : ({ s with sent := sent } : Socket).popPacket.Waiting := by
    intro ha
    simp [h] at ha
  have hcase := handleQueue_handled writeSome s
  generalize s.handleQueue writeSome = r at hcase ⊢
  cases hcase with
  | empty => exact ⟨by intro ha; simp [h] at ha, by simp⟩
  | wait hq => exact ⟨by intro _; simp [hq], by simp⟩
  | fail => exact ⟨hpop s.sent, by simp⟩
  | nothing => exact ⟨hpop _, by simp⟩
  | part => exact ⟨by intro _; simp, by simp⟩
  | whole => exact ⟨hpop _, by simp [h]⟩

theorem handleQueueLoop_waiting : ∀ (fuel : Nat) (w : Nat → Nat → WriteResult) (s : Socket),
    s.isWritingAsync = false → (handleQueueLoop fuel w s).Waiting := by
  intro fuel
  induction fuel with
  | zero => intro _ s h ha; simp [handleQueueLoop, h] at ha
  | succ fuel ih =>
    intro w s h
    obtain ⟨hwaiting, hagain⟩ := handleQueue_waiting (w 0) h
    rw [handleQueueLoop]
    split
    · rename_i hr
      exact ih _ _ (hagain hr)
    · exact hwaiting

/-! ### The steps -/

/-- `Update` leaves a marked socket that is open with nothing to do as it finds it. -/
theorem update_settled (w : Nat → Nat → WriteResult) (s : Socket) :
    (s.update w).1.Settled ↔ s.Settled := by
  constructor
  · intro h
    by_contra hn
    have hidle := (not_settled_iff s).mp hn
    have hsame : (s.update w).1 = s := by
      simp [update, hidle.closed, hidle.isWritingAsync, hidle.closing, hidle.writeQueue,
        handleQueueLoop, handleQueue]
    rw [hsame] at h
    exact hn h
  · intro h
    unfold update
    split
    · exact h
    · split
      · exact h
      · exact handleQueueLoop_settled _ _ _ h

theorem closeStep_waiting (e : CloseEvent) (h : s.Waiting) (hstep : s.closeStep e = .ok t) :
    t.Waiting := by
  cases e with
  | queuePacket b => cases hstep; intro _; simp [queuePacket]
  | delayedCloseSocket => cases hstep; exact h
  | closeSocket => cases hstep; intro ha; simpa using h (by simpa using ha)
  | update w =>
    cases hstep
    unfold update
    split
    · exact h
    · split
      · exact h
      · rename_i hguard
        apply handleQueueLoop_waiting
        simp at hguard
        exact hguard.1
  | writeReady w =>
    cases hstep
    split
    · exact (handleQueue_waiting w (s := { s with isWritingAsync := false }) rfl).1
    · exact h

/-- After this event a socket has something to write, or is closed. -/
def CloseEvent.Wakes : CloseEvent → Prop
  | .queuePacket _ => True
  | .closeSocket => True
  | _ => False

theorem Idle.closeStep {e : CloseEvent} (h : s.Idle) (he : ¬ e.Wakes)
    (hstep : s.closeStep e = .ok t) : t.Idle := by
  cases e with
  | queuePacket b => exact absurd trivial he
  | closeSocket => exact absurd trivial he
  | delayedCloseSocket => cases hstep; exact { h with closing := rfl }
  | update w =>
    cases hstep
    rw [← not_settled_iff, update_settled, not_settled_iff]
    exact h
  | writeReady w =>
    cases hstep
    simp only [h.isWritingAsync, Bool.false_eq_true, if_false]
    exact h

/-- **Where an idle socket comes from.** -/
theorem idle_closeStep {e : CloseEvent} (hw : s.Waiting) (hstep : s.closeStep e = .ok t)
    (h : t.Idle) : (s.Idle ∧ ¬ e.Wakes) ∨
      (e = .delayedCloseSocket ∧ s.closed = false ∧ s.writeQueue = []) := by
  cases e with
  | queuePacket b => cases hstep; simpa [queuePacket] using h.writeQueue
  | closeSocket => cases hstep; simpa using h.closed
  | delayedCloseSocket => cases hstep; exact Or.inr ⟨rfl, h.closed, h.writeQueue⟩
  | update w =>
    cases hstep
    rw [← not_settled_iff, update_settled, not_settled_iff] at h
    exact Or.inl ⟨h, id⟩
  | writeReady w =>
    cases hstep
    by_cases ha : s.isWritingAsync = true
    · -- the message of the wait is in the queue, so the socket settles
      rw [if_pos ha] at h
      have hsettled : ({ s with isWritingAsync := false } : Socket).Settled :=
        fun _ _ hq => absurd hq (hw ha)
      exact absurd (handleQueue_settled w hsettled) ((not_settled_iff _).mpr h)
    · rw [if_neg ha] at h
      exact Or.inl ⟨h, id⟩

/-! ### The runs -/

theorem run_waiting {events : List CloseEvent} (h : run closeStep new events = .ok t) :
    t.Waiting :=
  run_invariant (I := Waiting) (fun _ e _ hs hstep => closeStep_waiting e hs hstep) events new t
    (fun ha => by simp [new] at ha) h

theorem run_closeStep_ok (events : List CloseEvent) : ∃ t, run closeStep new events = .ok t := by
  have hok (s : Socket) (e : CloseEvent) : ∃ t, s.closeStep e = .ok t := by
    cases e <;> exact ⟨_, rfl⟩
  obtain ⟨t, ht, -⟩ := run_of_meets (I := fun _ => True) (C := fun _ _ => True)
    (fun _ _ _ _ _ _ => trivial) (fun s e _ _ => hok s e) events new trivial
    (meets_of_forall events new fun _ _ _ => trivial)
  exact ⟨t, ht⟩

/-- `DelayedCloseSocket` was called on an open socket with an empty queue, and since then
nothing was queued and the socket was not closed. -/
def LeftIdle (events : List CloseEvent) : Prop :=
  ∃ pre mid s, events = pre ++ .delayedCloseSocket :: mid ∧ run closeStep new pre = .ok s ∧
    s.closed = false ∧ s.writeQueue = [] ∧ ∀ e ∈ mid, ¬ e.Wakes

theorem idle_of_leftIdle {events : List CloseEvent} (h : LeftIdle events)
    (hrun : run closeStep new events = .ok t) : t.Idle := by
  obtain ⟨pre, mid, s, rfl, hpre, hclosed, hq, hmid⟩ := h
  have ha : s.isWritingAsync = false := by
    by_contra ha
    exact run_waiting hpre (by simpa using ha) hq
  have hmarked : s.delayedCloseSocket.Idle := ⟨rfl, ha, hq, hclosed⟩
  rw [run_append_of_ok hpre, run_cons_of_ok (t := s.delayedCloseSocket) rfl] at hrun
  exact visits_invariant (I := Idle) (C := fun _ e => ¬ e.Wakes)
    (fun _ _ _ hi he hstep => hi.closeStep he hstep) mid _ hmarked
    (each_of_forall mid _ fun e he _ => hmid e he) t (visits_of_run hrun)

/-- **A socket is idle only after a `DelayedCloseSocket` that found nothing to write.** -/
theorem idle_of_run (events : List CloseEvent) : ∀ t, run closeStep new events = .ok t →
    t.Idle → LeftIdle events := by
  induction events using List.reverseRecOn with
  | nil =>
    intro t hrun h
    cases hrun
    simpa [new] using h.closing
  | append_singleton events e ih =>
    intro t hrun h
    obtain ⟨s, hs, hlast⟩ := run_append_ok hrun
    obtain ⟨t', hstep, hnil⟩ := run_cons_ok hlast
    cases hnil
    rcases idle_closeStep (run_waiting hs) hstep h with ⟨hidle, he⟩ | ⟨rfl, hclosed, hq⟩
    · obtain ⟨pre, mid, u, rfl, hpre, hclosed, hq, hmid⟩ := ih s hs hidle
      refine ⟨pre, mid ++ [e], u, by simp, hpre, hclosed, hq, ?_⟩
      intro e' he'
      rcases List.mem_append.mp he' with he' | he'
      · exact hmid e' he'
      · obtain rfl := List.mem_singleton.mp he'
        exact he
    · exact ⟨events, [], s, rfl, hs, hclosed, hq, by simp⟩

/-- An `Update` of the run returns in the state `t`. -/
def UpdateReturns (events : List CloseEvent) (t : Socket) : Prop :=
  ∃ pre w, pre ++ [CloseEvent.update w] <+: events ∧
    run closeStep new (pre ++ [CloseEvent.update w]) = .ok t

/-- **When a delayed close takes effect.**  After every `Update` of a run a marked socket with
nothing left to write is closed, exactly if no `Update` comes after a `DelayedCloseSocket` that
found the queue of the open socket empty, with nothing queued and no close since then. -/
theorem delayedClose_iff (events : List CloseEvent) :
    (∀ t, UpdateReturns events t → t.Settled) ↔
      ∀ pre w, pre ++ [.update w] <+: events → ¬ LeftIdle pre := by
  constructor
  · intro h pre w hpre hleft
    obtain ⟨s, hs⟩ := run_closeStep_ok pre
    have hsettled := h (s.update w).1 ⟨pre, w, hpre, by rw [run_append_of_ok hs]; rfl⟩
    rw [update_settled] at hsettled
    exact (not_settled_iff s).mpr (idle_of_leftIdle hleft hs) hsettled
  · rintro h t ⟨pre, w, hpre, hrun⟩
    obtain ⟨s, hs, hlast⟩ := run_append_ok hrun
    cases hlast
    rw [update_settled]
    by_contra hn
    exact h pre w hpre (idle_of_run pre s hs ((not_settled_iff s).mp hn))

/-- A new socket is marked, and `Update` leaves it open. -/
theorem delayedClose_ignored : ¬ ∀ t,
    UpdateReturns [.delayedCloseSocket, .update fun _ n => .accepted n] t → t.Settled := by
  intro h
  have hclosed := h new.delayedCloseSocket ⟨[.delayedCloseSocket], _, List.prefix_rfl, rfl⟩ rfl rfl
    rfl
  simp [delayedCloseSocket, new] at hclosed

end Socket

end WarheadDiscord
