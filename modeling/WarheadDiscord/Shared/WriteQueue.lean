import WarheadDiscord.Lib.Channel
import WarheadDiscord.Lib.Machine
import WarheadDiscord.Common.Fault
import WarheadDiscord.Shared.Socket

/-!
# The write queue is a channel of bytes

Seen from outside the write side of a socket takes bytes in at `queuePacket` and
gives them out to the kernel.  What is in between are the active bytes of the
buffers in the queue (`Socket.channel`).  As long as `write_some` either takes
some of what it is offered or says that it would block, every event is a move of
this channel (`step_moves`), and so nothing is lost and nothing overtakes
(`writeQueue_integrity`).  The same is shown of the variant with IOCP, where
moreover the outstanding operation was always given the front buffer
(`IocpSocket.Inv`).
-/

namespace WarheadDiscord

open Lib

/-- The kernel takes at most what it is offered, takes nothing only of nothing,
and does not fail. -/
def WriteResult.Admissible (offered : Nat) : WriteResult → Prop
  | accepted k => k ≤ offered ∧ (k = 0 → offered = 0)
  | wouldBlock => True
  | failed => False

namespace Socket

/-- The bytes of the buffers in the queue that are not yet read. -/
def pending (s : Socket) : List UInt8 := s.writeQueue.flatMap MessageBuffer.active

/-- The write side as a channel of bytes. -/
def channel (s : Socket) : Channel UInt8 := ⟨s.queued, s.sent, s.pending⟩

/-- What happens to the write side of an open socket. -/
inductive Event where
  | queuePacket (buffer : MessageBuffer)
  | update (writeSome : Nat → Nat → WriteResult)
  | writeReady (writeSome : Nat → WriteResult)

def Event.Admissible : Event → Prop
  | .queuePacket _ => True
  | .update w => ∀ i n, (w i n).Admissible n
  | .writeReady w => ∀ n, (w n).Admissible n

def step (s : Socket) : Event → Except Fault Socket
  | .queuePacket buffer => .ok (s.queuePacket buffer)
  | .update w => .ok (s.update w).1
  | .writeReady w => .ok (s.writeHandlerWrapper w)

variable {s : Socket}

theorem queuePacket_moves (s : Socket) (b : MessageBuffer) :
    (s.channel).Moves (s.queuePacket b).channel := by
  refine ⟨b.active, [], rfl, by simp [channel, queuePacket], ?_⟩
  simp only [channel, pending, queuePacket, List.flatMap_append, List.flatMap_singleton,
    List.nil_append]
  rfl

/-- The front of the queue goes out, byte by byte. -/
theorem front_moves {front : MessageBuffer} {rest : List MessageBuffer} {bytesSent : Nat}
    (hq : s.writeQueue = front :: rest) (hn : bytesSent ≤ front.getActiveSize) :
    (s.channel).Moves ⟨s.queued, s.sent ++ front.fromReadPointer bytesSent,
      front.active.drop bytesSent ++ rest.flatMap MessageBuffer.active⟩ := by
  rw [front.fromReadPointer_eq hn]
  refine ⟨[], front.active.take bytesSent, by simp [channel], rfl, ?_⟩
  rw [List.append_nil, ← List.append_assoc, List.take_append_drop]
  simp [channel, pending, hq]

/-- A buffer that is popped has gone out. -/
theorem popPacket_moves {front : MessageBuffer} {rest : List MessageBuffer} {bytesSent : Nat}
    (hc : s.closing = false) (hq : s.writeQueue = front :: rest)
    (hn : bytesSent = front.getActiveSize) :
    (s.channel).Moves
      { s with sent := s.sent ++ front.fromReadPointer bytesSent }.popPacket.channel := by
  have hle : front.active.length ≤ bytesSent := by
    rw [MessageBuffer.active, MessageBuffer.fromReadPointer, hn]
    exact List.length_take_le ..
  have hout := front_moves hq (Nat.le_of_eq hn)
  rw [List.drop_eq_nil_of_le hle, List.nil_append] at hout
  rw [popPacket_eq (s := { s with sent := s.sent ++ front.fromReadPointer bytesSent }) hc]
  simpa [channel, pending, hq] using hout

/-- **One `write_some` gives the front of the queue out.** -/
theorem handleQueue_moves {w : Nat → WriteResult} (hc : s.closing = false)
    (hw : ∀ n, (w n).Admissible n) : (s.channel).Moves (s.handleQueue w).1.channel := by
  have hadm {n : Nat} {result : WriteResult} (hr : w n = result) : result.Admissible n := by
    rw [← hr]
    exact hw n
  have hcase := handleQueue_handled w s
  generalize s.handleQueue w = r at hcase ⊢
  cases hcase with
  | empty => exact .refl _
  | wait => exact .refl _
  | fail hq hr => exact (hadm hr).elim
  | nothing hq hr => exact popPacket_moves hc hq ((hadm hr).2 rfl).symm
  | part hq hr h0 hn =>
    simpa [channel, pending, MessageBuffer.active_readCompleted] using
      front_moves hq (Nat.le_of_lt hn)
  | whole hq hr h0 hn => exact popPacket_moves hc hq (Nat.le_antisymm (hadm hr).1 hn)

theorem handleQueueLoop_moves : ∀ (fuel : Nat) (w : Nat → Nat → WriteResult) (s : Socket),
    s.closing = false → (∀ i n, (w i n).Admissible n) →
    (s.channel).Moves (handleQueueLoop fuel w s).channel := by
  intro fuel
  induction fuel with
  | zero => intro _ s _ _; exact .refl _
  | succ fuel ih =>
    intro w s hc hw
    have h1 := handleQueue_moves hc (hw 0)
    rw [handleQueueLoop]
    split
    · have hc1 := (handleQueue_sameEnds (w 0) hc).closing.trans hc
      exact h1.trans (ih _ _ hc1 fun i n => hw (i + 1) n)
    · exact h1

/-- **Every event is a move of the channel**, and no event marks the socket for
closing. -/
theorem step_moves {e : Event} {t : Socket} (hc : s.closing = false) (he : e.Admissible)
    (h : s.step e = .ok t) : (s.channel).Moves t.channel ∧ t.closing = false := by
  cases e with
  | queuePacket b => cases h; exact ⟨queuePacket_moves s b, hc⟩
  | update w =>
    cases h
    refine ⟨?_, (update_sameEnds _ hc).closing.trans hc⟩
    unfold update
    split
    · exact .refl _
    · split
      · exact .refl _
      · exact handleQueueLoop_moves _ _ _ hc he
  | writeReady w =>
    cases h
    exact ⟨handleQueue_moves (s := { s with isWritingAsync := false }) hc he,
      (handleQueue_sameEnds (s := { s with isWritingAsync := false }) _ hc).closing.trans hc⟩

end Socket

namespace IocpSocket

/-- What happens to the write side under IOCP.  The outstanding operation may also
end with an error. -/
inductive Event where
  | queuePacket (buffer : MessageBuffer)
  | update
  | writeHandler (result : Nat → WriteResult)

def step (s : IocpSocket) : Event → Except Fault IocpSocket
  | .queuePacket buffer => .ok (s.queuePacket buffer)
  | .update => .ok s.update.1
  | .writeHandler r => .ok (s.writeHandler r)

/-- The outstanding operation was given the front buffer as it still is. -/
structure Inv (s : IocpSocket) : Prop where
  pendingWrite : ∀ offered, s.pendingWrite = some offered →
    s.base.isWritingAsync = true ∧
      ∃ front rest, s.base.writeQueue = front :: rest ∧ offered = front.active

theorem inv_new : Inv new := ⟨fun _ h => nomatch h⟩

theorem asyncProcessQueue_channel (s : IocpSocket) :
    s.asyncProcessQueue.base.channel = s.base.channel := by
  rw [asyncProcessQueue]
  split <;> rfl

theorem asyncProcessQueue_inv {s : IocpSocket} (h : Inv s) : Inv s.asyncProcessQueue := by
  unfold asyncProcessQueue
  split
  · exact h
  · refine ⟨fun offered ho => ⟨rfl, ?_⟩⟩
    dsimp only at ho ⊢
    cases hq : s.base.writeQueue with
    | nil => simp [hq] at ho
    | cons front rest =>
      simp only [hq, List.head?_cons, Option.map_some, Option.some.injEq] at ho
      exact ⟨front, rest, rfl, ho.symm⟩

theorem queuePacket_inv {s : IocpSocket} (h : Inv s) (b : MessageBuffer) :
    Inv (s.queuePacket b) := by
  refine asyncProcessQueue_inv ⟨fun offered ho => ?_⟩
  obtain ⟨hw, front, rest, hq, hf⟩ := h.pendingWrite offered ho
  refine ⟨hw, front, rest ++ [b.moveFrom.1], ?_, hf⟩
  show s.base.writeQueue ++ [b.moveFrom.1] = _
  rw [hq, List.cons_append]

theorem readCompletedFront_pending (k : Nat) (front : MessageBuffer) (rest : List MessageBuffer) :
    (readCompletedFront k (front :: rest)).flatMap MessageBuffer.active =
      front.active.drop k ++ rest.flatMap MessageBuffer.active := by
  rw [readCompletedFront, ← MessageBuffer.active_readCompleted]
  split
  · rename_i h0
    rw [MessageBuffer.active_of_getActiveSize h0, List.nil_append]
  · rw [List.flatMap_cons]

/-- **The end of an operation gives the front of the queue out.** -/
theorem writeHandler_moves {s : IocpSocket} {r : Nat → WriteResult} (h : Inv s) :
    (s.base.channel).Moves (s.writeHandler r).base.channel ∧ Inv (s.writeHandler r) := by
  have hnone : ∀ base, Inv ⟨base, none⟩ := fun base => ⟨fun _ h => nomatch h⟩
  have hclose : ∀ b : Socket, b.closeSocket.channel = b.channel := by
    intro b
    rw [Socket.channel, Socket.channel, Socket.pending, Socket.pending,
      Socket.closeSocket_queued, Socket.closeSocket_sent, Socket.closeSocket_writeQueue]
  unfold writeHandler
  split
  · exact ⟨.refl _, h⟩
  · rename_i offered hp
    obtain ⟨-, front, rest, hq, hof⟩ := h.pendingWrite offered hp
    split
    · rename_i k hk
      have hmove : (s.base.channel).Moves
          ({ s.base with
              isWritingAsync := false
              sent := s.base.sent ++ offered.take k
              writeQueue := readCompletedFront k s.base.writeQueue } : Socket).channel := by
        refine ⟨[], offered.take k, by simp [Socket.channel], rfl, ?_⟩
        show s.base.pending ++ [] = offered.take k ++
          (readCompletedFront k s.base.writeQueue).flatMap MessageBuffer.active
        rw [Socket.pending, hq, readCompletedFront_pending, List.flatMap_cons, List.append_nil,
          hof, ← List.append_assoc, List.take_append_drop]
      dsimp only
      split
      · refine ⟨?_, asyncProcessQueue_inv (hnone _)⟩
        rw [asyncProcessQueue_channel]
        exact hmove
      · split
        · exact ⟨by rw [hclose]; exact hmove, hnone _⟩
        · exact ⟨hmove, hnone _⟩
    · exact ⟨by rw [hclose]; exact .refl _, hnone _⟩

theorem step_moves {s t : IocpSocket} {e : Event} (hi : Inv s) (h : s.step e = .ok t) :
    (s.base.channel).Moves t.base.channel ∧ Inv t := by
  cases e with
  | queuePacket b =>
    cases h
    refine ⟨?_, queuePacket_inv hi b⟩
    rw [queuePacket, asyncProcessQueue_channel]
    exact Socket.queuePacket_moves s.base b
  | update => cases h; exact ⟨.refl _, hi⟩
  | writeHandler r => cases h; exact writeHandler_moves hi

end IocpSocket

/-- **Write-queue integrity.**  In every state of every run the kernel has accepted
a prefix of the bytes that were queued, and the rest of them is in the queue. -/
theorem writeQueue_integrity :
    (∀ events : List Socket.Event, (∀ e ∈ events, e.Admissible) →
      ∀ t, Visits Socket.step .new events t →
        t.sent <+: t.queued ∧
          t.queued = t.sent ++ t.writeQueue.flatMap MessageBuffer.active) ∧
    (∀ events : List IocpSocket.Event, ∀ t, Visits IocpSocket.step .new events t →
        t.base.sent <+: t.base.queued ∧
          t.base.queued = t.base.sent ++ t.base.writeQueue.flatMap MessageBuffer.active) := by
  constructor
  · intro events hadm t ht
    have hinv := visits_invariant (C := fun _ (e : Socket.Event) => e.Admissible)
      (I := fun s => s.channel.Lossless ∧ s.closing = false)
      (fun s e t hs he h =>
        ⟨(Socket.step_moves hs.2 he h).1.lossless hs.1, (Socket.step_moves hs.2 he h).2⟩)
      events Socket.new ⟨rfl, rfl⟩ (each_of_forall events _ fun e he _ => hadm e he) t ht
    exact ⟨hinv.1.sent_first, hinv.1⟩
  · intro events t ht
    have hinv := visits_invariant (C := fun _ (_ : IocpSocket.Event) => True)
      (I := fun s => s.base.channel.Lossless ∧ IocpSocket.Inv s)
      (fun s e t hs _ h =>
        ⟨(IocpSocket.step_moves hs.2 h).1.lossless hs.1, (IocpSocket.step_moves hs.2 h).2⟩)
      events IocpSocket.new ⟨rfl, IocpSocket.inv_new⟩
      (each_of_forall events _ fun _ _ _ => trivial) t ht
    exact ⟨hinv.1.sent_first, hinv.1⟩

/-- Two bytes of which the kernel first takes one. -/
theorem writeQueue_integrity_partial :
    Visits Socket.step .new
        [.queuePacket ⟨2, 0, [7, 8]⟩, .update fun _ n => .accepted (min n 1)]
        ⟨[⟨2, 1, [7, 8]⟩], false, false, true, [7, 8], [7]⟩ ∧
      [(7 : UInt8)] <+: [7, 8] := by
  have hv : Visits Socket.step .new
      [.queuePacket ⟨2, 0, [7, 8]⟩, .update fun _ n => .accepted (min n 1)]
      ⟨[⟨2, 1, [7, 8]⟩], false, false, true, [7, 8], [7]⟩ := visits_of_run rfl
  refine ⟨hv, (writeQueue_integrity.1 _ ?_ _ hv).1⟩
  intro e he
  rcases List.mem_cons.mp he with rfl | he
  · exact trivial
  · obtain rfl := List.mem_singleton.mp he
    intro _ n
    exact ⟨Nat.min_le_left n 1, fun h => by omega⟩

end WarheadDiscord
