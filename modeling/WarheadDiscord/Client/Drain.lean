import WarheadDiscord.Client.SendPacket
import WarheadDiscord.Shared.WriteQueue

/-!
# One `Update` for many packets

When the kernel takes whatever it is offered, the loop of `Update` goes through the write queue
and ends behind the first buffer that has nothing in it, because nothing sent counts as a reason
to stop (`Socket.unsent`).  `SendPacket` queues such a buffer in front of the frame of every
large packet.

* `Socket.update_acceptAll`: what an `Update` leaves of the queue.
* `sendPackets_socket`: what a list of packets puts into the queue.
* `sendsAll_iff`: **one `Update` sends all of them** exactly if the packets are small and the
  queue had no empty buffer in the way.
-/

namespace WarheadDiscord

open Lib

namespace Socket

/-- A kernel that takes all that it is offered. -/
def acceptAll : Nat → Nat → WriteResult := fun _ bytesToSend => .accepted bytesToSend

/-- What is left of the queue: the loop stops behind an empty buffer. -/
def unsent : List MessageBuffer → List MessageBuffer
  | [] => []
  | front :: rest => if front.getActiveSize = 0 then rest else unsent rest

variable {s : Socket} {front : MessageBuffer} {rest : List MessageBuffer}

theorem unsent_eq_nil_iff (queue : List MessageBuffer) :
    unsent queue = [] ↔ ∀ b ∈ queue.dropLast, 0 < b.getActiveSize := by
  induction queue with
  | nil => simp [unsent]
  | cons front rest ih =>
    by_cases hrest : rest = []
    · subst hrest
      simp [unsent]
    · rw [unsent, List.dropLast_cons_of_ne_nil hrest, List.forall_mem_cons, ← ih]
      split
      · rename_i h0
        simp [h0, hrest]
      · rename_i h0
        simp [Nat.pos_of_ne_zero h0]

/-- One write takes the front buffer, and asks for another one unless it was empty or the
last. -/
theorem handleQueue_acceptAll (hq : s.writeQueue = front :: rest) :
    (s.handleQueue (acceptAll 0)).1.writeQueue = rest ∧
      ((s.handleQueue (acceptAll 0)).2 = true ↔ front.getActiveSize ≠ 0 ∧ rest ≠ []) := by
  simp only [handleQueue, hq, acceptAll, Nat.lt_irrefl, if_false]
  split
  · rename_i h0
    simp [h0]
  · rename_i h0
    simp [h0]

theorem handleQueueLoop_acceptAll : ∀ (fuel : Nat) (s : Socket), s.writeQueue.length < fuel →
    (handleQueueLoop fuel acceptAll s).writeQueue = unsent s.writeQueue := by
  intro fuel
  induction fuel with
  | zero => intro _ h; exact absurd h (Nat.not_lt_zero _)
  | succ fuel ih =>
    intro s h
    rw [handleQueueLoop]
    by_cases hq : s.writeQueue = []
    · simp [handleQueue, hq, unsent]
    · obtain ⟨front, rest, hq⟩ := List.exists_cons_of_ne_nil hq
      obtain ⟨hrest, hagain⟩ := handleQueue_acceptAll hq
      rw [hq, unsent]
      by_cases hr : (s.handleQueue (acceptAll 0)).2 = true
      · obtain ⟨h0, -⟩ := hagain.mp hr
        have hlen : rest.length < fuel := by
          rw [hq, List.length_cons] at h
          omega
        rw [if_pos hr, if_neg h0, ← hrest]
        exact ih _ (by rw [hrest]; exact hlen)
      · rw [if_neg hr, hrest]
        by_cases h0 : front.getActiveSize = 0
        · rw [if_pos h0]
        · rw [if_neg h0]
          have hnil : rest = [] := by
            by_contra hne
            exact hr (hagain.mpr ⟨h0, hne⟩)
          rw [hnil, unsent]

/-- **What an `Update` leaves of the queue** of an open socket. -/
theorem update_acceptAll (ho : s.isOpen = true) (ha : s.isWritingAsync = false) :
    (s.update acceptAll).1.writeQueue = unsent s.writeQueue := by
  obtain ⟨hclosed, hclosing⟩ : s.closed = false ∧ s.closing = false := by
    simpa [isOpen] using ho
  rw [update, hclosed, ha, hclosing]
  by_cases hq : s.writeQueue = []
  · simp [hq, unsent]
  · simp [hq, handleQueueLoop_acceptAll]

theorem update_sent (ho : s.isOpen = true) (hq : (s.update acceptAll).1.writeQueue = []) :
    (s.update acceptAll).1.sent = s.sent ++ s.pending := by
  have hclosing : s.closing = false := by
    simp only [isOpen, Bool.and_eq_true, Bool.not_eq_true'] at ho
    exact ho.2
  have hadm : (Event.update acceptAll).Admissible := fun _ _ => ⟨Nat.le_refl _, id⟩
  obtain ⟨⟨new, out, hqueued, hsent, hflight⟩, -⟩ :=
    step_moves (t := (s.update acceptAll).1) hclosing hadm rfl
  have hnew : new = [] := by
    have hsame := (update_sameEnds acceptAll hclosing).queued
    exact List.append_cancel_left (hqueued.symm.trans (hsame.trans (List.append_nil _).symm))
  have hpending : (s.update acceptAll).1.pending = [] := by rw [pending, hq, List.flatMap_nil]
  simp only [channel, hnew, hpending, List.append_nil] at hsent hflight
  rw [hsent, hflight]

theorem foldl_queuePacket (buffers : List MessageBuffer) (s : Socket) :
    buffers.foldl queuePacket s =
      { s with
        writeQueue := s.writeQueue ++ buffers
        queued := s.queued ++ buffers.flatMap MessageBuffer.active } := by
  induction buffers generalizing s with
  | nil => simp
  | cons b rest ih =>
    rw [List.foldl_cons, ih]
    simp [queuePacket, MessageBuffer.moveFrom, MessageBuffer.move]

end Socket

namespace ClientSession

variable {s : ClientSession} {origin : Origin} {packets : List DiscordPacket}

/-- **What a list of packets puts into the write queue.** -/
theorem sendPackets_socket (origin : Origin) (packets : List DiscordPacket) :
    ∀ s : ClientSession, s.isOpen = true →
      (packets.foldl (sendPacket origin) s).socket =
        (packets.flatMap DiscordPacket.buffers).foldl Socket.queuePacket s.socket := by
  induction packets with
  | nil => intro s _; rfl
  | cons p rest ih =>
    intro s ho
    rw [List.foldl_cons, ih _ (by rw [sendPacket_isOpen]; exact ho), sendPacket_of_open ho,
      List.flatMap_cons, List.foldl_append, queueFrame_eq]

theorem new_getActiveSize : MessageBuffer.new.getActiveSize = 0 := rfl

theorem buffers_filled_iff (p : DiscordPacket) :
    (∀ b ∈ p.buffers, 0 < b.getActiveSize) ↔ p.size + 6 ≤ 4096 := by
  have hframe := p.frameBuffer_getActiveSize
  rw [DiscordPacket.buffers]
  split
  · rename_i hfit
    simp [hframe, hfit]
  · rename_i hfit
    simp [new_getActiveSize, hfit]

/-- The last buffer holds a frame, and the empty ones are in front of the large frames. -/
theorem buffers_dropLast (queue : List MessageBuffer) (packets : List DiscordPacket) :
    (∀ b ∈ (queue ++ packets.flatMap DiscordPacket.buffers).dropLast, 0 < b.getActiveSize) ↔
      (∀ p ∈ packets, p.size + 6 ≤ 4096) ∧
        ∀ b ∈ (if packets = [] then queue.dropLast else queue), 0 < b.getActiveSize := by
  by_cases hnil : packets = []
  · subst hnil
    simp
  · obtain ⟨packets, p, rfl⟩ := (List.eq_nil_or_concat packets).resolve_left hnil
    rw [List.concat_eq_append] at hnil ⊢
    have hlast : p.buffers = p.buffers.dropLast ++ [p.frameBuffer] := by
      rw [DiscordPacket.buffers]
      split <;> rfl
    have hinit : (∀ b ∈ p.buffers.dropLast, 0 < b.getActiveSize) ↔ p.size + 6 ≤ 4096 := by
      rw [← buffers_filled_iff, hlast, List.forall_mem_append, List.dropLast_concat]
      simp [p.frameBuffer_getActiveSize]
    have hbefore : (∀ b ∈ packets.flatMap DiscordPacket.buffers, 0 < b.getActiveSize) ↔
        ∀ p ∈ packets, p.size + 6 ≤ 4096 := by
      simp only [List.forall_mem_flatMap, buffers_filled_iff]
    rw [if_neg hnil, List.flatMap_append, List.flatMap_singleton, hlast, ← List.append_assoc,
      ← List.append_assoc, List.dropLast_concat, List.forall_mem_append, List.forall_mem_append,
      List.forall_mem_append, List.forall_mem_singleton, hinit, hbefore, and_assoc]
    exact And.comm

/-- **What an `Update` leaves behind the packets.** -/
theorem update_sendPackets (origin : Origin) (packets : List DiscordPacket)
    (ho : s.isOpen = true) (ha : s.socket.isWritingAsync = false) :
    ((packets.foldl (sendPacket origin) s).socket.update Socket.acceptAll).1.writeQueue =
      Socket.unsent (s.socket.writeQueue ++ packets.flatMap DiscordPacket.buffers) := by
  rw [sendPackets_socket origin packets s ho, Socket.foldl_queuePacket]
  exact Socket.update_acceptAll ho ha

/-- The packets are given to `SendPacket`, and one `Update` follows: everything is sent. -/
def SendsAll (origin : Origin) (s : ClientSession) (packets : List DiscordPacket) : Prop :=
  let t := ((packets.foldl (sendPacket origin) s).socket.update Socket.acceptAll).1
  t.writeQueue = [] ∧
    t.sent = s.socket.sent ++ s.socket.pending ++ packets.flatMap DiscordPacket.wire

/-- **When one `Update` sends all the packets.**  On an open socket without a pending write it
does exactly if each packet fits into a buffer of 4096 bytes with its header, and no buffer
that was in the queue before is empty, unless it is the last of all. -/
theorem sendsAll_iff (origin : Origin) (s : ClientSession) (packets : List DiscordPacket)
    (ho : s.isOpen = true) (ha : s.socket.isWritingAsync = false) :
    s.SendsAll origin packets ↔
      (∀ p ∈ packets, p.size + 6 ≤ 4096) ∧
        ∀ b ∈ (if packets = [] then s.socket.writeQueue.dropLast else s.socket.writeQueue),
          0 < b.getActiveSize := by
  have hqueue := update_sendPackets origin packets ho ha
  rw [← buffers_dropLast, ← Socket.unsent_eq_nil_iff, ← hqueue]
  constructor
  · intro h
    exact h.1
  · intro hq
    have hsocket := sendPackets_socket origin packets s ho
    rw [Socket.foldl_queuePacket] at hsocket
    have hopen : (packets.foldl (sendPacket origin) s).socket.isOpen = true := by
      rw [hsocket]
      exact ho
    have hpending : (packets.foldl (sendPacket origin) s).socket.pending =
        s.socket.pending ++ packets.flatMap DiscordPacket.wire := by
      rw [hsocket, Socket.pending, List.flatMap_append, List.flatMap_assoc]
      simp only [DiscordPacket.buffers_active]
      rfl
    refine ⟨hq, ?_⟩
    rw [Socket.update_sent hopen hq, hpending, ← List.append_assoc, hsocket]

/-- A new session, and two small packets. -/
theorem sendsAll_two : (ClientSession.new .sample).SendsAll .application
    [⟨⟨0, 1, [7]⟩, DiscordCode.clientSendMessage.value⟩,
      ⟨⟨0, 0, []⟩, DiscordCode.clientSendPing.value⟩] := by
  rw [sendsAll_iff .application _ _ (by decide +kernel) (by decide +kernel)]
  decide +kernel

/-- A packet of 4091 bytes stays in the queue. -/
theorem sendsAll_large : ¬ (ClientSession.new .sample).SendsAll .application
    [⟨⟨0, 4091, List.replicate 4091 0⟩, DiscordCode.clientSendMessage.value⟩] := by
  rintro ⟨hq, -⟩
  have hsize : (⟨⟨0, 4091, List.replicate 4091 0⟩, DiscordCode.clientSendMessage.value⟩ :
      DiscordPacket).size = 4091 := List.length_replicate
  rw [update_sendPackets _ _ (by decide +kernel) (by decide +kernel), Socket.unsent_eq_nil_iff,
    buffers_dropLast] at hq
  have hfit := hq.1 _ (List.mem_singleton_self _)
  rw [hsize] at hfit
  omega

end ClientSession

end WarheadDiscord
