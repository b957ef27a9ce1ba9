import WarheadDiscord.Client.ClientSocket

/-!
# What a socket sends

Packets of the application wait in `bufferQueue` and are written by `update`; the
packets of the session itself are written at the start and while a read is handled.

* `update_written`, `update_bufferQueue`: a tick writes the queue, or drops it when the
  socket is closed, or keeps it while the login is not answered.
* `Received`: what everything else does to the sending side.
* `step_received`: the events of a socket do no more than that.
-/

namespace WarheadDiscord

open Lib

namespace ClientSession

variable {env : Env} {s t u : ClientSession}

/-! ### A tick -/

theorem foldl_sendPacket_written (origin : Origin) : ∀ (ps : List DiscordPacket)
    (s : ClientSession), (ps.foldl (sendPacket origin) s).written =
      s.written ++ if s.isOpen then ps.map (⟨origin, ·⟩) else [] := by
  intro ps
  induction ps with
  | nil => intro s; simp
  | cons p ps ih =>
    intro s
    rw [List.foldl_cons, ih, sendPacket_isOpen, sendPacket_written]
    cases s.isOpen with
    | true => simp
    | false => simp

/-- A tick writes packets of the application, and only when the session is authenticated. -/
theorem update_written (w : Nat → Nat → WriteResult) (s : ClientSession) :
    (s.update w).1.written = s.written ++
      if s.authed && s.isOpen then s.bufferQueue.map (⟨.application, ·⟩) else [] := by
  rw [update_eq, drained]
  by_cases ha : s.authed = true
  · have hopen : (s.authed && s.isOpen) = s.isOpen := by rw [ha, Bool.true_and]
    rw [if_pos ha, hopen]
    exact foldl_sendPacket_written .application s.bufferQueue { s with bufferQueue := [] }
  · have hauth : s.authed = false := by simpa using ha
    rw [if_neg ha, hauth]
    exact (List.append_nil _).symm

theorem authenticate_written (env : Env) (s : ClientSession) :
    (s.authenticate env).written = if s.isOpen then
      s.written ++ [⟨.session, pingPacket (env.clock s.clockReads) s.latency⟩] else s.written := by
  rw [authenticate, sendPacket_written]
  rfl

theorem foldl_sendPacket_bufferQueue (origin : Origin) (ps : List DiscordPacket)
    (s : ClientSession) : (ps.foldl (sendPacket origin) s).bufferQueue = s.bufferQueue := by
  induction ps generalizing s with
  | nil => rfl
  | cons p ps ih => rw [List.foldl_cons, ih, sendPacket_bufferQueue]

theorem update_bufferQueue (w : Nat → Nat → WriteResult) (s : ClientSession) :
    (s.update w).1.bufferQueue = if s.authed then [] else s.bufferQueue := by
  rw [update_eq, drained]
  split
  · exact foldl_sendPacket_bufferQueue .application s.bufferQueue { s with bufferQueue := [] }
  · rfl

/-! ### The packets of the application -/

/-- The packets of the application that were written. -/
def delivered (s : ClientSession) : List DiscordPacket :=
  (s.written.filter fun w => w.origin == .application).map (·.packet)

/-- **A tick of an open socket** writes the oldest of the queue: all of it, or nothing while
the login is not answered. -/
theorem update_moves (w : Nat → Nat → WriteResult) (h : s.isOpen = true) :
    ∃ out, (s.update w).1.delivered = s.delivered ++ out ∧
      s.bufferQueue = out ++ (s.update w).1.bufferQueue := by
  have hw := update_written w s
  have hq := update_bufferQueue w s
  cases ha : s.authed with
  | true =>
    rw [ha, h, Bool.and_self, if_pos rfl] at hw
    rw [ha, if_pos rfl] at hq
    refine ⟨s.bufferQueue, ?_, by rw [hq, List.append_nil]⟩
    rw [delivered, delivered, hw, List.filter_append, List.map_append, List.filter_map]
    simp [Function.comp_def]
  | false =>
    rw [ha, Bool.false_and] at hw
    rw [ha] at hq
    refine ⟨[], ?_, by rw [hq]; rfl⟩
    rw [delivered, delivered, hw]
    simp

theorem update_closed (w : Nat → Nat → WriteResult) (h : s.socket.closed = true) :
    (s.update w).1.written = s.written := by
  have ho : s.isOpen = false := by rw [isOpen, Socket.isOpen, h]; rfl
  rw [update_written, ho, Bool.and_false]
  exact List.append_nil _

/-! ### Everything else -/

/-- The opcodes of the packets that a session makes itself. -/
def ownOpcodes : List UInt16 :=
  [DiscordCode.clientAuthSession.value, DiscordCode.clientSendPing.value]

/-- What everything but a tick does to the sending side.  Only packets of the session are
written, and none when the socket is closed. -/
structure Received (s t : ClientSession) : Prop where
  bufferQueue : t.bufferQueue = s.bufferQueue
  written : ∃ sent, t.written = s.written ++ sent ∧
    (∀ w ∈ sent, w.origin = .session ∧ w.packet.opcode ∈ ownOpcodes) ∧
    (s.socket.closed = true → sent = [])
  closed : s.socket.closed = true → t.socket.closed = true

theorem Received.of_eq (hq : t.bufferQueue = s.bufferQueue) (hw : t.written = s.written)
    (hc : s.socket.closed = true → t.socket.closed = true) : Received s t :=
  ⟨hq, ⟨[], by rw [hw, List.append_nil], fun _ h => absurd h List.not_mem_nil, fun _ => rfl⟩,
    hc⟩

theorem Received.refl (s : ClientSession) : Received s s := .of_eq rfl rfl id

theorem Received.trans (h : Received s t) (g : Received t u) : Received s u := by
  obtain ⟨sent₁, hw₁, ho₁, hc₁⟩ := h.written
  obtain ⟨sent₂, hw₂, ho₂, hc₂⟩ := g.written
  refine ⟨g.bufferQueue.trans h.bufferQueue,
    ⟨sent₁ ++ sent₂, ?_, fun w hw => ?_, fun hc => ?_⟩, fun hc => g.closed (h.closed hc)⟩
  · rw [hw₂, hw₁, List.append_assoc]
  · rcases List.mem_append.mp hw with hw | hw
    · exact ho₁ w hw
    · exact ho₂ w hw
  · rw [hc₁ hc, hc₂ (h.closed hc)]
    rfl

theorem Received.delivered (h : Received s t) : t.delivered = s.delivered := by
  obtain ⟨sent, hw, ho, -⟩ := h.written
  have hnone : sent.filter (fun w => w.origin == .application) = [] :=
    List.filter_eq_nil_iff.mpr fun w hm => by rw [(ho w hm).1]; decide
  rw [ClientSession.delivered, hw, List.filter_append, hnone, List.append_nil]
  rfl

theorem Received.written_of_closed (h : Received s t) (hc : s.socket.closed = true) :
    t.written = s.written := by
  obtain ⟨sent, hw, -, hnil⟩ := h.written
  rw [hw, hnil hc, List.append_nil]

theorem sendPacket_received {p : DiscordPacket} (hp : p.opcode ∈ ownOpcodes)
    (s : ClientSession) : Received s (s.sendPacket .session p) := by
  cases ho : s.isOpen with
  | false => rw [sendPacket_of_closed ho]; exact .refl s
  | true =>
    refine ⟨sendPacket_bufferQueue _ _ _, ⟨[⟨.session, p⟩], ?_, fun w hw => ?_, fun hc => ?_⟩,
      fun hc => (sendPacket_same _ s p).closed.trans hc⟩
    · rw [sendPacket_written, ho, if_pos rfl]
    · rw [List.mem_singleton.mp hw]
      exact ⟨rfl, hp⟩
    · rw [isOpen, Socket.isOpen, hc] at ho
      cases ho

theorem closeSocket_received (s : ClientSession) : Received s s.closeSocket :=
  .of_eq rfl rfl fun _ => closeSocket_closed s

theorem disconnectManager_received (s : ClientSession) : Received s s.disconnectManager := by
  refine .of_eq rfl rfl fun hc => ?_
  unfold disconnectManager
  dsimp only
  split
  · exact Socket.closeSocket_closed _
  · exact hc

theorem readDataHandler_received {f : Frame} {result : ReadDataHandlerResult}
    (h : s.readDataHandler env f.packet = .ok (t, result)) : Received s t := by
  have hd : Received s (s.dispatch f) := .of_eq rfl rfl id
  have hn : Received s ((s.dispatch f).now env).2 := .of_eq rfl rfl id
  rw [readDataHandler_eq] at h
  split at h
  · cases h
  · cases h; exact hd
  · cases h; exact hd.trans (disconnectManager_received _)
  · cases h; exact hn.trans (disconnectManager_received _)
  · cases h
    refine Received.trans (t := ({ ((s.dispatch f).now env).2 with authed := true }.now env).2)
      (.of_eq rfl rfl id) (sendPacket_received ?_ _)
    exact List.mem_cons_of_mem _ List.mem_cons_self
  · cases h; exact .of_eq rfl rfl id

end ClientSession

namespace ClientSocket

open ClientSession

variable {env : Env} {e : Endian} {c d : ClientSocket}

theorem readInternal_received {chunk : Chunk} (hi : Inv e c)
    (h : c.readInternal env e chunk = .ok d) : Received c.session d.session := by
  cases hp : c.read.readPending with
  | false =>
    rw [readInternal, hp] at h
    cases h
    exact .refl _
  | true =>
    obtain ⟨pending, hw⟩ := hi.waits hp
    obtain ⟨handed, t, stop, hf, hs⟩ := readInternal_ok hw h
    have ht := handleFrames_invariant (I := Received c.session)
      (fun _ _ _ _ hr ht => hr.trans (readDataHandler_received ht)) _ _ _ _ _ (.refl _) hf
    rcases hs with hs | hs
    · rw [hs]; exact ht
    · rw [hs]; exact ht.trans (closeSocket_received t)

/-- What happens to a socket from outside while it has a manager. -/
inductive Event where
  | read (chunk : Chunk)
  | readError
  | writeReady (writeSome : Nat → WriteResult)
  | closeSocket

def Event.act : Event → Act
  | .read chunk => .read chunk
  | .readError => .readError
  | .writeReady writeSome => .writeReady writeSome
  | .closeSocket => .closeSocket

/-- **No event touches what the application sends.** -/
theorem step_received (event : Event) (hi : Inv e c) (h : c.step env e event.act = .ok d) :
    Received c.session d.session := by
  cases event with
  | read chunk => exact readInternal_received hi h
  | readError =>
    cases h
    split
    · exact closeSocket_received _
    · exact .refl _
  | writeReady w =>
    have hs := Socket.handleQueue_sameEnds
      (s := { c.session.socket with isWritingAsync := false }) w hi.session.closing
    cases h
    exact .of_eq rfl rfl fun hc => hs.closed.trans hc
  | closeSocket => cases h; exact closeSocket_received _

end ClientSocket

end WarheadDiscord
