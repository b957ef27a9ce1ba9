import WarheadDiscord.Client.EndToEnd
import WarheadDiscord.Client.Reconnect
import WarheadDiscord.Shared.WriteProgress

/-!
# Everything gets sent

`EndToEnd.lean` says that what arrives is what was sent.  Here it is said that what was
accepted is sent, as long as the session is up: the packets that wait have a load, which
every service of the socket lowers, be it a tick that may write or the completion of a
wait for writability.

* `step_load`: **a service lowers the load**, and only a packet that is accepted raises it.
* `allSent`: after more services than the load, all that was accepted has gone to the
  kernel, unless the session has ended.
-/

namespace WarheadDiscord

open Lib

/-- What a packet adds to the write queue. -/
def DiscordPacket.load (p : DiscordPacket) : Nat := (p.buffers.map MessageBuffer.load).sum

theorem DiscordPacket.load_eq (p : DiscordPacket) :
    p.load = p.size + 7 + if p.size + 6 ≤ 4096 then 0 else 1 := by
  have hframe : p.frameBuffer.load = p.size + 7 := by
    have hh : p.header.header.length = 6 := DiscordServerPktHeader.header_length _ _
    have hwrites : ∀ b : MessageBuffer, b.wpos = 0 → b.rpos = 0 →
        (if !p.empty then (b.write p.header.header).write p.storage
          else b.write p.header.header).load = p.size + 7 := by
      intro b hw hr
      cases he : p.empty with
      | true =>
        have hsize : p.size = 0 := by rw [ByteBuffer.size, storage_of_empty he]; rfl
        rw [if_neg (by decide), MessageBuffer.load, MessageBuffer.getActiveSize,
          MessageBuffer.write_wpos, MessageBuffer.write_rpos, hw, hr, hh, hsize]
      | false =>
        rw [if_pos (by decide), MessageBuffer.load, MessageBuffer.getActiveSize,
          MessageBuffer.write_wpos, MessageBuffer.write_wpos, MessageBuffer.write_rpos,
          MessageBuffer.write_rpos, hw, hr, hh, ByteBuffer.size]
        omega
    exact hwrites _ (by split <;> rfl) (by split <;> rfl)
  rw [load, buffers]
  split
  · rw [List.map_singleton, List.sum_singleton, hframe]
  · rw [List.map_cons, List.sum_cons, List.map_singleton, List.sum_singleton, hframe]
    show 1 + _ = _
    omega

namespace ClientSession

variable {env : Env} {s t : ClientSession}

/-- What waits in a session: in the write queue, and in front of it. -/
def load (s : ClientSession) : Nat :=
  s.socket.load + (s.bufferQueue.map fun p => p.load + 1).sum

theorem sendPacket_load (origin : Origin) (s : ClientSession) (p : DiscordPacket) :
    (s.sendPacket origin p).socket.load ≤ s.socket.load + p.load := by
  cases ho : s.isOpen with
  | false => rw [sendPacket_of_closed ho]; exact Nat.le_add_right _ _
  | true =>
    have hq := Socket.foldl_queuePacket_load p.buffers s.socket
    rw [← queueFrame_eq] at hq
    rw [sendPacket_of_open ho]
    dsimp only
    exact hq.le

theorem foldl_sendPacket_load (origin : Origin) : ∀ (ps : List DiscordPacket) (s : ClientSession),
    (ps.foldl (sendPacket origin) s).socket.load ≤
      s.socket.load + (ps.map DiscordPacket.load).sum := by
  intro ps
  induction ps with
  | nil => intro s; exact Nat.le_refl _
  | cons p ps ih =>
    intro s
    have hp := sendPacket_load origin s p
    have hrest := ih (s.sendPacket origin p)
    rw [List.foldl_cons, List.map_cons, List.sum_cons]
    omega

theorem sum_load_add (k : Nat) (ps : List DiscordPacket) :
    (ps.map fun p => p.load + k).sum = (ps.map DiscordPacket.load).sum + k * ps.length := by
  induction ps with
  | nil => rfl
  | cons p ps ih =>
    rw [List.map_cons, List.sum_cons, ih, List.map_cons, List.sum_cons, List.length_cons,
      Nat.mul_succ]
    omega

/-- The write of the first buffer, if there is one, is put off. -/
def putsOff (w : Nat → WriteResult) (s : ClientSession) : Bool :=
  s.socket.writeQueue.head?.any fun front => w front.getActiveSize == .wouldBlock

/-- **A tick** of a session that is up lowers its load when it may write. -/
theorem update_load {w : Nat → Nat → WriteResult} (ha : s.authed = true)
    (hc : s.socket.closed = false) :
    (s.update w).1.load +
      (if !s.socket.isWritingAsync && !s.putsOff (w 0) && s.load != 0 then 1 else 0) ≤ s.load := by
  have hone : (if !s.socket.isWritingAsync && !s.putsOff (w 0) && s.load != 0 then 1 else 0) ≤ 1 := by
    split <;> decide
  have hqueue := update_bufferQueue w s
  rw [ha, if_pos rfl] at hqueue
  have hafter : (s.update w).1.load = (s.drained.socket.update w).1.load := by
    rw [load, hqueue, update_eq]
    rfl
  have hwrite := Socket.update_load w s.drained.socket
  rw [hafter]
  by_cases hq : s.bufferQueue = []
  · -- nothing is drained, so that it is a write that lowers the load
    have hd : s.drained.socket = s.socket := by
      rw [drained, if_pos ha, hq]
      rfl
    have hload : s.load = s.socket.load := by
      rw [load, hq]
      rfl
    rw [hd, hc] at hwrite
    rw [hd, hload]
    refine le_trans (Nat.add_le_add_left ?_ _) hwrite
    have himp : (!s.socket.isWritingAsync && !s.putsOff (w 0) && s.socket.load != 0) = true →
        (!false && !s.socket.isWritingAsync && s.socket.takes (w 0)) = true := by
      intro h
      simp only [Bool.and_eq_true, Bool.not_eq_true', bne_iff_ne] at h
      obtain ⟨⟨hasync, hoff⟩, hne⟩ := h
      rw [hasync]
      cases hwq : s.socket.writeQueue with
      | nil => exact absurd ((Socket.load_eq_zero_iff _).mpr hwq) hne
      | cons front rest =>
        rw [putsOff, hwq, List.head?_cons, Option.any_some] at hoff
        rw [Socket.takes, hwq]
        simpa using hoff
    split
    · rename_i h
      rw [if_pos (himp h)]
    · exact Nat.zero_le _
  · -- the packets that go on to the write queue lower it
    have hpos : 0 < s.bufferQueue.length := List.length_pos_iff.mpr hq
    have hd : s.drained.socket.load ≤
        s.socket.load + (s.bufferQueue.map DiscordPacket.load).sum := by
      rw [drained, if_pos ha]
      exact foldl_sendPacket_load .application s.bufferQueue { s with bufferQueue := [] }
    have hload : s.load =
        s.socket.load + ((s.bufferQueue.map DiscordPacket.load).sum + 1 * s.bufferQueue.length) := by
      rw [load, sum_load_add]
    have hle := (Nat.le_add_right _ _).trans hwrite
    omega

/-! ### What comes in between -/

/-- The session is up and stays as it is, but for what it has received, or its socket is
closed. -/
structure Stays (s t : ClientSession) : Prop where
  authed : t.authed = s.authed
  bufferQueue : t.bufferQueue = s.bufferQueue
  writeQueue : t.socket.writeQueue = s.socket.writeQueue

theorem Stays.trans {u : ClientSession} (h : Stays s t) (g : Stays t u) : Stays s u :=
  ⟨g.authed.trans h.authed, g.bufferQueue.trans h.bufferQueue, g.writeQueue.trans h.writeQueue⟩

theorem Stays.load (h : Stays s t) : t.load = s.load := by
  rw [ClientSession.load, ClientSession.load, Socket.load, Socket.load, h.bufferQueue, h.writeQueue]

theorem closeSocket_stays (s : ClientSession) : Stays s s.closeSocket :=
  ⟨rfl, rfl, Socket.closeSocket_writeQueue _⟩

theorem disconnectManager_stays (s : ClientSession) : Stays s s.disconnectManager := by
  refine ⟨rfl, rfl, ?_⟩
  rw [disconnectManager]
  dsimp only
  split
  · exact Socket.closeSocket_writeQueue _
  · rfl

/-- **Once the login is answered no frame makes the session write.** -/
theorem readDataHandler_stays {f : Frame} {result : ReadDataHandlerResult} (ha : s.authed = true)
    (h : s.readDataHandler env f.packet = .ok (t, result)) : Stays s t := by
  have hd : Stays s (s.dispatch f) := ⟨rfl, rfl, rfl⟩
  have hn : Stays s ((s.dispatch f).now env).2 := ⟨rfl, rfl, rfl⟩
  have hr : reaction s.authed f ≠ .accepts := by
    rw [ha, reaction]
    split
    · simp
    · split_ifs <;> simp
    · simp
  rw [readDataHandler_eq] at h
  split at h
  · cases h
  · cases h; exact hd
  · cases h; exact hd.trans (disconnectManager_stays _)
  · cases h; exact hn.trans (disconnectManager_stays _)
  · rename_i hx
    exact absurd hx hr
  · cases h; exact ⟨rfl, rfl, rfl⟩

end ClientSession

namespace ClientSocket

variable {env : Env} {e : Endian} {c d : ClientSocket}

/-- The completion of a wait for writability serves the socket. -/
def Event.serves (s : ClientSession) : Event → Bool
  | .writeReady w => s.socket.takes w
  | _ => false

/-- **An event** of a session that is up lowers its load when it serves it. -/
theorem handle_load {event : Event} (hi : Inv e c) (ha : c.session.authed = true)
    (h : c.handle env e event = .ok d) : d.session.authed = true ∧
      d.session.load + (if event.serves c.session then 1 else 0) ≤ c.session.load := by
  have hstays : event.serves c.session = false → c.session.Stays d.session →
      d.session.authed = true ∧
        d.session.load + (if event.serves c.session then 1 else 0) ≤ c.session.load := by
    intro hs hst
    rw [hs, if_neg (by decide), hst.load]
    exact ⟨hst.authed.trans ha, Nat.le_refl _⟩
  rw [handle] at h
  cases event with
  | read chunk =>
    refine hstays rfl ?_
    rw [Event.act, step] at h
    cases hp : c.read.readPending with
    | true =>
      obtain ⟨pending, hw⟩ := hi.unflag.waits hp
      obtain ⟨handed, t, stop, hf, hs⟩ := readInternal_ok hw h
      have ht := handleFrames_invariant
        (I := fun t : ClientSession => t.authed = true ∧ c.session.Stays t)
        (fun f s t result hr ht =>
          have hst := ClientSession.readDataHandler_stays hr.1 ht
          ⟨hst.authed.trans hr.1, hr.2.trans hst⟩) _
        { c.session with disconnectCalled := false } _ _ _ ⟨ha, ⟨rfl, rfl, rfl⟩⟩ hf
      rcases hs with hs | hs
      · rw [hs]; exact ht.2
      · rw [hs]; exact ht.2.trans (ClientSession.closeSocket_stays t)
    | false =>
      rw [readInternal, hp] at h
      cases h
      exact ⟨rfl, rfl, rfl⟩
  | readError =>
    refine hstays rfl ?_
    cases h
    split
    · exact ClientSession.Stays.trans (t := { c.session with disconnectCalled := false })
        ⟨rfl, rfl, rfl⟩ (ClientSession.closeSocket_stays _)
    · exact ⟨rfl, rfl, rfl⟩
  | writeReady w =>
    cases h
    refine ⟨ha, ?_⟩
    have hone : (c.session.socket.writeHandlerWrapper w).load +
        (if c.session.socket.takes w then 1 else 0) ≤ c.session.socket.load :=
      Socket.handleQueue_load w { c.session.socket with isWritingAsync := false }
    have hload : ∀ s : ClientSession, s.load =
        s.socket.load + (s.bufferQueue.map fun p => p.load + 1).sum := fun _ => rfl
    rw [hload, hload c.session, Event.serves]
    dsimp only
    omega
  | closeSocket =>
    refine hstays rfl ?_
    cases h
    exact ClientSession.Stays.trans (t := { c.session with disconnectCalled := false })
      ⟨rfl, rfl, rfl⟩ (ClientSession.closeSocket_stays _)

end ClientSocket

namespace ClientSocketMgr

variable {env : Env} {e : Endian} {m m₀ t : ClientSocketMgr} {a : Act}

/-- What a packet weighs when it is accepted: it goes through two queues before it is written. -/
def weight (ps : List DiscordPacket) : Nat := (ps.map fun p => p.load + 2).sum

/-- What waits in the manager and its socket. -/
def load (m : ClientSocketMgr) : Nat :=
  m.clientSocket.elim 0 (·.session.load) + weight m.bufferQueue

/-- The manager goes on, and it has an open socket whose login was answered. -/
structure Up (m : ClientSocketMgr) : Prop where
  stopped : m.stopped = false
  socket : ∃ c, m.clientSocket = some c ∧ c.session.socket.closed = false ∧
    c.session.authed = true

/-- A tick may write: no wait is outstanding, and the kernel does not put the first write off. -/
def tickServes (m : ClientSocketMgr) (tick : Tick) : Bool :=
  m.clientSocket.any fun c =>
    !c.session.socket.isWritingAsync && !c.session.putsOff (tick.writeSome 0)

/-- **A service** of the socket: a tick that may write, or the end of a wait for writability
after which the kernel takes some bytes. -/
def Serves (m : ClientSocketMgr) : Act → Bool
  | .update tick => m.tickServes tick
  | .runHandler i _ tick _ => m.ready[i]? == some .update && m.tickServes tick
  | .socketEvent none _ event => m.clientSocket.any fun c => event.serves c.session
  | _ => false

theorem weight_append (ps qs : List DiscordPacket) : weight (ps ++ qs) = weight ps + weight qs := by
  rw [weight, List.map_append, List.sum_append]
  rfl

theorem update_load {tick : Tick} (hi : ∀ c, m.clientSocket = some c → ClientSocket.Inv e c)
    (hup : m.Up) (h : m.update tick = .ok t) : t.Up ∧
      t.load + (if m.tickServes tick && m.load != 0 then 1 else 0) + weight m.accepted ≤
        m.load + weight t.accepted := by
  obtain ⟨hs, c, hc, hopen, hauthed⟩ := hup
  rcases update_cases h with ⟨hst, -⟩ | ⟨-, timer, -, ⟨hn, -⟩ | ⟨c', hc', hclosed, -⟩ |
    ⟨c', arrived, hc', -, rfl⟩⟩
  · rw [hs] at hst
    cases hst
  · rw [hc] at hn
    cases hn
  · rw [hc] at hc'
    cases hc'
    rw [hopen] at hclosed
    cases hclosed
  · rw [hc] at hc'
    cases hc'
    have hsame := ClientSession.update_same tick.writeSome (hi c hc).session.closing
    refine ⟨⟨hs, _, rfl, hsame.closed.trans hopen, hsame.authed.trans hauthed⟩, ?_⟩
    have htick := ClientSession.update_load (w := tick.writeSome) hauthed hopen
    have hqueue := ClientSession.update_bufferQueue tick.writeSome c.session
    rw [hauthed, if_pos rfl] at hqueue
    have hsession : ∀ s : ClientSession, s.load =
        s.socket.load + ((s.bufferQueue.map DiscordPacket.load).sum + 1 * s.bufferQueue.length) :=
      fun s => by rw [ClientSession.load, ClientSession.sum_load_add]
    have hweight : ∀ ps, weight ps = (ps.map DiscordPacket.load).sum + 2 * ps.length :=
      ClientSession.sum_load_add 2
    have hnil : weight [] = 0 := rfl
    have hm : m.load = c.session.load + weight m.bufferQueue := by rw [load, hc]; rfl
    -- a packet weighs one less when the manager has given it to the socket
    have hserve : (if m.tickServes tick && m.load != 0 then 1 else 0) ≤
        (if !c.session.socket.isWritingAsync && !c.session.putsOff (tick.writeSome 0) &&
          c.session.load != 0 then 1 else 0) + m.bufferQueue.length := by
      rw [hm, tickServes, hc, Option.any_some]
      by_cases hq : m.bufferQueue = []
      · rw [hq, hnil, Nat.add_zero]
        exact Nat.le_add_right _ _
      · have hpos : 0 < m.bufferQueue.length := List.length_pos_iff.mpr hq
        split <;> omega
    rw [hsession, hqueue] at htick
    rw [load, weight_append, hnil]
    dsimp only [Option.elim_some]
    rw [hsession]
    dsimp only
    rw [hqueue, List.nil_append, List.map_append, List.sum_append, List.length_append,
      hweight arrived]
    rw [hweight] at hm
    simp only [List.map_nil, List.sum_nil, List.length_nil] at htick
    omega

theorem socketEvent_load {which : Option Nat} {event : ClientSocket.Event}
    (hi : ∀ c, m.clientSocket = some c → ClientSocket.Inv e c) (hup : m.Up)
    (h : m.socketEvent env e which event = .ok t) : ¬ t.Up ∨
      t.Up ∧ t.accepted = m.accepted ∧ t.load +
        (if which.isNone && m.clientSocket.any fun c => event.serves c.session then 1 else 0) ≤
          m.load := by
  obtain ⟨hs, c, hc, hopen, hauthed⟩ := hup
  rcases socketEvent_cases h with ⟨hn, rfl⟩ | ⟨c', d, hc', hd, hstop | rfl⟩
  · cases which with
    | none =>
      have hnone : t.clientSocket = none := hn
      rw [hc] at hnone
      cases hnone
    | some k => exact .inr ⟨⟨hs, c, hc, hopen, hauthed⟩, rfl, Nat.le_refl _⟩
  · refine .inl fun hup => ?_
    have hstopped := disconnect_goesOn hstop
    rw [hup.stopped] at hstopped
    cases hstopped
  · cases which with
    | none =>
      have hcc : c' = c := Option.some.inj (hc'.symm.trans hc)
      subst hcc
      obtain ⟨ha, hle⟩ := ClientSocket.handle_load (hi c' hc) hauthed hd
      cases hcd : d.session.socket.closed with
      | true =>
        refine .inl fun ⟨_, x, hx, hxo, _⟩ => ?_
        cases hx
        rw [hcd] at hxo
        cases hxo
      | false =>
        refine .inr ⟨⟨hs, d, rfl, hcd, ha⟩, rfl, ?_⟩
        rw [load, load, hc]
        simp only [Option.isNone_none, Bool.true_and, Option.any_some, Option.elim_some, setSocket]
        omega
    | some k => exact .inr ⟨⟨hs, c, hc, hopen, hauthed⟩, rfl, Nat.le_refl _⟩

/-- **One step.**  The session ends, or a service lowers the load, and only what is accepted
raises it. -/
theorem step_load (hi : ∀ c, m.clientSocket = some c → ClientSocket.Inv e c) (hup : m.Up)
    (h : m.step env e a = .ok t) : ¬ t.Up ∨
      t.Up ∧ t.load + (if m.Serves a && m.load != 0 then 1 else 0) + weight m.accepted ≤
        m.load + weight t.accepted := by
  have hsame : m.Serves a = false → t.stopped = m.stopped → t.clientSocket = m.clientSocket →
      t.bufferQueue = m.bufferQueue → t.accepted = m.accepted →
      t.Up ∧ t.load + (if m.Serves a && m.load != 0 then 1 else 0) + weight m.accepted ≤
        m.load + weight t.accepted := by
    intro hserves hst hcs hq hacc
    refine ⟨⟨hst.trans hup.stopped, by rw [hcs]; exact hup.socket⟩, ?_⟩
    rw [hserves, load, load, hcs, hq, hacc]
    exact Nat.le_refl _
  cases a with
  | initializeMgr resolve =>
    refine .inr ?_
    rcases initializeMgr_cases h with ⟨-, rfl⟩ | ⟨-, m₁, rfl, ⟨-, rfl⟩ | ⟨address, -, rfl⟩⟩ <;>
      exact hsame rfl rfl rfl rfl rfl
  | connectToServer n =>
    obtain ⟨timer, -, rfl⟩ := connectToServer_ok h
    exact .inr (hsame rfl rfl rfl rfl rfl)
  | disconnect =>
    refine .inl fun hup => ?_
    have hstopped := disconnect_goesOn h
    rw [hup.stopped] at hstopped
    cases hstopped
  | update tick => exact .inr (update_load hi hup h)
  | addPacketToQueue p =>
    cases h
    refine .inr ⟨⟨hup.stopped, hup.socket⟩, ?_⟩
    have hserves : m.Serves (.addPacketToQueue p) = false := rfl
    rw [hserves, load, load]
    simp only [addPacketToQueue, PacketQueue.addPacket, weight_append, Bool.false_and]
    exact le_of_eq (by simp only [Bool.false_eq_true, if_false]; omega)
  | timerExpires =>
    cases h
    refine .inr (hsame rfl ?_ ?_ ?_ ?_) <;>
    · rw [timerExpires]
      split <;> rfl
  | runHandler i clock tick connected =>
    rw [step] at h
    rw [Serves]
    cases hr : m.ready[i]? with
    | none =>
      rw [hr] at h
      cases h
      refine .inr ⟨hup, ?_⟩
      exact Nat.le_refl _
    | some handler =>
      rw [hr] at h
      cases handler with
      | update =>
        have hone := update_load (m := { m with ready := m.ready.eraseIdx i }) hi
          ⟨hup.stopped, hup.socket⟩ h
        exact .inr hone
      | connect n =>
        obtain ⟨hs, c, hc, hopen, hauthed⟩ := hup
        have ho : m.hasOpenSocket = true := by
          rw [hasOpenSocket, hc, Option.any_some, (hi c hc).session.isOpen_eq, hopen]
          rfl
        rcases connect_cases (m := { m with ready := m.ready.eraseIdx i }) h with
          ⟨-, rfl⟩ | ⟨hno, -⟩
        · exact .inr ⟨⟨hs, c, hc, hopen, hauthed⟩, Nat.le_refl _⟩
        · cases ho.symm.trans hno
  | socketEvent which clock event =>
    rcases socketEvent_load hi hup h with hn | ⟨hu, hacc, hle⟩
    · exact .inl hn
    refine .inr ⟨hu, ?_⟩
    have hserves : m.Serves (.socketEvent which clock event) =
        (which.isNone && m.clientSocket.any fun c => event.serves c.session) := by
      cases which <;> rfl
    rw [hacc, hserves]
    refine Nat.add_le_add_right (le_trans (Nat.add_le_add_left ?_ _) hle) _
    generalize (which.isNone && m.clientSocket.any fun c => event.serves c.session) = serves
    cases serves <;> simp only [Bool.false_and, Bool.true_and, if_true] <;> split <;> decide

theorem drops_of_up (hi : ∀ c, m.clientSocket = some c → ClientSocket.Inv e c) (hup : m.Up) :
    m.Drops a = false := by
  obtain ⟨hs, c, hc, hopen, -⟩ := hup
  have hclosed : m.socketClosed = false := by rw [socketClosed, hc]; exact hopen
  have hsocket : m.hasOpenSocket = true := by
    rw [hasOpenSocket, hc, Option.any_some, (hi c hc).session.isOpen_eq, hopen]
    rfl
  cases a with
  | update tick => rw [Drops, hclosed, Bool.and_false]
  | runHandler i clock tick connected =>
    rw [Drops]
    split
    · rw [hclosed, Bool.and_false]
    · rw [hsocket]
      rfl
    · rfl
  | _ => rfl

/-- Everything that waited at `m` or was accepted since has been written, and the kernel has all
that was written to the socket. -/
def AllSent (m t : ClientSocketMgr) : Prop :=
  (∃ new, t.accepted = m.accepted ++ new ∧ t.holdings.delivered =
    m.holdings.delivered ++ (m.holdings.socketQueue ++ m.bufferQueue ++ new)) ∧
  ∃ c, t.clientSocket = some c ∧
    c.session.socket.sent = c.session.written.flatMap fun w => w.packet.wire

theorem allSent_of_load (hm : Sound e t) (hs : ∀ c ∈ t.holdings.sockets, ClientSocket.Streams e c)
    (hup : t.Up) (hmoves : Channel.Moves m.holdings.channel t.holdings.channel)
    (hl : t.load = 0) : AllSent m t := by
  obtain ⟨hst, c, hc, hopen, hauthed⟩ := hup
  have hsession : ∀ s : ClientSession, s.load =
      s.socket.load + ((s.bufferQueue.map DiscordPacket.load).sum + 1 * s.bufferQueue.length) :=
    fun s => by rw [ClientSession.load, ClientSession.sum_load_add]
  have hweight : weight t.bufferQueue =
      (t.bufferQueue.map DiscordPacket.load).sum + 2 * t.bufferQueue.length :=
    ClientSession.sum_load_add 2 _
  rw [load, hc, Option.elim_some, hsession, hweight] at hl
  have hqueue : t.bufferQueue = [] := List.length_eq_zero_iff.mp (by omega)
  have hsq : c.session.bufferQueue = [] := List.length_eq_zero_iff.mp (by omega)
  have hwq : c.session.socket.writeQueue = [] := (Socket.load_eq_zero_iff _).mp (by omega)
  refine ⟨?_, c, hc, ?_⟩
  · obtain ⟨new, out, hacc, hdel, hflight⟩ := hmoves
    refine ⟨new, hacc, ?_⟩
    have hempty : t.holdings.channel.inFlight = [] := by
      show t.holdings.socketQueue ++ t.bufferQueue = []
      rw [hqueue, Holdings.socketQueue, holdings, hc]
      exact List.append_eq_nil_iff.mpr ⟨hsq, rfl⟩
    rw [hempty, List.append_nil] at hflight
    have hin : m.holdings.channel.inFlight = m.holdings.socketQueue ++ m.bufferQueue := rfl
    rw [← hin, hflight]
    exact hdel
  · have hl := (hs c (mem_sockets hc)).2
    have hrec : c.session.socket.queued = c.session.written.flatMap fun w => w.packet.wire :=
      (hm.sockets c (mem_sockets hc)).recorded
    have hpending : c.session.socket.pending = [] := by rw [Socket.pending, hwq]; rfl
    rw [← hrec]
    have hqueued : c.session.socket.queued = c.session.socket.sent ++ c.session.socket.pending := hl
    rw [hqueued, hpending, List.append_nil]

/-- **Everything that is accepted gets sent.**  Let no write fail.  From a state in which the
session is up, consider any run with more services than the load at its start and the weight of
what is accepted meanwhile.  On the way a state is reached in which the session has ended, or in
which all that waited and all that was accepted has been written and taken by the kernel. -/
theorem allSent (env : Env) (e : Endian) {pre acts : List Act}
    (hpre : run (step env e) new pre = .ok m) (hadm₀ : ∀ a ∈ pre, a.Admissible) (hup : m.Up)
    (h : run (step env e) m acts = .ok t) (hadm : ∀ a ∈ acts, a.Admissible)
    (hcount : m.load + weight t.accepted <
      tally (step env e) Serves m acts + weight m.accepted) :
    ∃ u, Visits (step env e) m acts u ∧ (¬ u.Up ∨ AllSent m u) := by
  have hstreams := (ClientSocket.stream_kept env e).run_all pre new m
    (fun _ hx => absurd hx List.not_mem_nil) hadm₀ hpre
  refine (Classical.em (m.load = 0)).elim (fun hl => ⟨m, visits_start, .inr ?_⟩) fun hl => ?_
  · exact allSent_of_load (run_sound hpre) hstreams hup (.refl _) hl
  refine visits_of_potential load (fun u => weight u.accepted) Serves
    (P := fun u => Sound e u ∧ (∀ c ∈ u.holdings.sockets, ClientSocket.Streams e c) ∧ u.Up ∧
      Channel.Moves m.holdings.channel u.holdings.channel ∧ u.load ≠ 0)
    (Q := fun u => ¬ u.Up ∨ AllSent m u) (C := fun _ a => a.Admissible) ?_ acts m t
    ⟨run_sound hpre, hstreams, hup, .refl _, hl⟩ (each_of_forall acts m fun a ha _ => hadm a ha) h
    hcount
  rintro s a u ⟨hs, hst, hu, hmoves, hne⟩ ha hstep
  have hi : ∀ c, s.clientSocket = some c → ClientSocket.Inv e c :=
    fun c hc => hs.inv c (mem_sockets hc)
  rcases step_load hi hu hstep with hdown | ⟨hup', hle⟩
  · exact .inl (.inl hdown)
  have hstopped : u.stopped ≠ true := by rw [hup'.stopped]; decide
  have hmoves' : Channel.Moves m.holdings.channel u.holdings.channel := by
    rcases step_channel hs.inv hstep with ⟨-, hm⟩ | ⟨hd | hd, -⟩
    · exact hmoves.trans hm
    · rw [drops_of_up hi hu] at hd
      cases hd
    · exact absurd hd hstopped
  have hs' := step_sound hs hstep
  have hst' := (ClientSocket.stream_kept env e).step_all hst ha hstep
  by_cases hz : u.load = 0
  · exact .inl (.inr (allSent_of_load hs' hst' hup' hmoves' hz))
  · refine .inr ⟨⟨hs', hst', hup', hmoves', hz⟩, ?_⟩
    have hbne : (s.load != 0) = true := by simpa using hne
    rw [hbne, Bool.and_true] at hle
    exact hle

/-- A packet that is sent, and another one that is accepted. -/
def upWithOne : List Act := sendOne ++ [.addPacketToQueue (.new 4)]

/-- A tick with a kernel that takes every byte. -/
def Act.tick : Act := .update ⟨fun _ => .accepted, []⟩

theorem allSent_one : ∃ m t, run (step .sample .little) new upWithOne = .ok m ∧ m.Up ∧
    run (step .sample .little) m (List.replicate 10 Act.tick) = .ok t ∧
    ∃ u, Visits (step .sample .little) m (List.replicate 10 Act.tick) u ∧
      (¬ u.Up ∨ AllSent m u) := by
  obtain ⟨m, hm, hp⟩ := ok_of_any (p := fun m : ClientSocketMgr => !m.stopped && m.load == 9 &&
      weight m.accepted == 18 &&
      tally (step .sample .little) Serves m (List.replicate 10 Act.tick) == 10 &&
      m.clientSocket.any fun c : ClientSocket => !c.session.socket.closed && c.session.authed)
    (x := run (step .sample .little) new upWithOne) (by decide +kernel)
  obtain ⟨t, ht, hq⟩ := ok_of_any (p := fun t : ClientSocketMgr => weight t.accepted == 18)
    (x := run (step .sample .little) new (upWithOne ++ List.replicate 10 Act.tick))
    (by decide +kernel)
  rw [run_append_of_ok hm] at ht
  simp only [Bool.and_eq_true, Bool.not_eq_true', beq_iff_eq, Option.any_eq_true] at hp hq
  obtain ⟨⟨⟨⟨hs, hload⟩, hweight⟩, htally⟩, c, hc, hopen, hauthed⟩ := hp
  have hup : m.Up := ⟨hs, c, hc, hopen, hauthed⟩
  have hadm : ∀ a ∈ upWithOne, a.Admissible := by
    intro a ha
    rcases List.mem_append.mp ha with ha | ha
    · exact sendOne_admissible a ha
    · rw [List.mem_singleton.mp ha]
      exact trivial
  refine ⟨m, t, hm, hup, ht, allSent .sample .little hm hadm hup ht ?_ ?_⟩
  · intro a ha
    rw [List.eq_of_mem_replicate ha]
    exact fun _ n => ⟨Nat.le_refl n, id⟩
  · rw [hload, hq, hweight, htally]
    decide

end ClientSocketMgr

end WarheadDiscord
