import Mathlib.Data.List.Flatten
import WarheadDiscord.Client.SocketLives
import WarheadDiscord.Client.Stream

/-!
# From the queue to the peer

The packets that the application gives to the manager travel through its queue, the queue
of a socket, the write queue of that socket and the kernel, and are cut out of the stream
again by the peer, which reads with the same code.  Each of these stages was looked at by
itself; here they are put together.

* `stream_kept`: the bytes that the kernel has taken from a socket are the first of its
  frames.
* `session_kept`: the packets of the session's own are those of its protocol, the first of
  all the login.
* `peer_receives`: **what a peer reads from any of the sockets is what was written to it,
  and over all the sockets the packets of the application arrive at most once and in
  order.**
-/

namespace WarheadDiscord

open Lib

/-! ### The bytes -/

namespace ClientSession

variable {env : Env} {s t : ClientSession}

theorem closeSocket_channel (s : Socket) : s.closeSocket.channel = s.channel := by
  rw [Socket.channel, Socket.channel, Socket.pending, Socket.pending, Socket.closeSocket_queued,
    Socket.closeSocket_sent, Socket.closeSocket_writeQueue]

theorem foldl_queuePacket_moves : ∀ (buffers : List MessageBuffer) (s : Socket),
    Channel.Moves s.channel (buffers.foldl Socket.queuePacket s).channel := by
  intro buffers
  induction buffers with
  | nil => intro s; exact .refl _
  | cons b rest ih => intro s; exact (Socket.queuePacket_moves s b).trans (ih _)

theorem queueFrame_moves (socket : Socket) (p : DiscordPacket) :
    Channel.Moves socket.channel (queueFrame socket p).channel := by
  rw [queueFrame_eq]
  exact foldl_queuePacket_moves _ _

theorem sendPacket_moves (origin : Origin) (s : ClientSession) (p : DiscordPacket) :
    Channel.Moves s.socket.channel (s.sendPacket origin p).socket.channel := by
  cases ho : s.isOpen with
  | false => rw [sendPacket_of_closed ho]; exact .refl _
  | true =>
    have hq := queueFrame_moves s.socket p
    rw [sendPacket_of_open ho]
    dsimp only
    exact hq

theorem foldl_sendPacket_moves (origin : Origin) : ∀ (ps : List DiscordPacket) (s : ClientSession),
    Channel.Moves s.socket.channel (ps.foldl (sendPacket origin) s).socket.channel := by
  intro ps
  induction ps with
  | nil => intro s; exact .refl _
  | cons p ps ih => intro s; exact (sendPacket_moves origin s p).trans (ih _)

theorem disconnectManager_channel (s : ClientSession) :
    s.disconnectManager.socket.channel = s.socket.channel := by
  rw [disconnectManager]
  dsimp only
  split
  · exact closeSocket_channel _
  · rfl

theorem update_channel_moves {w : Nat → Nat → WriteResult} (hc : s.socket.closing = false)
    (hw : ∀ i n, (w i n).Admissible n) :
    Channel.Moves s.socket.channel (s.update w).1.socket.channel := by
  have hdrained : Channel.Moves s.socket.channel s.drained.socket.channel := by
    unfold drained
    split
    · exact foldl_sendPacket_moves .application _ { s with bufferQueue := [] }
    · exact .refl _
  have hclosing : s.drained.socket.closing = false := (drained_same s).closing.trans hc
  rw [update_eq]
  exact hdrained.trans (Socket.step_moves (e := .update w) hclosing hw rfl).1

theorem readDataHandler_moves {f : Frame} {result : ReadDataHandlerResult}
    (h : s.readDataHandler env f.packet = .ok (t, result)) :
    Channel.Moves s.socket.channel t.socket.channel := by
  rw [readDataHandler_eq] at h
  split at h
  · cases h
  · cases h; exact .refl _
  · cases h; rw [disconnectManager_channel]; exact .refl _
  · cases h; rw [disconnectManager_channel]; exact .refl _
  · cases h; exact sendPacket_moves _ ({ ((s.dispatch f).now env).2 with authed := true }.now env).2 _
  · cases h; exact .refl _

end ClientSession

namespace ClientSocket

variable {env : Env} {e : Endian} {c d : ClientSocket}

/-- **Every action of a socket moves its bytes on**, and loses none. -/
theorem step_channel {a : Act} (hi : Inv e c) (ha : a.Admissible) (h : c.step env e a = .ok d) :
    Channel.Moves c.session.socket.channel d.session.socket.channel := by
  have hclose : ∀ s : ClientSession,
      Channel.Moves s.socket.channel s.closeSocket.socket.channel := fun s => by
    rw [ClientSession.closeSocket, ClientSession.closeSocket_channel]
    exact .refl _
  cases a with
  | addPacketToQueue p => cases h; exact .refl _
  | update w => cases h; exact ClientSession.update_channel_moves hi.session.closing ha
  | read chunk =>
    rw [step] at h
    cases hp : c.read.readPending with
    | true =>
      obtain ⟨pending, hw⟩ := hi.waits hp
      obtain ⟨handed, t, stop, hf, hs⟩ := readInternal_ok hw h
      have ht := handleFrames_invariant
        (I := fun t => Channel.Moves c.session.socket.channel t.socket.channel)
        (fun f s t result hr ht => hr.trans (ClientSession.readDataHandler_moves ht)) _ _ _ _ _
        (.refl _) hf
      rcases hs with hs | hs
      · rw [hs]; exact ht
      · rw [hs]; exact ht.trans (hclose t)
    | false =>
      rw [readInternal, hp] at h
      cases h
      exact .refl _
  | readError =>
    cases h
    split
    · exact hclose _
    · exact .refl _
  | writeReady w =>
    cases h
    exact (Socket.step_moves (e := .writeReady w) hi.session.closing ha rfl).1
  | closeSocket => cases h; exact hclose _
  | disconnect =>
    cases h
    rw [ClientSession.disconnectManager_channel]
    exact .refl _
  | release => cases h; exact hclose _

theorem begin_lossless (h : begin env = .ok c) : c.session.socket.channel.Lossless := by
  have hnew : (ClientSession.new env).socket.channel.Lossless := by
    rw [ClientSession.new]
    dsimp only
    split_ifs <;>
      simp [ClientSession.disconnectManager, ClientSession.closeSocket, Socket.closeSocket,
        Socket.channel, Socket.pending, Socket.new, Channel.Lossless, Socket.isOpen]
  rw [begin] at h
  dsimp only at h
  obtain ⟨t, ht, rfl⟩ := start_ok h
  have hheld :
      ({ ClientSession.new env with held := true } : ClientSession).socket.channel.Lossless := hnew
  change ({ ClientSession.new env with held := true } : ClientSession).sendAuthSession env = _ at ht
  generalize ({ ClientSession.new env with held := true } : ClientSession) = s at ht hheld
  by_cases hlt : (s.authSessionContent env).length < 10000008
  · rw [ClientSession.sendAuthSession_of_lt hlt] at ht
    cases ht
    exact (ClientSession.sendPacket_moves .session s _).lossless hheld
  · rw [ClientSession.sendAuthSession_of_le (by omega)] at ht
    cases ht

/-- The bytes that the kernel has taken and those that wait for it are the ones that were
queued. -/
def Streams (e : Endian) (c : ClientSocket) : Prop :=
  Inv e c ∧ c.session.socket.channel.Lossless

theorem stream_kept (env : Env) (e : Endian) : ClientSocketMgr.KeptBy env e (Streams e) where
  inv h := h.1
  start _ _ h := ⟨begin_inv h, begin_lossless h⟩
  step _ _ _ _ hc ha hd := ⟨step_inv hc.1 hd, (step_channel hc.1 ha hd).lossless hc.2⟩
  unflag h := ⟨h.1.unflag, h.2⟩

end ClientSocket

/-! ### The packets of the session -/

namespace ClientSession

variable {env : Env} {s t u : ClientSession}

/-- Behind what was written come packets of the application and pings, and none of them on a
closed socket. -/
structure Adds (s t : ClientSession) : Prop where
  written : ∃ sent, t.written = s.written ++ sent ∧
    (∀ w ∈ sent, w.origin = .session → ∃ now latency, w.packet = pingPacket now latency) ∧
    (s.socket.closed = true → sent = [])
  closed : s.socket.closed = true → t.socket.closed = true

theorem Adds.of_eq (hw : t.written = s.written)
    (hc : s.socket.closed = true → t.socket.closed = true) : Adds s t :=
  ⟨⟨[], by rw [hw, List.append_nil], fun _ h => absurd h List.not_mem_nil, fun _ => rfl⟩, hc⟩

theorem Adds.refl (s : ClientSession) : Adds s s := .of_eq rfl id

theorem Adds.trans (h : Adds s t) (g : Adds t u) : Adds s u := by
  obtain ⟨sent₁, hw₁, hp₁, hc₁⟩ := h.written
  obtain ⟨sent₂, hw₂, hp₂, hc₂⟩ := g.written
  refine ⟨⟨sent₁ ++ sent₂, ?_, fun w hw => ?_, fun hc => ?_⟩, fun hc => g.closed (h.closed hc)⟩
  · rw [hw₂, hw₁, List.append_assoc]
  · exact (List.mem_append.mp hw).elim (hp₁ w) (hp₂ w)
  · rw [hc₁ hc, hc₂ (h.closed hc)]
    rfl

theorem sendPacket_adds {origin : Origin} {p : DiscordPacket}
    (hp : origin = .session → ∃ now latency, p = pingPacket now latency) (s : ClientSession) :
    Adds s (s.sendPacket origin p) := by
  cases ho : s.isOpen with
  | false => rw [sendPacket_of_closed ho]; exact .refl s
  | true =>
    refine ⟨⟨[⟨origin, p⟩], ?_, fun w hw => ?_, fun hc => ?_⟩,
      fun hc => (sendPacket_same _ s p).closed.trans hc⟩
    · rw [sendPacket_written, ho, if_pos rfl]
    · rw [List.mem_singleton.mp hw]
      exact hp
    · rw [isOpen, Socket.isOpen, hc] at ho
      cases ho

theorem foldl_sendPacket_adds : ∀ (ps : List DiscordPacket) (s : ClientSession),
    Adds s (ps.foldl (sendPacket .application) s) := by
  intro ps
  induction ps with
  | nil => intro s; exact .refl s
  | cons p ps ih => intro s; exact (sendPacket_adds (fun h => by cases h) s).trans (ih _)

theorem update_adds (w : Nat → Nat → WriteResult) (hc : s.socket.closing = false) :
    Adds s (s.update w).1 := by
  have hdrained : Adds s s.drained := by
    unfold drained
    split
    · exact Adds.trans (t := { s with bufferQueue := [] }) (.of_eq rfl id)
        (foldl_sendPacket_adds _ _)
    · exact .refl s
  have hsame := Socket.update_sameEnds w ((drained_same s).closing.trans hc)
  rw [update_eq]
  exact hdrained.trans (.of_eq rfl fun h => hsame.closed.trans h)

theorem disconnectManager_adds (s : ClientSession) : Adds s s.disconnectManager :=
  .of_eq rfl (disconnectManager_received s).closed

theorem readDataHandler_adds {f : Frame} {result : ReadDataHandlerResult}
    (h : s.readDataHandler env f.packet = .ok (t, result)) : Adds s t := by
  have hn : Adds s ((s.dispatch f).now env).2 := .of_eq rfl id
  rw [readDataHandler_eq] at h
  split at h
  · cases h
  · cases h; exact .of_eq rfl id
  · cases h; exact Adds.trans (t := s.dispatch f) (.of_eq rfl id) (disconnectManager_adds _)
  · cases h; exact hn.trans (disconnectManager_adds _)
  · cases h
    refine Adds.trans (t := ({ ((s.dispatch f).now env).2 with authed := true }.now env).2)
      (.of_eq rfl id) (sendPacket_adds (fun _ => ⟨_, _, rfl⟩) _)
  · cases h; exact .of_eq rfl id

/-- A session writes the login first, and then nothing of its own but pings; or it is closed and
has written nothing. -/
def Speaks (auth : DiscordPacket) (s : ClientSession) : Prop :=
  (s.written = [] ∧ s.socket.closed = true) ∨
    ∃ rest, s.written = ⟨.session, auth⟩ :: rest ∧
      ∀ w ∈ rest, w.origin = .session → ∃ now latency, w.packet = pingPacket now latency

theorem Speaks.adds {auth : DiscordPacket} (h : Speaks auth s) (g : Adds s t) : Speaks auth t := by
  obtain ⟨sent, hw, hp, hnil⟩ := g.written
  rcases h with ⟨h0, hc⟩ | ⟨rest, hr, hrest⟩
  · exact .inl ⟨by rw [hw, h0, hnil hc]; rfl, g.closed hc⟩
  · refine .inr ⟨rest ++ sent, by rw [hw, hr]; rfl, fun w hm => ?_⟩
    exact (List.mem_append.mp hm).elim (hrest w) (hp w)

end ClientSession

namespace ClientSocket

variable {env : Env} {e : Endian} {c d : ClientSocket}

theorem step_adds {a : Act} (hi : Inv e c) (h : c.step env e a = .ok d) :
    ClientSession.Adds c.session d.session := by
  have hclose : ∀ s : ClientSession, ClientSession.Adds s s.closeSocket := fun s =>
    .of_eq rfl fun _ => ClientSession.closeSocket_closed s
  cases a with
  | addPacketToQueue p => cases h; exact .of_eq rfl id
  | update w => cases h; exact ClientSession.update_adds w hi.session.closing
  | read chunk =>
    rw [step] at h
    cases hp : c.read.readPending with
    | true =>
      obtain ⟨pending, hw⟩ := hi.waits hp
      obtain ⟨handed, t, stop, hf, hs⟩ := readInternal_ok hw h
      have ht := handleFrames_invariant (I := ClientSession.Adds c.session)
        (fun f s t result hr ht => hr.trans (ClientSession.readDataHandler_adds ht)) _ _ _ _ _
        (.refl _) hf
      rcases hs with hs | hs
      · rw [hs]; exact ht
      · rw [hs]; exact ht.trans (hclose t)
    | false =>
      rw [readInternal, hp] at h
      cases h
      exact .refl _
  | readError =>
    cases h
    split
    · exact hclose _
    · exact .refl _
  | writeReady w =>
    cases h
    have hs := Socket.handleQueue_sameEnds
      (s := { c.session.socket with isWritingAsync := false }) w hi.session.closing
    exact .of_eq rfl fun hc => hs.closed.trans hc
  | closeSocket => cases h; exact hclose _
  | disconnect => cases h; exact ClientSession.disconnectManager_adds _
  | release => cases h; exact .of_eq rfl fun _ => ClientSession.closeSocket_closed _

/-- **The sockets speak the protocol of the session.** -/
theorem session_kept (env : Env) (e : Endian) : ClientSocketMgr.KeptBy env e fun c =>
    Inv e c ∧ c.session.Speaks ((ClientSession.new env).authPacket env) where
  inv h := h.1
  start clock c h := by
    obtain ⟨-, -, hclosing, -, -, -, -, hw⟩ := begin_spec h
    refine ⟨begin_inv h, ?_⟩
    cases ho : c.session.isOpen with
    | true =>
      rw [ho, if_pos rfl] at hw
      exact .inr ⟨[], hw, fun w hm => absurd hm List.not_mem_nil⟩
    | false =>
      rw [ho, if_neg (by decide)] at hw
      rw [ClientSession.isOpen, Socket.isOpen, hclosing] at ho
      exact .inl ⟨hw, by simpa using ho⟩
  step _ _ _ _ hc _ hd := ⟨step_inv hc.1 hd, hc.2.adds (step_adds hc.1 hd)⟩
  unflag h := ⟨h.1.unflag, h.2.adds (.of_eq rfl id)⟩

end ClientSocket

/-! ### The peer -/

theorem pingPacket_sendable (now latency : Int64) : (ClientSession.pingPacket now latency).Sendable := by
  have hsize : (ClientSession.pingPacket now latency).size = 16 := by
    show (toLE 8 _ ++ toLE 8 _).length = 16
    rw [List.length_append, toLE_length, toLE_length]
  have hopcode : (ClientSession.pingPacket now latency).opcode =
      DiscordCode.clientSendPing.value := rfl
  exact ⟨by rw [hopcode]; decide, by rw [hsize]; decide⟩

theorem discordFormat_look_nil : discordFormat.look [] = .more := by
  show lookFrame [] = .more
  exact lookFrame_of_short (by decide)

namespace ClientSocket

/-- The frames that the peer has been able to read. -/
def peerFrames (c : ClientSocket) : List Frame := (discordFormat.parse c.session.socket.sent).1

/-- The frames that were written. -/
def frames (c : ClientSocket) : List Frame := c.session.written.map (·.packet.frame)

end ClientSocket

namespace ClientSocketMgr

variable {env : Env} {e : Endian} {m : ClientSocketMgr} {acts : List Act} {c : ClientSocket}

theorem written_sendable (h : run (step env e) new acts = .ok m) (ha : ∀ a ∈ acts, a.Admissible)
    (hauth : ((ClientSession.new env).authPacket env).Sendable) (hp : ∀ p ∈ m.accepted, p.Sendable)
    (hc : c ∈ m.holdings.sockets) : ∀ w ∈ c.session.written, w.packet.Sendable := by
  obtain ⟨-, hs⟩ := (ClientSocket.session_kept env e).run_all acts new m
    (fun _ hx => absurd hx List.not_mem_nil) ha h c hc
  intro w hw
  cases ho : w.origin with
  | application =>
    have hdel : w.packet ∈ m.holdings.delivered := by
      refine List.mem_flatMap.mpr ⟨c, hc, List.mem_map.mpr ⟨w, List.mem_filter.mpr ⟨hw, ?_⟩, rfl⟩⟩
      rw [ho]
      rfl
    exact hp _ ((run_sound h).ordered.delivered_sublist.subset hdel)
  | session =>
    rcases hs with ⟨hnil, -⟩ | ⟨rest, hrest, hping⟩
    · rw [hnil] at hw
      exact absurd hw List.not_mem_nil
    · rw [hrest] at hw
      rcases List.mem_cons.mp hw with rfl | hw
      · exact hauth
      · obtain ⟨now, latency, hpk⟩ := hping w hw ho
        rw [hpk]
        exact pingPacket_sendable now latency

/-- What the kernel has taken from a socket are the first bytes of its frames. -/
theorem sent_prefix_frames (h : run (step env e) new acts = .ok m) (ha : ∀ a ∈ acts, a.Admissible)
    (hc : c ∈ m.holdings.sockets) : c.session.socket.sent <+: c.frames.flatMap Frame.wire := by
  obtain ⟨-, hl⟩ := (ClientSocket.stream_kept env e).run_all acts new m
    (fun _ hx => absurd hx List.not_mem_nil) ha h c hc
  have hrec : c.session.socket.queued = c.session.written.flatMap fun w => w.packet.wire :=
    ((run_sound h).sockets c hc).recorded
  have hpre : c.session.socket.sent <+: c.session.socket.queued := hl.sent_first
  rw [hrec] at hpre
  rw [ClientSocket.frames, List.flatMap_map]
  exact hpre

/-- **What the peer reads.**  Let no write fail, let the login be short enough, and let every
packet that the application gave be one that the reader accepts.  Then a peer that
reads from any of the sockets, in chunks of any kind, is handed the first of the frames that
were written to it, the login first, and never gets a bad header.  And over all the sockets
the packets of the application that it can have read are a subsequence of those that were
accepted: each at most once, in order and unchanged. -/
theorem peer_receives (env : Env) (e : Endian) {acts : List Act}
    (h : run (step env e) new acts = .ok m) (ha : ∀ a ∈ acts, a.Admissible)
    (hauth : ((ClientSession.new env).authSessionContent env).length ≤ 9997)
    (hp : ∀ p ∈ m.accepted, p.Sendable) :
    (∀ c ∈ m.holdings.sockets, ∀ (host : Endian) (handler : DataHandler) (receiver : ClientSession)
      (chunks : List (List UInt8)), KeepsOpen handler → receiver.isOpen = true →
      chunks.flatten <+: c.session.socket.sent → (∀ b ∈ chunks, b.length ≤ readBlockSize) →
      ∃ r t, run (deliver host handler) (ReadSide.new.asyncRead true, receiver) chunks =
          .ok (r, t) ∧ t.isOpen = true ∧ r.handed <+: c.frames ∧
        ∀ f, r.handed.head? = some f → f = ((ClientSession.new env).authPacket env).frame) ∧
    (m.holdings.sockets.flatMap fun c =>
      c.peerFrames.filter fun f => f.opcode ∉ ClientSession.ownOpcodes).Sublist
      (m.accepted.map DiscordPacket.frame) := by
  have hopcode : ((ClientSession.new env).authPacket env).opcode =
      DiscordCode.clientAuthSession.value := rfl
  have hlogin : ((ClientSession.new env).authPacket env).Sendable :=
    ⟨by rw [hopcode]; decide, hauth⟩
  have hsend : ∀ c ∈ m.holdings.sockets, ∀ f ∈ c.frames, f.packet.Sendable := by
    intro c hc f hf
    obtain ⟨w, hw, rfl⟩ := List.mem_map.mp hf
    exact written_sendable h ha hlogin hp hc w hw
  refine ⟨fun c hc host handler receiver chunks hk hr hflat hb => ?_, ?_⟩
  · obtain ⟨⟨r, t⟩, hrun, hh, ht⟩ := run_deliver_reading (e := host) hk chunks [] _
      (reading_start host hr) hb
    obtain ⟨hpre, hgood⟩ := Format.parse_of_prefix discordFormat_writes discordFormat_look_nil
      (hsend c hc) (hflat.trans (sent_prefix_frames h ha hc))
    rw [List.nil_append] at hh ht
    rw [← hh] at hpre
    refine ⟨r, t, hrun, ?_, hpre, fun f hf => ?_⟩
    · cases htail : (discordFormat.parse chunks.flatten).2 with
      | bad => exact absurd htail hgood
      | «open» rest => rw [htail] at ht; exact ht.2
    · obtain ⟨-, hs⟩ := (ClientSocket.session_kept env e).run_all acts new m
        (fun _ hx => absurd hx List.not_mem_nil) ha h c hc
      obtain ⟨later, hl⟩ := hpre
      have hfirst : c.frames.head? = some f := by rw [← hl, List.head?_append, hf]; rfl
      rw [ClientSocket.frames] at hfirst
      rcases hs with ⟨hnil, -⟩ | ⟨rest, hrest, -⟩
      · rw [hnil] at hfirst
        cases hfirst
      · rw [hrest] at hfirst
        exact (Option.some.inj hfirst).symm
  · have hframes : (m.holdings.sockets.flatMap fun c =>
        c.frames.filter fun f => f.opcode ∉ ClientSession.ownOpcodes) =
        m.sentPackets.map DiscordPacket.frame := by
      rw [sentPackets, Holdings.written, List.filter_flatMap, List.map_flatMap, List.map_flatMap]
      refine List.flatMap_congr fun c _ => ?_
      rw [ClientSocket.frames, List.filter_map, List.map_map]
      rfl
    have hout : m.sentPackets.Sublist m.accepted := (sentPackets_subsequence h).1
    refine List.Sublist.trans ?_ (hframes ▸ hout.map DiscordPacket.frame)
    refine List.Sublist.flatMap_right _ fun c hc => ?_
    exact (Format.parse_of_prefix discordFormat_writes discordFormat_look_nil (hsend c hc)
      (sent_prefix_frames h ha hc)).1.sublist.filter _

theorem sendOne_admissible : ∀ a ∈ sendOne, a.Admissible := by
  intro a ha
  simp only [sendOne, Act.connected, Act.runNext, List.cons_append, List.nil_append,
    List.mem_cons, List.not_mem_nil, or_false] at ha
  rcases ha with rfl | rfl | rfl | rfl | rfl | rfl | rfl | rfl | rfl
  all_goals first | exact trivial | exact fun _ n => ⟨Nat.le_refl n, id⟩

/-- The two frames of a socket that has sent a packet, read by a peer in two chunks. -/
theorem peer_receives_one : ∃ m, run (step .sample .little) new sendOne = .ok m ∧
    ∃ c ∈ m.holdings.sockets, 0 < c.session.socket.sent.length ∧
      ∃ r t, run (deliver .big acceptAll) (ReadSide.new.asyncRead true, .new .sample)
          [c.session.socket.sent.take 3, c.session.socket.sent.drop 3] = .ok (r, t) ∧
        r.handed <+: c.frames := by
  obtain ⟨m, hm, hp⟩ := ok_of_any (p := fun m : ClientSocketMgr =>
      decide (m.accepted = [.new 4]) && m.clientSocket.any fun c : ClientSocket =>
        decide (0 < c.session.socket.sent.length ∧ c.session.socket.sent.length ≤ readBlockSize))
    (x := run (step .sample .little) new sendOne) (by decide +kernel)
  rw [Bool.and_eq_true, decide_eq_true_iff, Option.any_eq_true] at hp
  obtain ⟨haccepted, c, hc, hlen⟩ := hp
  obtain ⟨hpos, hle⟩ := of_decide_eq_true hlen
  have hsendable : ∀ p ∈ m.accepted, p.Sendable := by
    intro p hp
    rw [haccepted] at hp
    rw [List.mem_singleton.mp hp]
    exact ⟨by decide, by decide⟩
  have hmem := mem_sockets hc
  refine ⟨m, hm, c, hmem, hpos, ?_⟩
  obtain ⟨r, t, hrun, -, hpre, -⟩ := (peer_receives .sample .little hm sendOne_admissible
    (by decide +kernel)
    hsendable).1 c hmem .big acceptAll (.new .sample)
    [c.session.socket.sent.take 3, c.session.socket.sent.drop 3] acceptAll_keepsOpen
    (by decide +kernel) (by simp) (by
      intro b hb
      simp only [List.mem_cons, List.not_mem_nil, or_false] at hb
      rcases hb with rfl | rfl
      · rw [List.length_take]
        omega
      · rw [List.length_drop]
        omega)
  exact ⟨r, t, hrun, hpre⟩

end ClientSocketMgr

end WarheadDiscord
