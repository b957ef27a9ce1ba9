import WarheadDiscord.Client.Holdings
import WarheadDiscord.Lib.Channel

/-!
# The packets of the application

A packet that `AddPacketToQueue` accepted waits in the queue of the manager, then in
the queue of a socket, and is written when that socket is open and authenticated.  So
the manager is a channel (`Holdings.channel`), which is faithful but for one thing: when
it parts with a socket, the queue of the socket is lost.

* `works_moves`, `parts_channel`: both halves of this.
* `step_written`: what was written grows at its end, although many sockets write it, one
  after the other.
* `sentPackets_subsequence`: what is written is a subsequence of what was accepted,
  whatever is lost.
* `packetsKept_iff_each`: nothing is lost exactly when the socket has no packets
  whenever the manager parts with it.
-/

namespace WarheadDiscord

open Lib

/-- A session marks its own packets with its own opcodes. -/
def ClientSession.Labelled (s : ClientSession) : Prop :=
  ∀ w ∈ s.written, w.origin = .session → w.packet.opcode ∈ ownOpcodes

theorem ClientSession.Received.labelled {s t : ClientSession} (h : Received s t)
    (hl : s.Labelled) : t.Labelled := by
  obtain ⟨sent, hw, ho, -⟩ := h.written
  intro w hm hs
  rw [hw] at hm
  rcases List.mem_append.mp hm with hm | hm
  · exact hl w hm hs
  · exact (ho w hm).2

namespace ClientSocket

variable {env : Env} {e : Endian} {c d : ClientSocket}

/-- What is known of every socket. -/
structure Sound (e : Endian) (c : ClientSocket) : Prop where
  inv : Inv e c
  recorded : c.session.Recorded
  labelled : c.session.Labelled

theorem begin_labelled (h : begin env = .ok c) : c.session.Labelled := by
  obtain ⟨-, -, -, -, -, -, -, hw⟩ := begin_spec h
  intro w hm _
  rw [hw] at hm
  split at hm
  · rw [List.mem_singleton.mp hm]
    exact List.mem_cons_self
  · exact absurd hm List.not_mem_nil

theorem step_labelled {a : Act} (hi : Inv e c) (hl : c.session.Labelled)
    (h : c.step env e a = .ok d) : d.session.Labelled := by
  cases a with
  | addPacketToQueue p => cases h; exact hl
  | update w =>
    cases h
    intro x hm hs
    have hw := ClientSession.update_written w c.session
    rw [hw] at hm
    rcases List.mem_append.mp hm with hm | hm
    · exact hl x hm hs
    · split at hm
      · obtain ⟨p, -, rfl⟩ := List.mem_map.mp hm
        cases hs
      · exact absurd hm List.not_mem_nil
  | read chunk => exact (step_received (.read chunk) hi h).labelled hl
  | readError => exact (step_received .readError hi h).labelled hl
  | writeReady w => exact (step_received (.writeReady w) hi h).labelled hl
  | closeSocket => exact (step_received .closeSocket hi h).labelled hl
  | disconnect => cases h; exact (ClientSession.disconnectManager_received _).labelled hl
  | release => cases h; exact hl

/-- **Every socket is sound**, whatever the manager does with it. -/
theorem kept_sound (e : Endian) : Kept e (Sound e) where
  inv h := h.inv
  start h := ⟨begin_inv h, begin_recorded h, begin_labelled h⟩
  step _ _ _ _ h hd := ⟨step_inv h.inv hd, step_recorded h.inv h.recorded hd,
    step_labelled h.inv h.labelled hd⟩
  unflag h := ⟨h.inv.unflag, h.recorded, h.labelled⟩
  letGo h hc := ⟨⟨⟨h.inv.session.closing, .inr hc⟩, h.inv.waits, h.inv.asks⟩, h.recorded,
    h.labelled⟩

end ClientSocket

/-! ### The histories of all sockets -/

theorem flatMap_set_of_eq {α β : Type*} {f : α → List β} {l : List α} {k : Nat} {a b : α}
    (ha : l[k]? = some a) (hf : f b = f a) : (l.set k b).flatMap f = l.flatMap f := by
  obtain ⟨hk, rfl⟩ := List.getElem?_eq_some_iff.mp ha
  have hk' : k < (l.map f).length := by rwa [List.length_map]
  have hget : f b = (l.map f)[k] := by rw [hf, List.getElem_map]
  rw [List.flatMap_def, List.flatMap_def, List.map_set, hget, List.set_getElem_self]

namespace Holdings

variable {e : Endian} {h h' : Holdings}

/-- What was written, by one socket after the other. -/
def written (h : Holdings) : List Written := h.sockets.flatMap (·.session.written)

/-- The packets of the application in it. -/
def delivered (h : Holdings) : List DiscordPacket := h.sockets.flatMap (·.session.delivered)

/-- The queue of the socket. -/
def socketQueue (h : Holdings) : List DiscordPacket :=
  h.clientSocket.elim [] (·.session.bufferQueue)

/-- The manager as a channel. -/
def channel (h : Holdings) : Channel DiscordPacket :=
  ⟨h.accepted, h.delivered, h.socketQueue ++ h.bufferQueue⟩

/-- What is left of the channel without the socket. -/
def dropped (h : Holdings) : Channel DiscordPacket := ⟨h.accepted, h.delivered, h.bufferQueue⟩

theorem delivered_eq (h : Holdings) : h.delivered =
    h.retired.flatMap (·.session.delivered) ++ h.clientSocket.elim [] (·.session.delivered) := by
  rw [delivered, sockets, List.flatMap_append]
  cases h.clientSocket <;> simp

theorem written_eq (h : Holdings) : h.written =
    h.retired.flatMap (·.session.written) ++ h.clientSocket.elim [] (·.session.written) := by
  rw [written, sockets, List.flatMap_append]
  cases h.clientSocket <;> simp

theorem event_channel (hi : ∀ c ∈ h.sockets, ClientSocket.Inv e c) (he : Event e h h') :
    h'.channel = h.channel ∧ h'.dropped = h.dropped := by
  have hd : h'.accepted = h.accepted ∧ h'.bufferQueue = h.bufferQueue ∧
      h'.delivered = h.delivered ∧ h'.socketQueue = h.socketQueue := by
    cases he with
    | none => exact ⟨rfl, rfl, rfl, rfl⟩
    | current hc hd =>
      have hr := ClientSocket.handle_received (hi _ (List.mem_append_right _ (by simp [hc]))) hd
      refine ⟨rfl, rfl, ?_, ?_⟩
      · rw [delivered_eq, delivered_eq, hc]
        exact congrArg _ hr.delivered
      · rw [socketQueue, socketQueue, hc]
        exact hr.bufferQueue
    | former hc hd =>
      have hr := ClientSocket.handle_received
        (hi _ (List.mem_append_left _ (List.mem_of_getElem? hc))) hd
      refine ⟨rfl, rfl, ?_, rfl⟩
      rw [delivered_eq, delivered_eq, flatMap_set_of_eq hc hr.delivered]
  obtain ⟨ha, hb, hdel, hs⟩ := hd
  rw [channel, channel, dropped, dropped, ha, hb, hdel, hs]
  exact ⟨rfl, rfl⟩

/-- **While the socket stays, the channel is faithful.** -/
theorem works_moves (hi : ∀ c ∈ h.sockets, ClientSocket.Inv e c) (hw : Works e h h') :
    Channel.Moves h.channel h'.channel := by
  cases hw with
  | event he =>
    rw [(event_channel hi he).1]
    exact .refl _
  | accept p => exact ⟨[p], [], rfl, (List.append_nil _).symm, List.append_assoc ..⟩
  | tick w arrived hc hopen =>
    rename_i c
    have hinv := (hi c (List.mem_append_right _ (by simp [hc]))).session
    obtain ⟨out, hdel, hq⟩ := ClientSession.update_moves w
      (by rw [hinv.isOpen_eq, hopen]; rfl : c.session.isOpen = true)
    refine ⟨arrived, out, rfl, ?_, ?_⟩
    · show delivered _ = delivered _ ++ out
      rw [delivered_eq, delivered_eq, hc, List.append_assoc]
      exact congrArg _ hdel
    · show socketQueue _ ++ _ ++ _ = out ++ (socketQueue _ ++ [])
      rw [socketQueue, socketQueue, hc]
      show c.session.bufferQueue ++ h.bufferQueue ++ arrived =
        out ++ ((c.session.update w).1.bufferQueue ++ (h.bufferQueue ++ arrived) ++ [])
      rw [hq, List.append_nil, List.append_assoc, List.append_assoc]

theorem delivered_letGo {c : ClientSocket} (hc : h.clientSocket = some c) {s : ClientSession}
    (hs : s.delivered = c.session.delivered) :
    delivered { h with
      clientSocket := none
      retired := h.retired ++ [ClientSocket.close ⟨c.read, s⟩ |>.letGo] } = h.delivered := by
  rw [delivered_eq, delivered_eq, hc, List.flatMap_append, List.flatMap_singleton]
  show _ ++ s.delivered ++ [] = _ ++ c.session.delivered
  rw [hs, List.append_nil]

/-- **Parting with the socket loses its queue**, and nothing else. -/
theorem parts_channel (hp : Parts h h') : h'.channel = h.dropped := by
  cases hp with
  | none hn => rw [channel, dropped, socketQueue, hn]; rfl
  | plain hc =>
    rename_i c
    exact congrArg (fun out => (⟨h.accepted, out, h.bufferQueue⟩ : Channel DiscordPacket))
      (delivered_letGo hc (s := c.session) rfl)
  | tick w hc hclosed =>
    rename_i c
    have hw := ClientSession.update_closed w hclosed
    have hdel : (c.session.update w).1.delivered = c.session.delivered := by
      rw [ClientSession.delivered, hw]
      rfl
    exact congrArg (fun out => (⟨h.accepted, out, h.bufferQueue⟩ : Channel DiscordPacket))
      (delivered_letGo hc hdel)

/-- A new socket has sent nothing of the application, and has no packets of it. -/
theorem starts_channel (hs : Starts h h') : h'.channel = h.channel := by
  obtain ⟨hn, env, c, hc, rfl⟩ := hs
  obtain ⟨-, -, -, -, -, hq, -, hw⟩ := ClientSocket.begin_spec hc
  have hdel : c.session.delivered = [] := by
    rw [ClientSession.delivered, hw]
    split <;> rfl
  rw [channel, channel, delivered_eq, delivered_eq, socketQueue, socketQueue, hn]
  dsimp only [Option.elim]
  rw [hdel, hq]

/-! ### What was written grows at its end -/

/-- The former sockets are closed. -/
def Former (h : Holdings) : Prop := ∀ c ∈ h.retired, c.session.socket.closed = true

/-- A former socket writes nothing more, and the socket writes behind all of them. -/
theorem event_written (hi : ∀ c ∈ h.sockets, ClientSocket.Inv e c) (hf : h.Former)
    (he : Event e h h') : h.written <+: h'.written ∧ h'.Former := by
  cases he with
  | none => exact ⟨List.prefix_rfl, hf⟩
  | current hc hd =>
    have hr := ClientSocket.handle_received (hi _ (List.mem_append_right _ (by simp [hc]))) hd
    obtain ⟨sent, hw, -⟩ := hr.written
    refine ⟨?_, hf⟩
    rw [written_eq, written_eq, hc]
    refine (List.prefix_append_right_inj _).mpr ?_
    exact ⟨sent, hw.symm⟩
  | former hc hd =>
    have hmem := List.mem_of_getElem? hc
    have hr := ClientSocket.handle_received (hi _ (List.mem_append_left _ hmem)) hd
    have hclosed := hf _ hmem
    refine ⟨?_, fun x hx => ?_⟩
    · rw [written_eq, written_eq, flatMap_set_of_eq hc (hr.written_of_closed hclosed)]
    · rcases List.mem_or_eq_of_mem_set hx with hx | rfl
      · exact hf x hx
      · exact hr.closed hclosed

theorem works_written (hi : ∀ c ∈ h.sockets, ClientSocket.Inv e c) (hf : h.Former)
    (hw : Works e h h') : h.written <+: h'.written ∧ h'.Former := by
  cases hw with
  | event he => exact event_written hi hf he
  | accept p => exact ⟨List.prefix_rfl, hf⟩
  | tick w arrived hc hopen =>
    rename_i c
    refine ⟨?_, hf⟩
    rw [written_eq, written_eq, hc]
    refine (List.prefix_append_right_inj _).mpr ?_
    exact ⟨_, (ClientSession.update_written w c.session).symm⟩

theorem parts_written (hf : h.Former) (hp : Parts h h') :
    h'.written = h.written ∧ h'.Former := by
  have hlast : ∀ {c : ClientSocket}, c.session.socket.closed = true →
      ∀ x ∈ h.retired ++ [c.letGo], x.session.socket.closed = true := by
    intro c hc x hx
    rcases List.mem_append.mp hx with hx | hx
    · exact hf x hx
    · rw [List.mem_singleton.mp hx]
      exact hc
  cases hp with
  | none hn => exact ⟨rfl, hf⟩
  | plain hc =>
    refine ⟨?_, hlast (ClientSocket.close_closed _)⟩
    rw [written_eq, written_eq, hc, List.flatMap_append, List.flatMap_singleton]
    exact List.append_nil _
  | tick w hc hclosed =>
    refine ⟨?_, hlast (ClientSocket.close_closed _)⟩
    rw [written_eq, written_eq, hc, List.flatMap_append, List.flatMap_singleton]
    refine (List.append_nil _).trans ?_
    exact congrArg _ (ClientSession.update_closed w hclosed)

theorem starts_written (hs : Starts h h') : h.written <+: h'.written := by
  obtain ⟨hn, env, c, hc, rfl⟩ := hs
  rw [written_eq, written_eq, hn]
  exact (List.prefix_append_right_inj _).mpr List.nil_prefix

end Holdings

namespace ClientSocketMgr

open Holdings

variable {env : Env} {e : Endian} {m t : ClientSocketMgr}

/-- **What a step does to the channel.**  It is faithful, or it loses the queue of the socket;
the latter only when it is one that drops or when it stops. -/
theorem step_channel {a : Act} (hi : ∀ c ∈ m.holdings.sockets, ClientSocket.Inv e c)
    (h : m.step env e a = .ok t) :
    m.Drops a = false ∧ Channel.Moves m.holdings.channel t.holdings.channel ∨
    (m.Drops a = true ∨ t.stopped = true) ∧ t.holdings.channel = m.holdings.dropped := by
  rcases step_effect (fun c hc => hi c (mem_sockets hc)) h with
    ⟨hd, hw⟩ | ⟨hd, h₁, h₂, he, hp, hs⟩
  · exact .inl ⟨hd, works_moves hi hw⟩
  · refine .inr ⟨hd, ?_⟩
    rw [← (event_channel hi he).2, ← parts_channel hp]
    rcases hs with hs | hs
    · rw [hs]
    · exact starts_channel hs

theorem step_leaks {a : Act} (hi : ∀ c ∈ m.holdings.sockets, ClientSocket.Inv e c)
    (h : m.step env e a = .ok t) : Channel.Leaks m.holdings.channel t.holdings.channel := by
  rcases step_channel hi h with ⟨-, hm⟩ | ⟨-, hd⟩
  · exact hm.leaks
  · rw [hd]
    refine ⟨[], [], (List.append_nil _).symm, (List.append_nil _).symm, ?_⟩
    rw [List.append_nil]
    exact List.sublist_append_right _ _

theorem step_written {a : Act} (hi : ∀ c ∈ m.holdings.sockets, ClientSocket.Inv e c)
    (hf : m.holdings.Former) (h : m.step env e a = .ok t) :
    m.holdings.written <+: t.holdings.written ∧ t.holdings.Former := by
  rcases step_effect (fun c hc => hi c (mem_sockets hc)) h with
    ⟨-, hw⟩ | ⟨-, h₁, h₂, he, hp, hs⟩
  · exact works_written hi hf hw
  · obtain ⟨hw₁, hf₁⟩ := event_written hi hf he
    obtain ⟨hw₂, hf₂⟩ := parts_written hf₁ hp
    rw [← hw₂] at hw₁
    rcases hs with hs | hs
    · rw [hs]
      exact ⟨hw₁, hf₂⟩
    · refine ⟨hw₁.trans (starts_written hs), ?_⟩
      obtain ⟨-, env, c, -, heq⟩ := hs
      rw [heq]
      exact hf₂

/-! ### What every run keeps -/

/-- What is known of the manager: its sockets are sound, the former ones closed, and the
channel has kept the order. -/
structure Sound (e : Endian) (m : ClientSocketMgr) : Prop where
  sockets : ∀ c ∈ m.holdings.sockets, ClientSocket.Sound e c
  former : m.holdings.Former
  ordered : m.holdings.channel.Ordered

theorem Sound.inv (h : Sound e m) : ∀ c ∈ m.holdings.sockets, ClientSocket.Inv e c :=
  fun c hc => (h.sockets c hc).inv

theorem new_sound (e : Endian) : Sound e new :=
  ⟨fun _ h => absurd h List.not_mem_nil, fun _ h => absurd h List.not_mem_nil,
    List.Sublist.refl []⟩

theorem step_sound {a : Act} (hm : Sound e m) (h : m.step env e a = .ok t) : Sound e t :=
  ⟨step_kept (ClientSocket.kept_sound e) hm.sockets h, (step_written hm.inv hm.former h).2,
    (step_leaks hm.inv h).ordered hm.ordered⟩

theorem run_sound {acts : List Act} (h : run (step env e) new acts = .ok m) : Sound e m :=
  run_invariant (I := Sound e) (fun _ _ _ hm hs => step_sound hm hs) acts new m (new_sound e) h

theorem run_written {acts : List Act} (hm : Sound e m) (h : run (step env e) m acts = .ok t) :
    m.holdings.written <+: t.holdings.written :=
  (run_invariant (I := fun u => Sound e u ∧ m.holdings.written <+: u.holdings.written)
    (fun _ _ _ hu hs => ⟨step_sound hu.1 hs, hu.2.trans (step_written hu.1.inv hu.1.former hs).1⟩)
    acts m t ⟨hm, List.prefix_rfl⟩ h).2

/-- The packets written that do not have the opcodes of a session's own. -/
def sentPackets (m : ClientSocketMgr) : List DiscordPacket :=
  (m.holdings.written.filter fun w => w.packet.opcode ∉ ClientSession.ownOpcodes).map (·.packet)

theorem Sound.sentPackets_delivered (h : Sound e m) :
    m.sentPackets.Sublist m.holdings.delivered := by
  have happ : ∀ w ∈ m.holdings.written, w.packet.opcode ∉ ClientSession.ownOpcodes →
      w.origin = .application := by
    intro w hw ho
    obtain ⟨c, hc, hwc⟩ := List.mem_flatMap.mp hw
    cases hor : w.origin with
    | application => rfl
    | session => exact absurd ((h.sockets c hc).labelled w hwc hor) ho
  have hdel : m.holdings.delivered =
      (m.holdings.written.filter fun w => w.origin == .application).map (·.packet) := by
    rw [delivered, written, List.filter_flatMap, List.map_flatMap]
    rfl
  rw [hdel, sentPackets]
  refine List.Sublist.map _ ?_
  have hfilter : m.holdings.written.filter (fun w => w.packet.opcode ∉ ClientSession.ownOpcodes) =
      (m.holdings.written.filter fun w => w.origin == .application).filter
        fun w => w.packet.opcode ∉ ClientSession.ownOpcodes := by
    rw [List.filter_filter]
    refine List.filter_congr fun w hw => ?_
    by_cases ho : w.packet.opcode ∈ ClientSession.ownOpcodes
    · simp [ho]
    · simp [ho, happ w hw ho]
  rw [hfilter]
  exact List.filter_sublist

/-- **What is sent is a subsequence of what was accepted.**  Nothing is sent twice and nothing
overtakes, over all the sockets of a run; the bytes that a socket has queued are those of
its packets; and the sockets write one after the other. -/
theorem sentPackets_subsequence {acts : List Act} (h : run (step env e) new acts = .ok m) :
    m.sentPackets.Sublist m.accepted ∧
    (∀ c ∈ m.holdings.sockets,
      c.session.socket.queued = c.session.written.flatMap fun w => w.packet.wire) ∧
    ∀ t, Visits (step env e) new acts t → t.holdings.written <+: m.holdings.written := by
  have hm := run_sound h
  refine ⟨hm.sentPackets_delivered.trans hm.ordered.delivered_sublist,
    fun c hc => (hm.sockets c hc).recorded, ?_⟩
  rintro t ⟨pre, ⟨rest, rfl⟩, ht⟩
  rw [run_append_of_ok ht] at h
  exact run_written (run_sound ht) h

/-- A packet that waits for the answer to the login, and is sent after it. -/
def sendOne : List Act :=
  Act.connected ++ [Act.addPacketToQueue (.new 4), .timerExpires, .runNext,
    .socketEvent none Int64.ofNat (.read ⟨[0, 0, 0, 3, 6, 0, 0], by decide⟩),
    .timerExpires, .runNext]

/-- Then the connection ends, and another packet is sent on the next one. -/
def sendTwo : List Act :=
  sendOne ++ [.socketEvent none Int64.ofNat .readError, .addPacketToQueue (.new 3),
    .timerExpires, .runNext, .timerExpires, .runNext, .runNext,
    .socketEvent none Int64.ofNat (.read ⟨[0, 0, 0, 3, 6, 0, 0], Nat.le_of_ble_eq_true rfl⟩),
    .timerExpires, .runNext, .runNext]

theorem sentPackets_subsequence_two : ∃ m, run (step .sample .little) new sendTwo = .ok m ∧
    m.connects.length = 2 ∧ m.sentPackets = [.new 4, .new 3] ∧
      m.sentPackets.Sublist m.accepted := by
  obtain ⟨m, hm, hp⟩ := ok_of_any
    (p := fun m => decide (m.connects.length = 2 ∧ m.sentPackets = [.new 4, .new 3]))
    (x := run (step .sample .little) new sendTwo) (by decide +kernel)
  obtain ⟨hconnects, hsent⟩ := of_decide_eq_true hp
  exact ⟨m, hm, hconnects, hsent, (sentPackets_subsequence hm).1⟩

/-! ### Loss -/

/-- Every packet that was accepted is in the queue of the manager or in that of its socket, or
it was written to a socket that was open. -/
def PacketsKept (m : ClientSocketMgr) : Prop :=
  m.accepted.Subperm (m.bufferQueue ++ m.holdings.socketQueue ++ m.holdings.delivered)

/-- **The condition on a step.**  When it parts with the socket then that has no packets. -/
def PartsEmpty (m : ClientSocketMgr) (a : Act) : Prop :=
  m.Drops a = true → m.holdings.socketQueue = []

theorem Sound.packetsKept_iff (h : Sound e m) :
    m.PacketsKept ↔ m.holdings.channel.Lossless := by
  have hperm : (m.bufferQueue ++ m.holdings.socketQueue ++ m.holdings.delivered).Perm
      (m.holdings.delivered ++ (m.holdings.socketQueue ++ m.bufferQueue)) :=
    List.perm_append_comm.trans (List.Perm.append_left _ List.perm_append_comm)
  rw [h.ordered.lossless_iff_subperm, PacketsKept, hperm.subperm_left]
  rfl

theorem step_packetsKept {a : Act} (hm : Sound e m) (hk : m.PacketsKept) (hs : t.stopped = false)
    (h : m.step env e a = .ok t) : t.PacketsKept ↔ PartsEmpty m a := by
  have hl := hm.packetsKept_iff.mp hk
  rw [(step_sound hm h).packetsKept_iff, PartsEmpty]
  rcases step_channel hm.inv h with ⟨hd, hmoves⟩ | ⟨hd | hd, hch⟩
  · rw [hd]
    exact ⟨fun _ hx => (by cases hx), fun _ => hmoves.lossless hl⟩
  · rw [hd, hch]
    have hiff := Channel.Lossless.drop_iff hl
    exact ⟨fun hx _ => hiff.mp hx, fun hx => hiff.mpr (hx rfl)⟩
  · rw [hs] at hd
    cases hd

/-- **Nothing is lost exactly when nothing is dropped.**  In all the states of a run without
`Disconnect` every packet is kept if and only if the manager parts with no socket that has
packets. -/
theorem packetsKept_iff_each {acts : List Act} (h : run (step env e) new acts = .ok m)
    (hs : m.stopped = false) :
    (∀ t, Visits (step env e) new acts t → t.PacketsKept) ↔
      Each (step env e) PartsEmpty new acts := by
  have hgoes : ∀ t, Visits (step env e) new acts t → t.stopped = false := fun t ht =>
    visits_of_end (I := fun m => m.stopped = false) (fun s a t hst hft => by
      cases hss : s.stopped with
      | false => rfl
      | true => rw [step_stopped hst hss] at hft; cases hft) h hs ht
  refine visits_iff_each_of (I := fun m => Sound e m ∧ m.stopped = false)
    (fun m a t hm ht hk hst => step_packetsKept hm.1 hk ht.2 hst) acts new
    (fun t ht => ⟨?_, hgoes t ht⟩) (List.Subperm.refl [])
  obtain ⟨pre, -, hr⟩ := ht
  exact run_sound hr

/-- Where nothing is dropped. -/
theorem packetsKept_iff_each_one : ∃ m, run (step .sample .little) new sendOne = .ok m ∧
    m.stopped = false ∧ ((∀ t, Visits (step .sample .little) new sendOne t → t.PacketsKept) ↔
      Each (step .sample .little) PartsEmpty new sendOne) := by
  obtain ⟨m, hm, hs⟩ := ok_of_any (p := fun m => !m.stopped)
    (x := run (step .sample .little) new sendOne) (by decide +kernel)
  have hs' : m.stopped = false := by simpa using hs
  exact ⟨m, hm, hs', packetsKept_iff_each hm hs'⟩

/-- A connection that is closed before the login is answered takes the packet with it. -/
def loseOne : List Act :=
  Act.connected ++ [Act.addPacketToQueue (.new 4), .timerExpires, .runNext,
    .socketEvent none Int64.ofNat .readError, .timerExpires, .runNext]

theorem loseOne_not_kept : ∃ m, run (step .sample .little) new loseOne = .ok m ∧
    m.stopped = false ∧ ¬ m.PacketsKept := by
  obtain ⟨m, hm, hp⟩ := ok_of_any (p := fun m => !m.stopped && decide (m.accepted.length = 1 ∧
      (m.bufferQueue ++ m.holdings.socketQueue ++ m.holdings.delivered).length = 0))
    (x := run (step .sample .little) new loseOne) (by decide +kernel)
  rw [Bool.and_eq_true, decide_eq_true_iff] at hp
  obtain ⟨hs, ha, hl⟩ := hp
  refine ⟨m, hm, by simpa using hs, fun hk => ?_⟩
  have hle := List.Subperm.length_le hk
  omega

end ClientSocketMgr

end WarheadDiscord
