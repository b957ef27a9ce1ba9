import WarheadDiscord.Client.ClientSession
import WarheadDiscord.Client.WireFormat

/-!
# What `SendPacket` puts on the wire

`queueFrame` goes through one buffer, or through two when the packet does not fit
in the first one (`queueFrame_eq`).  Both ways it queues the same bytes, those of
`DiscordPacket.wire` (`queueFrame_spec`).  The header in them says the size and the
opcode of the packet whatever these are, and nothing on this side compares them
with the bounds that the reader checks.

* `authSessionPacket_of_le`, `authSessionPacket_of_lt`: the packet of
  `SendAuthSession` has the lengths of its four strings and sixteen more bytes, or
  an assertion of `append` ends the program.
* `sentHeaders_good_iff`: exactly which packets get a header that the reader's check
  lets through.
-/

namespace WarheadDiscord

open Lib

namespace DiscordPacket

variable {p : DiscordPacket}

theorem wire_length (p : DiscordPacket) : p.wire.length = p.size + 6 := by
  have hh : p.header.header.length = 6 := DiscordServerPktHeader.header_length _ _
  rw [wire, List.length_append, hh, Nat.add_comm]
  rfl

theorem storage_of_empty (h : p.empty = true) : p.storage = [] := by
  rw [ByteBuffer.empty, List.isEmpty_iff] at h
  exact h

end DiscordPacket

/-- A header and a content, written one after the other into an empty buffer. -/
theorem active_of_writes {b : MessageBuffer} (hb : b.Valid) (h0 : b.active = [])
    (p : DiscordPacket) (hr : p.size + 6 ≤ b.getRemainingSpace) :
    (if !p.empty then (b.write p.header.header).write p.storage
      else b.write p.header.header).active = p.wire := by
  have hh : p.header.header.length = 6 := DiscordServerPktHeader.header_length _ _
  have hv : (b.write p.header.header).Valid := hb.write (by omega)
  have hw : (b.write p.header.header).active = p.header.header := by
    rw [hb.active_write, h0, List.nil_append]
  cases he : p.empty with
  | true =>
    rw [if_neg (by decide), hw, DiscordPacket.wire, DiscordPacket.storage_of_empty he,
      List.append_nil]
  | false => rw [if_pos (by decide), hv.active_write, hw, DiscordPacket.wire]

namespace DiscordPacket

/-- The buffer with the frame of a packet: a new one, or one of the size of the frame. -/
def frameBuffer (p : DiscordPacket) : MessageBuffer :=
  let buffer := if p.size + 6 ≤ 4096 then MessageBuffer.new else MessageBuffer.ofSize (p.size + 6)
  if !p.empty then (buffer.write p.header.header).write p.storage
  else buffer.write p.header.header

/-- The frame of a large packet is queued behind the buffer that it did not fit into. -/
def buffers (p : DiscordPacket) : List MessageBuffer :=
  if p.size + 6 ≤ 4096 then [p.frameBuffer] else [.new, p.frameBuffer]

theorem frameBuffer_active (p : DiscordPacket) : p.frameBuffer.active = p.wire := by
  rw [frameBuffer]
  by_cases hfit : p.size + 6 ≤ 4096
  · rw [if_pos hfit]
    exact active_of_writes MessageBuffer.new_valid MessageBuffer.new_active p
      (by rw [MessageBuffer.new_getRemainingSpace]; exact hfit)
  · rw [if_neg hfit]
    exact active_of_writes (MessageBuffer.ofSize_valid _) (MessageBuffer.ofSize_active _) p
      (Nat.le_of_eq (MessageBuffer.ofSize_getRemainingSpace _).symm)

theorem frameBuffer_getActiveSize (p : DiscordPacket) : 0 < p.frameBuffer.getActiveSize := by
  by_contra h0
  have hnil := MessageBuffer.active_of_getActiveSize (Nat.eq_zero_of_not_pos h0)
  have hlen := p.wire_length
  rw [← frameBuffer_active, hnil, List.length_nil] at hlen
  omega

theorem buffers_active (p : DiscordPacket) : p.buffers.flatMap MessageBuffer.active = p.wire := by
  rw [buffers]
  split <;> simp [frameBuffer_active]

end DiscordPacket

namespace ClientSession

/-- **The buffers that `SendPacket` queues.** -/
theorem queueFrame_eq (socket : Socket) (p : DiscordPacket) :
    queueFrame socket p = p.buffers.foldl Socket.queuePacket socket := by
  have hn : p.header.getHeaderLength = 6 := rfl
  unfold queueFrame
  dsimp only
  rw [hn, MessageBuffer.new_getRemainingSpace]
  by_cases hfit : p.size + 6 ≤ 4096
  · have hr := MessageBuffer.new_getRemainingSpace
    have hframe := p.frameBuffer_getActiveSize
    have hlarge : ¬ 4096 < p.size + 6 := by omega
    rw [DiscordPacket.buffers, if_pos hfit, if_neg hlarge, if_neg hlarge, hr, if_pos hfit]
    rw [DiscordPacket.frameBuffer, if_pos hfit] at hframe ⊢
    rw [if_pos hframe]
    rfl
  · have hr : (MessageBuffer.new.moveFrom.2).getRemainingSpace = 0 := rfl
    have ha : (MessageBuffer.new.moveFrom.2).getActiveSize = 0 := rfl
    have hlarge : 4096 < p.size + 6 := by omega
    rw [DiscordPacket.buffers, if_neg hfit, if_pos hlarge, if_pos hlarge, hr,
      if_neg (by omega), ha, if_neg (by omega), DiscordPacket.frameBuffer, if_neg hfit]
    rfl

/-- **`SendPacket` queues the frame of the packet**, on the path with one buffer and on
the path with two. -/
theorem queueFrame_spec (socket : Socket) (p : DiscordPacket) :
    (queueFrame socket p).queued = socket.queued ++ p.wire ∧
      (queueFrame socket p).closed = socket.closed ∧
      (queueFrame socket p).closing = socket.closing := by
  have h := p.buffers_active
  rw [queueFrame_eq, ← h]
  generalize p.buffers = buffers
  induction buffers generalizing socket with
  | nil => simp
  | cons b rest ih =>
    obtain ⟨hqueued, hclosed, hclosing⟩ := ih (socket.queuePacket b)
    rw [List.foldl_cons, hqueued, hclosed, hclosing]
    exact ⟨by simp [Socket.queuePacket], rfl, rfl⟩

variable {s : ClientSession} {origin : Origin} {p : DiscordPacket} {env : Env}

theorem sendPacket_of_closed (h : s.isOpen = false) : s.sendPacket origin p = s := by
  rw [sendPacket, if_pos (by rw [h]; rfl)]

theorem sendPacket_of_open (h : s.isOpen = true) : s.sendPacket origin p =
    { s with
      socket := queueFrame s.socket p
      written := s.written ++ [⟨origin, p⟩] } := by
  rw [sendPacket, if_neg (by rw [h]; decide)]

@[simp] theorem queueFrame_isOpen (socket : Socket) (p : DiscordPacket) :
    (queueFrame socket p).isOpen = socket.isOpen := by
  obtain ⟨-, hclosed, hclosing⟩ := queueFrame_spec socket p
  rw [Socket.isOpen, Socket.isOpen, hclosed, hclosing]

@[simp] theorem sendPacket_isOpen (origin : Origin) (s : ClientSession) (p : DiscordPacket) :
    (s.sendPacket origin p).isOpen = s.isOpen := by
  cases h : s.isOpen with
  | false => rw [sendPacket_of_closed h, h]
  | true =>
    rw [sendPacket_of_open h, isOpen, queueFrame_isOpen]
    exact h

end ClientSession

/-! ### Chains of `operator<<` -/

namespace DiscordPacket

theorem stream_bind (p : DiscordPacket) (w₁ w₂ : ByteBuffer → Except Fault ByteBuffer) :
    (p.stream w₁ >>= fun q => q.stream w₂) = p.stream (ByteBuffer.thenWrite w₁ w₂) := by
  rw [stream, stream, ByteBuffer.thenWrite]
  cases w₁ p.toByteBuffer with
  | error f => rfl
  | ok b => rfl

theorem stream_new {w : ByteBuffer → Except Fault ByteBuffer} {src : List UInt8} {last : Nat}
    (hw : ByteBuffer.Appends w src last) (opcode : UInt16) (h : src.length < 10000000 + last) :
    (new opcode).stream w = .ok { ByteBuffer.new.extend src with opcode := opcode } := by
  have hok := hw.ok .new ByteBuffer.new_atEnd (by
    show 0 + src.length < _
    omega)
  have hnew : (new opcode).toByteBuffer = ByteBuffer.new := rfl
  rw [stream, hnew, hok]
  rfl

theorem stream_new_error {w : ByteBuffer → Except Fault ByteBuffer} {src : List UInt8}
    {last : Nat} (hw : ByteBuffer.Appends w src last) (opcode : UInt16)
    (h : 10000000 + last ≤ src.length) :
    (new opcode).stream w = .error (.assertion "size() < 10000000") := by
  have herr := hw.error .new ByteBuffer.new_atEnd (by
    show _ ≤ 0 + src.length
    omega)
  have hnew : (new opcode).toByteBuffer = ByteBuffer.new := rfl
  rw [stream, hnew, herr]

end DiscordPacket

namespace ClientSession

variable {s : ClientSession} {origin : Origin} {p : DiscordPacket} {env : Env}

/-- What `SendAuthSession` writes into its packet. -/
def authSessionContent (env : Env) (s : ClientSession) : List UInt8 :=
  s.accountName ++ [0] ++ (s.accountKey ++ [0]) ++ (env.revision.companyNameStr ++ [0]) ++
    (env.revision.fileVersionStr ++ [0]) ++ toLE 4 warheadDiscordVersion.toNat ++
    toLE 8 s.serverID.toUInt64.toNat

theorem authSessionContent_length (env : Env) (s : ClientSession) :
    (s.authSessionContent env).length = s.accountName.length + s.accountKey.length +
      env.revision.companyNameStr.length + env.revision.fileVersionStr.length + 16 := by
  simp only [authSessionContent, List.length_append, toLE_length, List.length_singleton]
  omega

theorem authSessionPacket_eq (env : Env) (s : ClientSession) :
    ∃ w, ByteBuffer.Appends w (s.authSessionContent env) 8 ∧
      s.authSessionPacket env =
        (DiscordPacket.new DiscordCode.clientAuthSession.value).stream w := by
  refine ⟨_, (((((ByteBuffer.appends_writeString s.accountName).then
    (ByteBuffer.appends_writeString s.accountKey)).then
    (ByteBuffer.appends_writeString env.revision.companyNameStr)).then
    (ByteBuffer.appends_writeString env.revision.fileVersionStr)).then
    (ByteBuffer.appends_writeUInt32 warheadDiscordVersion)).then
    (ByteBuffer.appends_writeInt64 s.serverID), ?_⟩
  simp only [← DiscordPacket.stream_bind]
  simp only [authSessionPacket, bind_assoc]

/-- The packet of `SendAuthSession` below the limit of `append`. -/
def authPacket (env : Env) (s : ClientSession) : DiscordPacket :=
  { ByteBuffer.new.extend (s.authSessionContent env) with
    opcode := DiscordCode.clientAuthSession.value }

theorem authPacket_size (env : Env) (s : ClientSession) :
    (s.authPacket env).size = (s.authSessionContent env).length := rfl

/-- **The packet of `SendAuthSession` is built**, however long it is, when its last eight
bytes start below the limit of `append`; -/
theorem authSessionPacket_of_lt (h : (s.authSessionContent env).length < 10000008) :
    s.authSessionPacket env = .ok (s.authPacket env) := by
  obtain ⟨w, hw, heq⟩ := authSessionPacket_eq env s
  rw [heq, DiscordPacket.stream_new hw _ h]
  rfl

/-- and otherwise the program ends in an assertion. -/
theorem authSessionPacket_of_le (h : 10000008 ≤ (s.authSessionContent env).length) :
    s.authSessionPacket env = .error (.assertion "size() < 10000000") := by
  obtain ⟨w, hw, heq⟩ := authSessionPacket_eq env s
  rw [heq, DiscordPacket.stream_new_error hw _ h]

theorem sendAuthSession_of_lt (h : (s.authSessionContent env).length < 10000008) :
    s.sendAuthSession env = .ok
      { ((s.sendPacket .session (s.authPacket env)).now env).2 with
        startTime := ((s.sendPacket .session (s.authPacket env)).now env).1 } := by
  rw [sendAuthSession, authSessionPacket_of_lt h]
  rfl

theorem sendAuthSession_of_le (h : 10000008 ≤ (s.authSessionContent env).length) :
    s.sendAuthSession env = .error (.assertion "size() < 10000000") := by
  rw [sendAuthSession, authSessionPacket_of_le h]
  rfl

/-! ### The header of what is queued -/

/-- Between `s` and `t` nothing was queued for writing, or a frame with a header that the
shared check lets through. -/
def QueuesGoodFrame (s t : ClientSession) : Prop :=
  t.socket.queued = s.socket.queued ∨
    ∃ frame, t.socket.queued = s.socket.queued ++ frame ∧
      (headerOf frame).isValidSize = true ∧ (headerOf frame).isValidOpcode = true

theorem sendPacket_queued (h : s.isOpen = true) :
    (s.sendPacket origin p).socket.queued = s.socket.queued ++ p.wire := by
  rw [sendPacket_of_open h]
  exact (queueFrame_spec s.socket p).1

/-- **The header in the queue is good exactly when the size and the opcode are**, the
size as the 32 bits of the header keep it. -/
theorem wire_isValid_iff (p : DiscordPacket) :
    ((headerOf p.wire).isValidSize = true ∧ (headerOf p.wire).isValidOpcode = true) ↔
      p.opcode.toNat < 8 ∧ 2 ≤ (p.size + 2) % 2 ^ 32 ∧ (p.size + 2) % 2 ^ 32 < 10000 := by
  have hw := headerOf_wire p []
  rw [List.append_nil] at hw
  rw [hw, DiscordClientPktHeader.isValidSize_iff, DiscordClientPktHeader.isValidOpcode_iff,
    UInt32.toNat_ofNat']
  exact And.comm

theorem queuesGoodFrame_iff {t : ClientSession}
    (h : t.socket.queued = s.socket.queued ++ p.wire) : QueuesGoodFrame s t ↔
      p.opcode.toNat < 8 ∧ 2 ≤ (p.size + 2) % 2 ^ 32 ∧ (p.size + 2) % 2 ^ 32 < 10000 := by
  rw [← wire_isValid_iff, QueuesGoodFrame, h]
  constructor
  · rintro (h0 | ⟨frame, hf, hv⟩)
    · have hnil : p.wire = [] := by simpa using h0
      have hlen := p.wire_length
      rw [hnil, List.length_nil] at hlen
      omega
    · rw [List.append_cancel_left hf]
      exact hv
  · exact fun hv => .inr ⟨p.wire, rfl, hv⟩

theorem sendPacket_queuesGoodFrame (origin : Origin) (s : ClientSession) (p : DiscordPacket) :
    QueuesGoodFrame s (s.sendPacket origin p) ↔ s.isOpen = false ∨
      (p.opcode.toNat < 8 ∧ 2 ≤ (p.size + 2) % 2 ^ 32 ∧ (p.size + 2) % 2 ^ 32 < 10000) := by
  cases h : s.isOpen with
  | false =>
    rw [sendPacket_of_closed h]
    exact ⟨fun _ => .inl rfl, fun _ => .inl rfl⟩
  | true =>
    rw [queuesGoodFrame_iff (sendPacket_queued h)]
    exact ⟨.inr, fun hc => hc.resolve_left (by decide)⟩

theorem sendAuthSession_queuesGoodFrame (env : Env) (s : ClientSession) :
    (∀ t, s.sendAuthSession env = .ok t → QueuesGoodFrame s t) ↔ s.isOpen = false ∨
      (s.authSessionContent env).length ≤ 9997 ∨
        10000008 ≤ (s.authSessionContent env).length := by
  have hsize := authPacket_size env s
  have hop : (s.authPacket env).opcode.toNat = 2 := rfl
  by_cases hlt : (s.authSessionContent env).length < 10000008
  · have hiff := sendPacket_queuesGoodFrame .session s (s.authPacket env)
    rw [sendAuthSession_of_lt hlt]
    constructor
    · intro h
      have hgood := h _ rfl
      rcases hiff.mp hgood with hc | hgood
      · exact .inl hc
      · rw [hsize] at hgood
        exact .inr (.inl (by omega))
    · intro h t ht
      cases ht
      refine hiff.mpr (h.imp_right fun hl => ?_)
      rw [hsize, hop]
      omega
  · rw [sendAuthSession_of_le (by omega)]
    exact ⟨fun _ => .inr (.inr (by omega)), fun _ t ht => by cases ht⟩

/-- **When `SendPacket` keeps to the header check of the reader.**  On an open socket it
does exactly for the packets whose header fits; the packet of `SendAuthSession` fits up to
9997 bytes, and from 10000008 bytes on it is never built. -/
theorem sentHeaders_good_iff (env : Env) (s : ClientSession) :
    (∀ origin p, QueuesGoodFrame s (s.sendPacket origin p) ↔ s.isOpen = false ∨
      (p.opcode.toNat < 8 ∧ 2 ≤ (p.size + 2) % 2 ^ 32 ∧ (p.size + 2) % 2 ^ 32 < 10000)) ∧
    ((∀ t, s.sendAuthSession env = .ok t → QueuesGoodFrame s t) ↔ s.isOpen = false ∨
      s.accountName.length + s.accountKey.length + env.revision.companyNameStr.length +
          env.revision.fileVersionStr.length + 16 ≤ 9997 ∨
        10000008 ≤ s.accountName.length + s.accountKey.length +
          env.revision.companyNameStr.length + env.revision.fileVersionStr.length + 16) := by
  refine ⟨fun origin p => sendPacket_queuesGoodFrame origin s p, ?_⟩
  rw [sendAuthSession_queuesGoodFrame, authSessionContent_length]

/-- A payload of 9998 bytes, and an account name of 10000, on sessions that are open. -/
theorem sentHeaders_oversized :
    ¬ QueuesGoodFrame (.new .sample) ((ClientSession.new .sample).sendPacket .application
      ⟨⟨0, 9998, List.replicate 9998 0⟩, DiscordCode.clientSendMessage.value⟩) ∧
    ¬ ∀ t, { ClientSession.new .sample with accountName := List.replicate 10000 97 }.sendAuthSession
        .sample = .ok t →
      QueuesGoodFrame
        { ClientSession.new .sample with accountName := List.replicate 10000 97 } t := by
  constructor
  · rw [sendPacket_queuesGoodFrame]
    have hsize : (⟨⟨0, 9998, List.replicate 9998 0⟩, DiscordCode.clientSendMessage.value⟩ :
        DiscordPacket).size = 9998 := List.length_replicate
    have hopen : (ClientSession.new .sample).isOpen = true := by decide +kernel
    rw [hsize, hopen]
    decide
  · rw [sendAuthSession_queuesGoodFrame, authSessionContent_length]
    dsimp only
    have hopen : { ClientSession.new .sample with
        accountName := List.replicate 10000 97 }.isOpen = true := by decide +kernel
    have hlen : (Env.sample.revision.companyNameStr.length = 11 ∧
        Env.sample.revision.fileVersionStr.length = 3) ∧
        (ClientSession.new .sample).accountKey.length = 3 := by decide +kernel
    rw [hopen, List.length_replicate, hlen.1.1, hlen.1.2, hlen.2]
    decide

end ClientSession

end WarheadDiscord
