import WarheadDiscord.Client.ReadDataHandler
import WarheadDiscord.Client.ReadHandler
import WarheadDiscord.Lib.Machine

/-!
# `ClientSocket`

The read side and the session, and what can happen to them from outside: packets to
send, ticks, bytes and errors from the peer, and the manager that closes the socket
or lets it go.  All of it runs on the one thread of the `io_context`, one action
after the other.

* `Inv`, `step_inv`: what every action keeps.  Above all the buffers are in order
  whenever a read is outstanding (`ReadSide.Waits`).
* `read_step`: what a read does, said of the bytes.
-/

namespace WarheadDiscord

open Lib

namespace ClientSession

/-! ### What sending leaves alone -/

/-- Sending changes the write queue and the histories of what was sent, and nothing of
what the receiving side looks at. -/
structure SameReader (s t : ClientSession) : Prop where
  closed : t.socket.closed = s.socket.closed
  closing : t.socket.closing = s.socket.closing
  authed : t.authed = s.authed
  held : t.held = s.held
  dispatched : t.dispatched = s.dispatched

variable {s t u : ClientSession} {env : Env}

theorem SameReader.refl (s : ClientSession) : SameReader s s := ⟨rfl, rfl, rfl, rfl, rfl⟩

theorem SameReader.trans (h : SameReader s t) (g : SameReader t u) : SameReader s u :=
  ⟨g.closed.trans h.closed, g.closing.trans h.closing, g.authed.trans h.authed,
    g.held.trans h.held, g.dispatched.trans h.dispatched⟩

theorem sendPacket_same (origin : Origin) (s : ClientSession) (p : DiscordPacket) :
    SameReader s (s.sendPacket origin p) := by
  cases h : s.isOpen with
  | false => rw [sendPacket_of_closed h]; exact .refl s
  | true =>
    obtain ⟨-, hclosed, hclosing⟩ := queueFrame_spec s.socket p
    rw [sendPacket_of_open h]
    exact ⟨hclosed, hclosing, rfl, rfl, rfl⟩

@[simp] theorem sendPacket_bufferQueue (origin : Origin) (s : ClientSession) (p : DiscordPacket) :
    (s.sendPacket origin p).bufferQueue = s.bufferQueue := by
  cases h : s.isOpen with
  | false => rw [sendPacket_of_closed h]
  | true => rw [sendPacket_of_open h]

theorem sendPacket_written (origin : Origin) (s : ClientSession) (p : DiscordPacket) :
    (s.sendPacket origin p).written =
      if s.isOpen then s.written ++ [⟨origin, p⟩] else s.written := by
  cases h : s.isOpen with
  | false => rw [sendPacket_of_closed h]; rfl
  | true => rw [sendPacket_of_open h]; rfl

/-- `SendAuthSession` sends its packet, and changes nothing that is received with. -/
theorem sendAuthSession_same (h : s.sendAuthSession env = .ok t) :
    SameReader s t ∧ t.bufferQueue = s.bufferQueue ∧
      t.written = if s.isOpen then s.written ++ [⟨.session, s.authPacket env⟩] else s.written := by
  by_cases hlt : (s.authSessionContent env).length < 10000008
  · rw [sendAuthSession_of_lt hlt] at h
    cases h
    have hs := sendPacket_same .session s (s.authPacket env)
    exact ⟨⟨hs.closed, hs.closing, hs.authed, hs.held, hs.dispatched⟩,
      sendPacket_bufferQueue .session s _, sendPacket_written .session s _⟩
  · rw [sendAuthSession_of_le (by omega)] at h
    cases h

theorem foldl_sendPacket_same (origin : Origin) (ps : List DiscordPacket) (s : ClientSession) :
    SameReader s (ps.foldl (sendPacket origin) s) := by
  induction ps generalizing s with
  | nil => exact .refl s
  | cons p ps ih => exact (sendPacket_same origin s p).trans (ih _)

/-- What the loop of `Update` leaves. -/
def drained (s : ClientSession) : ClientSession :=
  if s.authed then s.bufferQueue.foldl (sendPacket .application) { s with bufferQueue := [] }
  else s

theorem update_eq (w : Nat → Nat → WriteResult) (s : ClientSession) :
    s.update w = ({ s.drained with socket := (s.drained.socket.update w).1 },
      (s.drained.socket.update w).2) := by
  rw [update, drained, PacketQueue.whileNext_eq_foldl]

theorem drained_same (s : ClientSession) : SameReader s s.drained := by
  unfold drained
  split
  · exact SameReader.trans (t := { s with bufferQueue := [] }) ⟨rfl, rfl, rfl, rfl, rfl⟩
      (foldl_sendPacket_same _ _ _)
  · exact .refl s

theorem update_same (w : Nat → Nat → WriteResult) (h : s.socket.closing = false) :
    SameReader s (s.update w).1 := by
  have hq := drained_same s
  have hu := Socket.update_sameEnds w (hq.closing.trans h)
  rw [update_eq]
  exact hq.trans ⟨hu.closed, hu.closing, rfl, rfl, rfl⟩

/-- **`Update` answers whether the socket is not closed.** -/
theorem update_snd (w : Nat → Nat → WriteResult) (s : ClientSession) :
    (s.update w).2 = !s.socket.closed := by
  rw [update_eq, ← (drained_same s).closed]
  exact Socket.update_snd _ _

/-! ### What a session keeps -/

/-- The socket is not marked for closing, and it is the manager's or closed. -/
structure Inv (s : ClientSession) : Prop where
  closing : s.socket.closing = false
  held : s.held = true ∨ s.socket.closed = true

theorem Inv.isOpen_eq (h : Inv s) : s.isOpen = !s.socket.closed := by
  rw [isOpen, Socket.isOpen, h.closing, Bool.not_false, Bool.and_true]

theorem Inv.same (h : Inv s) (hs : SameReader s t) : Inv t :=
  ⟨hs.closing.trans h.closing, by rw [hs.held, hs.closed]; exact h.held⟩

@[simp] theorem closeSocket_closed (s : ClientSession) : s.closeSocket.socket.closed = true :=
  Socket.closeSocket_closed _

theorem Inv.closeSocket (h : Inv s) : Inv s.closeSocket :=
  ⟨(Socket.closeSocket_closing _).trans h.closing, .inr (closeSocket_closed s)⟩

/-- **After `Disconnect` the socket is closed**: by the call if it was the manager's, and
before it otherwise. -/
theorem Inv.disconnectManager_closed (h : Inv s) :
    s.disconnectManager.socket.closed = true := by
  unfold disconnectManager
  dsimp only
  split
  · exact Socket.closeSocket_closed _
  · rename_i hn
    rw [← isOpen, h.isOpen_eq] at hn
    rcases h.held with hh | hc
    · rw [hh] at hn
      simpa using hn
    · exact hc

theorem Inv.disconnectManager (h : Inv s) : Inv s.disconnectManager := by
  refine ⟨?_, .inr h.disconnectManager_closed⟩
  rw [ClientSession.disconnectManager]
  dsimp only
  split
  · exact (Socket.closeSocket_closing _).trans h.closing
  · exact h.closing

theorem Inv.dispatch (h : Inv s) (f : Frame) : Inv (s.dispatch f) := ⟨h.closing, h.held⟩

theorem authenticate_same (env : Env) (s : ClientSession) :
    SameReader { s with authed := true } (s.authenticate env) :=
  SameReader.trans (t := ({ s with authed := true }.now env).2) ⟨rfl, rfl, rfl, rfl, rfl⟩
    (sendPacket_same _ _ _)

theorem readDataHandler_inv {f : Frame} {result : ReadDataHandlerResult} (h : Inv s)
    (ht : s.readDataHandler env f.packet = .ok (t, result)) : Inv t := by
  have hnow : Inv ((s.dispatch f).now env).2 := ⟨h.closing, h.held⟩
  rw [readDataHandler_eq] at ht
  split at ht
  · cases ht
  · cases ht; exact h.dispatch f
  · cases ht; exact (h.dispatch f).disconnectManager
  · cases ht; exact hnow.disconnectManager
  · cases ht
    exact Inv.same (s := { ((s.dispatch f).now env).2 with authed := true })
      ⟨h.closing, h.held⟩ (authenticate_same env _)
  · cases ht; exact ⟨h.closing, h.held⟩

/-- **A frame that its handler can read**: what it leaves of the session.  The socket is
closed by a rejection and by nothing else. -/
theorem Inv.readDataHandler_of_wellFormed (env : Env) {f : Frame} (hi : Inv s)
    (h : f.handled s.authed = true) (hw : f.wellFormed = true) :
    ∃ t, s.readDataHandler env f.packet = .ok (t, .ok) ∧ Inv t ∧
      t.authed = (s.authed || f.isAcceptance) ∧
      t.dispatched = s.dispatched ++ [⟨f, s.socket.closed⟩] ∧
      t.socket.closed = (s.socket.closed || f.isRejection) := by
  obtain ⟨t, ht, ha⟩ := ClientSession.readDataHandler_of_wellFormed env h hw
  refine ⟨t, ht, readDataHandler_inv hi ht, ha, ?_⟩
  rw [readDataHandler_eq] at ht
  rcases reaction_of_wellFormed h hw with ⟨-, hrej, -, hr⟩ | ⟨-, hrej, -, hr⟩ | ⟨-, hrej, -, hr⟩
  · have hs := authenticate_same env ((s.dispatch f).now env).2
    rw [hr] at ht
    cases ht
    rw [hrej, Bool.or_false]
    exact ⟨hs.dispatched, hs.closed⟩
  · have hnow : Inv ((s.dispatch f).now env).2 := ⟨hi.closing, hi.held⟩
    rw [hr] at ht
    cases ht
    rw [hrej, Bool.or_true]
    exact ⟨rfl, hnow.disconnectManager_closed⟩
  · rw [hr] at ht
    cases ht
    rw [hrej, Bool.or_false]
    exact ⟨rfl, rfl⟩

/-- `WaitingForQuery` is not used. -/
theorem readDataHandler_result {f : Frame} {result : ReadDataHandlerResult}
    (h : s.readDataHandler env f.packet = .ok (t, result)) : result ≠ .waitingForQuery := by
  rw [readDataHandler_eq] at h
  split at h <;> cases h <;> decide

/-! ### The history of what was written -/

/-- The bytes that were queued are those of the packets in the history, in order. -/
def Recorded (s : ClientSession) : Prop :=
  s.socket.queued = s.written.flatMap fun w => w.packet.wire

theorem Recorded.sendPacket (h : Recorded s) (origin : Origin) (p : DiscordPacket) :
    Recorded (s.sendPacket origin p) := by
  cases ho : s.isOpen with
  | false => rw [sendPacket_of_closed ho]; exact h
  | true =>
    rw [Recorded, sendPacket_queued ho, sendPacket_written, ho, if_pos rfl, List.flatMap_append, h]
    rw [List.flatMap_singleton]

theorem Recorded.foldl_sendPacket (origin : Origin) (ps : List DiscordPacket)
    (h : Recorded s) : Recorded (ps.foldl (ClientSession.sendPacket origin) s) := by
  induction ps generalizing s with
  | nil => exact h
  | cons p ps ih => exact ih (h.sendPacket origin p)

theorem Recorded.closeSocket (h : Recorded s) : Recorded s.closeSocket :=
  (Socket.closeSocket_queued _).trans h

theorem Recorded.disconnectManager (h : Recorded s) : Recorded s.disconnectManager := by
  rw [Recorded, ClientSession.disconnectManager]
  dsimp only
  split
  · exact (Socket.closeSocket_queued _).trans h
  · exact h

theorem Recorded.drained (h : Recorded s) : Recorded s.drained := by
  rw [ClientSession.drained]
  split
  · exact Recorded.foldl_sendPacket (s := { s with bufferQueue := [] }) .application _ h
  · exact h

theorem Recorded.update (h : Recorded s) (w : Nat → Nat → WriteResult)
    (hc : s.socket.closing = false) : Recorded (s.update w).1 := by
  rw [update_eq]
  exact (Socket.update_sameEnds w ((drained_same s).closing.trans hc)).queued.trans h.drained

theorem Recorded.sendAuthSession (h : Recorded s) (ht : s.sendAuthSession env = .ok t) :
    Recorded t := by
  by_cases hlt : (s.authSessionContent env).length < 10000008
  · rw [sendAuthSession_of_lt hlt] at ht
    cases ht
    exact h.sendPacket .session (s.authPacket env)
  · rw [sendAuthSession_of_le (by omega)] at ht
    cases ht

theorem Recorded.readDataHandler {f : Frame} {result : ReadDataHandlerResult} (h : Recorded s)
    (ht : s.readDataHandler env f.packet = .ok (t, result)) : Recorded t := by
  rw [readDataHandler_eq] at ht
  split at ht
  · cases ht
  · cases ht; exact h
  · cases ht; exact Recorded.disconnectManager (s := s.dispatch f) h
  · cases ht; exact Recorded.disconnectManager (s := ((s.dispatch f).now env).2) h
  · cases ht
    exact Recorded.sendPacket
      (s := ({ ((s.dispatch f).now env).2 with authed := true }.now env).2) h .session _
  · cases ht; exact h

end ClientSession

/-! ### The frames of a read -/

/-- An invariant of the handler is an invariant of the frames of a read. -/
theorem handleFrames_invariant {handler : DataHandler} {I : ClientSession → Prop}
    (hstep : ∀ (f : Frame) s t result, I s → handler f.packet s = .ok (t, result) → I t) :
    ∀ (fs : List Frame) (s : ClientSession) (handed : List Frame) (t : ClientSession)
      (stop : Option ReadDataHandlerResult), I s →
      handleFrames handler fs s = .ok (handed, t, stop) → I t := by
  intro fs
  induction fs with
  | nil => intro s handed t stop hs h; cases h; exact hs
  | cons f fs ih =>
    intro s handed t stop hs h
    rw [handleFrames] at h
    rcases hf : handler f.packet s with fault | ⟨u, result⟩
    · rw [hf] at h; cases h
    · have hu := hstep f s u result hs hf
      rw [hf] at h
      cases result with
      | ok =>
        dsimp only at h
        rcases hr : handleFrames handler fs u with fault | ⟨handed', v, stop'⟩
        · rw [hr] at h; cases h
        · rw [hr] at h
          cases h
          exact ih u _ _ _ hu hr
      | error => cases h; exact hu
      | waitingForQuery => cases h; exact hu

/-- The result that stops the frames of a read is one of the handler's. -/
theorem handleFrames_stop {handler : DataHandler} : ∀ (fs : List Frame) (s : ClientSession)
    (handed : List Frame) (t : ClientSession) (result : ReadDataHandlerResult),
    handleFrames handler fs s = .ok (handed, t, some result) →
    ∃ (f : Frame) (u v : ClientSession), handler f.packet u = .ok (v, result) := by
  intro fs
  induction fs with
  | nil => intro s handed t result h; cases h
  | cons f fs ih =>
    intro s handed t result h
    rw [handleFrames] at h
    rcases hf : handler f.packet s with fault | ⟨u, r⟩
    · rw [hf] at h; cases h
    · rw [hf] at h
      cases r with
      | ok =>
        dsimp only at h
        rcases hr : handleFrames handler fs u with fault | ⟨handed', v, stop'⟩
        · rw [hr] at h; cases h
        · rw [hr] at h
          cases h
          exact ih u _ _ _ hr
      | error => cases h; exact ⟨f, s, _, hf⟩
      | waitingForQuery => cases h; exact ⟨f, s, _, hf⟩

/-- `READ_BLOCK_SIZE` bounds what one read brings. -/
abbrev Chunk := { bytes : List UInt8 // bytes.length ≤ readBlockSize }

structure ClientSocket where
  read : ReadSide
  session : ClientSession
  deriving DecidableEq, Repr

namespace ClientSocket

/-- What can happen to a `ClientSocket` from outside. -/
inductive Act where
  | addPacketToQueue (packet : DiscordPacket)
  | update (writeSome : Nat → Nat → WriteResult)
  | read (chunk : Chunk)
  | readError
  | writeReady (writeSome : Nat → WriteResult)
  | closeSocket
  /-- `ClientSocketMgr::Disconnect`. -/
  | disconnect
  /-- `ClientSocketMgr::Update` closes the socket and lets it go. -/
  | release

def new (env : Env) : ClientSocket := ⟨.new, .new env⟩

def start (env : Env) (c : ClientSocket) : Except Fault ClientSocket := do
  let session ← c.session.sendAuthSession env
  return ⟨c.read.asyncRead session.isOpen, session⟩

/-- The socket that `ConnectToServer` makes, once it is the manager's and started. -/
def begin (env : Env) : Except Fault ClientSocket :=
  let c := new env
  { c with session := { c.session with held := true } }.start env

/-- `ReadHandlerInternal`, if a read is outstanding. -/
def readInternal (env : Env) (e : Endian) (c : ClientSocket) (chunk : Chunk) :
    Except Fault ClientSocket :=
  if c.read.readPending then
    match ReadSide.readHandlerInternal e (ClientSession.readDataHandler env) chunk.1 c.read
        c.session with
    | .ok (read, session) => .ok ⟨read, session⟩
    | .error fault => .error fault
  else .ok c

def step (env : Env) (e : Endian) (c : ClientSocket) : Act → Except Fault ClientSocket
  | .addPacketToQueue packet => .ok { c with session := c.session.addPacketToQueue packet }
  | .update writeSome => .ok { c with session := (c.session.update writeSome).1 }
  | .read chunk => c.readInternal env e chunk
  | .readError =>
    .ok (if c.read.readPending then
      ⟨(ReadSide.readHandlerError c.read c.session).1,
        (ReadSide.readHandlerError c.read c.session).2⟩
    else c)
  | .writeReady writeSome =>
    .ok { c with session :=
      { c.session with socket := c.session.socket.writeHandlerWrapper writeSome } }
  | .closeSocket => .ok { c with session := c.session.closeSocket }
  | .disconnect => .ok { c with session := c.session.disconnectManager }
  | .release => .ok { c with session := { c.session.closeSocket with held := false } }

/-! ### The invariant -/

/-- What every action keeps. -/
structure Inv (e : Endian) (c : ClientSocket) : Prop where
  session : c.session.Inv
  waits : c.read.readPending = true → ∃ pending, c.read.Waits e pending
  /-- An open session asks for more. -/
  asks : c.session.socket.closed = false → c.read.readPending = true

variable {env : Env} {e : Endian} {c d : ClientSocket} {chunk : Chunk} {pending : List UInt8}

theorem Inv.same {s : ClientSession} (h : Inv e c)
    (hs : ClientSession.SameReader c.session s) : Inv e { c with session := s } :=
  ⟨h.session.same hs, h.waits, fun hc => h.asks (hs.closed.symm.trans hc)⟩

/-- **What a read does**, said of the bytes. -/
theorem read_step (env : Env) (chunk : Chunk) (h : c.read.Waits e pending) :
    ReadSide.Refines e { c.read with readPending := false }
      (ReadSide.readHandlerInternal e (ClientSession.readDataHandler env) chunk.1 c.read c.session)
      (receive (ClientSession.readDataHandler env) pending chunk.1 c.session) :=
  ReadSide.readHandlerInternal_refines _ h chunk.2

/-- The session that a read leaves is the one behind its frames, or that one closed. -/
theorem readInternal_ok (h : c.read.Waits e pending) (hd : c.readInternal env e chunk = .ok d) :
    ∃ handed t stop, handleFrames (ClientSession.readDataHandler env)
        (discordFormat.parse (pending ++ chunk.1)).1 c.session = .ok (handed, t, stop) ∧
      (d.session = t ∨ d.session = t.closeSocket) := by
  have href := read_step env chunk h
  rw [readInternal, if_pos h.readPending] at hd
  rw [receive] at href
  rcases hf : handleFrames (ClientSession.readDataHandler env)
      (discordFormat.parse (pending ++ chunk.1)).1 c.session with fault | ⟨handed, t, stop⟩
  · rw [hf] at href
    have herr : _ = Except.error fault := href
    rw [herr] at hd
    cases hd
  · rw [hf] at href
    obtain ⟨r', hr', -⟩ := href
    rw [hr'] at hd
    cases hd
    exact ⟨handed, t, stop, rfl, readEnd_fst stop _ t⟩

/-- A read keeps the session in order, and asks for more unless it closes. -/
theorem receive_inv {p : List UInt8} {s t : ClientSession} {handed : List Frame}
    {next : Option (List UInt8)} (hs : s.Inv)
    (h : receive (ClientSession.readDataHandler env) p chunk.1 s = .ok (handed, t, next)) :
    t.Inv ∧ (next = none → t.socket.closed = true) := by
  rw [receive] at h
  rcases hf : handleFrames (ClientSession.readDataHandler env)
      (discordFormat.parse (p ++ chunk.1)).1 s with fault | ⟨handed', u, stop⟩
  · rw [hf] at h; cases h
  · have hu := handleFrames_invariant (I := ClientSession.Inv)
      (fun f s t result hi ht => ClientSession.readDataHandler_inv hi ht) _ _ _ _ _ hs hf
    rw [hf] at h
    dsimp only at h
    rcases stop with _ | result
    · rcases htail : (discordFormat.parse (p ++ chunk.1)).2 with rest | _
      · rw [htail, readEnd] at h
        cases h
        refine ⟨hu, fun hn => ?_⟩
        rw [hu.isOpen_eq] at hn
        cases hc : t.socket.closed with
        | true => rfl
        | false => rw [hc] at hn; cases hn
      · rw [htail, readEnd] at h
        cases h
        exact ⟨hu.closeSocket, fun _ => ClientSession.closeSocket_closed u⟩
    · cases result with
      | waitingForQuery =>
        obtain ⟨f, v, w, hv⟩ := handleFrames_stop _ _ _ _ _ hf
        exact absurd rfl (ClientSession.readDataHandler_result hv)
      | ok =>
        rw [readEnd] at h
        · cases h
          exact ⟨hu.closeSocket, fun _ => ClientSession.closeSocket_closed u⟩
        · intro hx; cases hx
      | error =>
        rw [readEnd] at h
        · cases h
          exact ⟨hu.closeSocket, fun _ => ClientSession.closeSocket_closed u⟩
        · intro hx; cases hx

theorem readInternal_inv (h : Inv e c) (hd : c.readInternal env e chunk = .ok d) : Inv e d := by
  rw [readInternal] at hd
  by_cases hp : c.read.readPending = true
  · rw [if_pos hp] at hd
    obtain ⟨pending, hw⟩ := h.waits hp
    have href := read_step env chunk hw
    rcases hr : receive (ClientSession.readDataHandler env) pending chunk.1 c.session with
      fault | ⟨handed, t, next⟩
    · rw [hr] at href
      rw [href] at hd
      cases hd
    · rw [hr] at href
      obtain ⟨r', hr', -, hnext⟩ := href
      obtain ⟨hi, hclosed⟩ := receive_inv h.session hr
      rw [hr'] at hd
      cases hd
      cases next with
      | none =>
        refine ⟨hi, fun hp' => ?_, fun hc => ?_⟩
        · rw [hnext] at hp'; cases hp'
        · rw [hclosed rfl] at hc; cases hc
      | some rest => exact ⟨hi, fun _ => ⟨rest, hnext⟩, fun _ => hnext.readPending⟩
  · rw [if_neg hp] at hd
    cases hd
    exact h

/-- The actions that do not close the socket from this side. -/
def Act.Peaceful : Act → Prop
  | .readError | .closeSocket | .disconnect | .release => False
  | _ => True

/-- The bytes that an action brings. -/
def Act.bytes : Act → List UInt8
  | .read chunk => chunk.1
  | _ => []

theorem step_peaceful {a : Act} (hc : c.session.socket.closing = false) (hp : a.Peaceful)
    (hd : c.step env e a = .ok d) :
    (∃ chunk, a = .read chunk) ∨
      (a.bytes = [] ∧ ∃ s, d = { c with session := s } ∧ ClientSession.SameReader c.session s) := by
  cases a with
  | addPacketToQueue p => cases hd; exact .inr ⟨rfl, _, rfl, rfl, rfl, rfl, rfl, rfl⟩
  | update w => cases hd; exact .inr ⟨rfl, _, rfl, ClientSession.update_same w hc⟩
  | read chunk => exact .inl ⟨chunk, rfl⟩
  | writeReady w =>
    cases hd
    have hs := Socket.handleQueue_sameEnds
      (s := { c.session.socket with isWritingAsync := false }) w hc
    exact .inr ⟨rfl, _, rfl, hs.closed, hs.closing, rfl, rfl, rfl⟩
  | readError => exact hp.elim
  | closeSocket => exact hp.elim
  | disconnect => exact hp.elim
  | release => exact hp.elim

/-- **Every action keeps the invariant.** -/
theorem step_inv {a : Act} (h : Inv e c) (hd : c.step env e a = .ok d) : Inv e d := by
  have hclosed : ∀ s : ClientSession, s.Inv → s.socket.closed = true →
      Inv e { c with session := s } :=
    fun s hs hc => ⟨hs, h.waits, fun hc' => by rw [hc] at hc'; cases hc'⟩
  have hpeace : a.Peaceful → Inv e d := by
    intro hp
    rcases step_peaceful h.session.closing hp hd with ⟨chunk, rfl⟩ | ⟨-, s, rfl, hs⟩
    · exact readInternal_inv h hd
    · exact h.same hs
  cases a with
  | readError =>
    rw [step] at hd
    split at hd
    · cases hd
      refine ⟨h.session.closeSocket, fun hp => (by cases hp), fun hc => ?_⟩
      rw [ReadSide.readHandlerError, ClientSession.closeSocket_closed] at hc
      cases hc
    · cases hd
      exact h
  | closeSocket =>
    cases hd
    exact hclosed _ h.session.closeSocket (ClientSession.closeSocket_closed _)
  | disconnect =>
    cases hd
    exact hclosed _ h.session.disconnectManager h.session.disconnectManager_closed
  | release =>
    cases hd
    exact hclosed _ ⟨h.session.closeSocket.closing, .inr (ClientSession.closeSocket_closed _)⟩
      (ClientSession.closeSocket_closed _)
  | _ => exact hpeace trivial

/-! ### The start -/

theorem start_ok (h : c.start env = .ok d) :
    ∃ t, c.session.sendAuthSession env = .ok t ∧ d = ⟨c.read.asyncRead t.isOpen, t⟩ := by
  rw [start] at h
  rcases hs : c.session.sendAuthSession env with f | t
  · rw [hs] at h; cases h
  · rw [hs] at h; cases h; exact ⟨t, rfl, rfl⟩

/-- What `new` leaves in the fields that do not come from the configuration. -/
structure Fresh (s : ClientSession) : Prop where
  closing : s.socket.closing = false
  queued : s.socket.queued = []
  authed : s.authed = false
  bufferQueue : s.bufferQueue = []
  written : s.written = []
  dispatched : s.dispatched = []

theorem new_fresh (env : Env) : Fresh (ClientSession.new env) := by
  rw [ClientSession.new]
  dsimp only
  split_ifs <;> exact ⟨rfl, rfl, rfl, rfl, rfl, rfl⟩

/-- **A socket is ready to connect exactly when its configuration is complete.** -/
theorem new_isOpen_iff (env : Env) : (ClientSession.new env).isOpen = true ↔
    env.config.serverID ≠ 0 ∧ env.config.accountName ≠ [] ∧ env.config.accountKey ≠ [] := by
  rw [ClientSession.new]
  dsimp only
  by_cases h1 : env.config.serverID = 0 <;> by_cases h2 : env.config.accountName = [] <;>
    by_cases h3 : env.config.accountKey = [] <;>
    simp [h1, h2, h3, ClientSession.disconnectManager, ClientSession.closeSocket,
      ClientSession.isOpen, Socket.isOpen, Socket.closeSocket, Socket.new]

theorem begin_spec (h : begin env = .ok c) :
    c.session.isOpen = (ClientSession.new env).isOpen ∧
      c.read = ReadSide.new.asyncRead c.session.isOpen ∧ c.session.socket.closing = false ∧
      c.session.held = true ∧ c.session.authed = false ∧ c.session.bufferQueue = [] ∧
      c.session.dispatched = [] ∧
      c.session.written = if c.session.isOpen then
        [⟨.session, (ClientSession.new env).authPacket env⟩] else [] := by
  have hf := new_fresh env
  rw [begin] at h
  dsimp only at h
  obtain ⟨t, ht, rfl⟩ := start_ok h
  obtain ⟨hs, hq, hw⟩ := ClientSession.sendAuthSession_same ht
  have ho : t.isOpen = (ClientSession.new env).isOpen := by
    rw [ClientSession.isOpen, Socket.isOpen, hs.closed, hs.closing]
    rfl
  refine ⟨ho, rfl, hs.closing.trans hf.closing, hs.held, hs.authed.trans hf.authed,
    hq.trans hf.bufferQueue, hs.dispatched.trans hf.dispatched, ?_⟩
  have hw0 : (new env).session.written = [] := hf.written
  rw [hw, hw0, ho]
  rfl

theorem begin_ok (env : Env)
    (h : ((ClientSession.new env).authSessionContent env).length < 10000008) :
    ∃ c, begin env = .ok c := by
  have hs := ClientSession.sendAuthSession_of_lt
    (s := { ClientSession.new env with held := true }) h
  exact ⟨_, by rw [begin, start]; dsimp only [new]; rw [hs]; rfl⟩

/-- The sample configuration starts, and waits for the first byte. -/
theorem begin_sample : ∃ c, begin .sample = .ok c ∧ c.session.isOpen = true ∧
    c.session.authed = false ∧ ∀ e, c.read.Waits e [] := by
  obtain ⟨c, hc⟩ := begin_ok .sample (by decide +kernel)
  obtain ⟨ho, hread, -, -, ha, -⟩ := begin_spec hc
  have hopen : (ClientSession.new .sample).isOpen = true := by decide +kernel
  rw [hopen] at ho
  rw [ho] at hread
  exact ⟨c, hc, ho, ha, fun e => by rw [hread]; exact ReadSide.new_waits e⟩

theorem begin_inv (h : begin env = .ok c) : Inv e c := by
  obtain ⟨-, hread, hclosing, hheld, -⟩ := begin_spec h
  have hi : c.session.Inv := ⟨hclosing, .inl hheld⟩
  cases ho : c.session.isOpen with
  | true =>
    have hw := ReadSide.new_waits e
    rw [ho] at hread
    rw [← hread] at hw
    exact ⟨hi, fun _ => ⟨[], hw⟩, fun _ => hw.readPending⟩
  | false =>
    rw [ho] at hread
    refine ⟨hi, fun hp => ?_, fun hc => ?_⟩
    · rw [hread] at hp
      cases hp
    · rw [hi.isOpen_eq, hc] at ho
      cases ho

/-- **Every state that a run reaches is in order.** -/
theorem run_inv {acts : List Act} (h : begin env = .ok c) (hd : run (step env e) c acts = .ok d) :
    Inv e d :=
  run_invariant (I := Inv e) (fun _ _ _ hi hs => step_inv hi hs) acts c d (begin_inv h) hd

theorem step_recorded {a : Act} (hi : Inv e c) (h : c.session.Recorded)
    (hd : c.step env e a = .ok d) : d.session.Recorded := by
  cases a with
  | addPacketToQueue p => cases hd; exact h
  | update w => cases hd; exact h.update w hi.session.closing
  | read chunk =>
    rw [step] at hd
    cases hp : c.read.readPending with
    | true =>
      obtain ⟨pending, hw⟩ := hi.waits hp
      obtain ⟨handed, t, stop, hf, hs⟩ := readInternal_ok hw hd
      have ht := handleFrames_invariant (I := ClientSession.Recorded)
        (fun f s t result hr ht => hr.readDataHandler ht) _ _ _ _ _ h hf
      rcases hs with hs | hs
      · rw [hs]; exact ht
      · rw [hs]; exact ht.closeSocket
    | false =>
      rw [readInternal, hp] at hd
      cases hd
      exact h
  | readError =>
    cases hd
    split
    · exact h.closeSocket
    · exact h
  | writeReady w =>
    cases hd
    exact (Socket.handleQueue_sameEnds
      (s := { c.session.socket with isWritingAsync := false }) w hi.session.closing).queued.trans h
  | closeSocket => cases hd; exact h.closeSocket
  | disconnect => cases hd; exact h.disconnectManager
  | release => cases hd; exact h.closeSocket

theorem begin_recorded (h : begin env = .ok c) : c.session.Recorded := by
  have hnew : ({ ClientSession.new env with held := true } : ClientSession).Recorded := by
    have hf := new_fresh env
    rw [ClientSession.Recorded]
    dsimp only
    rw [hf.written, hf.queued]
    rfl
  rw [begin] at h
  dsimp only at h
  obtain ⟨t, ht, rfl⟩ := start_ok h
  exact hnew.sendAuthSession ht

/-- **In every state that a run reaches, what was queued is what was written.** -/
theorem run_recorded {acts : List Act} (h : begin env = .ok c)
    (hd : run (step env e) c acts = .ok d) : d.session.Recorded :=
  (run_invariant (I := fun c => Inv e c ∧ c.session.Recorded)
    (fun _ _ _ hi hs => ⟨step_inv hi.1 hs, step_recorded hi.1 hi.2 hs⟩) acts c d
    ⟨begin_inv h, begin_recorded h⟩ hd).2

end ClientSocket

end WarheadDiscord
