import WarheadDiscord.Client.Outgoing

/-!
# `ClientSocketMgr`

The manager has one socket at a time, a queue of packets for it, and one timer.  What
waits on the timer is a continuation of `Update` or of `ConnectToServer`.  A wait
completes when the timer expires or is cancelled or set anew, and then its handler is
queued in the `io_context` (`ready`), in any case once.  The handlers do not look at
the error code.

Everything runs on the one thread of the `io_context`, one action after the other, but
`AddPacketToQueue`, which other threads call too.  A former socket lives on while an
operation of its own is outstanding, so that its events can still come (`retired`).

`retired` also has the former sockets that are destroyed, for their histories;
`accepted` and `connects` are history as well: the packets that `addPacketToQueue` was
given and the endpoints to which a connection was tried.

* `update_cases`, `connect_cases`, `startSocket_ok`, `disconnect_ok` and the others: what
  each function does when it returns.
-/

namespace WarheadDiscord

open Lib

/-- An address of `tcp::v4()`. -/
abbrev IpAddress := UInt32

/-- `tcp::endpoint`. -/
structure Endpoint where
  address : IpAddress
  port : UInt16
  deriving DecidableEq, Repr

/-- The lambdas that are given to `async_wait`. -/
inductive TimerHandler where
  | update
  | connect (reconnectCount : UInt32)
  deriving DecidableEq, Repr

/-- `DeadlineTimer`: the handlers of the waits that are not complete. -/
structure DeadlineTimer where
  waiting : List TimerHandler
  deriving DecidableEq, Repr

/-- What one call of `Update` finds: the answers of the kernel to the writes of the socket,
and the packets that other threads add while it empties the queue. -/
structure Tick where
  writeSome : Nat → Nat → WriteResult
  arrivals : List (List DiscordPacket)

/-- `_clientSocket` is another socket or none from now on. -/
def ClientSocket.letGo (c : ClientSocket) : ClientSocket :=
  { c with session := { c.session with held := false } }

/-- `if (_clientSocket->IsOpen()) _clientSocket->CloseSocket();` -/
def ClientSocket.closeIfOpen (c : ClientSocket) : ClientSocket :=
  if c.session.isOpen then { c with session := c.session.closeSocket } else c

/-- An event of a socket, with `disconnectCalled` to tell whether it called `Disconnect`. -/
def ClientSocket.handle (env : Env) (e : Endian) (event : Event) (c : ClientSocket) :
    Except Fault ClientSocket :=
  { c with session := { c.session with disconnectCalled := false } }.step env e event.act

structure ClientSocketMgr where
  stopped : Bool
  updateTimer : Option DeadlineTimer
  clientSocket : Option ClientSocket
  address : Option IpAddress
  bufferQueue : PacketQueue DiscordPacket
  ready : List TimerHandler
  retired : List ClientSocket
  accepted : List DiscordPacket
  connects : List Endpoint
  deriving DecidableEq, Repr

namespace ClientSocketMgr

def new : ClientSocketMgr where
  stopped := false
  updateTimer := none
  clientSocket := none
  address := none
  bufferQueue := []
  ready := []
  retired := []
  accepted := []
  connects := []

/-! ### The timer -/

/-- `*_updateTimer`. -/
def timer (m : ClientSocketMgr) : Except Fault DeadlineTimer :=
  match m.updateTimer with
  | some timer => .ok timer
  | none => .error (.nullPointer "_updateTimer")

/-- `_updateTimer->cancel()` completes the waits with `operation_aborted`. -/
def cancel (m : ClientSocketMgr) : Except Fault ClientSocketMgr := do
  let timer ← m.timer
  return { m with updateTimer := some ⟨[]⟩, ready := m.ready ++ timer.waiting }

/-- `_updateTimer->expires_from_now(milliseconds(1))` cancels the waits as well. -/
def expiresFromNow (m : ClientSocketMgr) : Except Fault ClientSocketMgr := m.cancel

/-- `_updateTimer->async_wait(handler)`. -/
def asyncWait (handler : TimerHandler) (m : ClientSocketMgr) : Except Fault ClientSocketMgr := do
  let timer ← m.timer
  return { m with updateTimer := some ⟨timer.waiting ++ [handler]⟩ }

/-! ### The functions -/

/-- `_clientSocket && _clientSocket->IsOpen()`. -/
def hasOpenSocket (m : ClientSocketMgr) : Bool := m.clientSocket.any (·.session.isOpen)

/-- `_clientSocket.reset()`. -/
def reset (m : ClientSocketMgr) : ClientSocketMgr :=
  { m with
    clientSocket := none
    retired := m.retired ++ m.clientSocket.toList.map ClientSocket.letGo }

def disconnect (m : ClientSocketMgr) : Except Fault ClientSocketMgr := do
  let m := { m with stopped := true }
  let m ← m.cancel
  return { m with clientSocket := m.clientSocket.map ClientSocket.closeIfOpen }.reset

/-- `ConnectToServer`, up to the wait.  The rest of it is `connect`. -/
def connectToServer (reconnectCount : UInt32) (m : ClientSocketMgr) :
    Except Fault ClientSocketMgr := do
  let m ← m.cancel
  let m ← m.expiresFromNow
  m.asyncWait (.connect reconnectCount)

def sendPacket (m : ClientSocketMgr) (packet : DiscordPacket) : ClientSocketMgr :=
  match m.clientSocket with
  | none => m
  | some c =>
    { m with clientSocket := some { c with session := c.session.addPacketToQueue packet } }

/-- The loop of `Update` that gives the queue to the socket. -/
def drain (arrivals : List (List DiscordPacket)) (m : ClientSocketMgr) : ClientSocketMgr :=
  let r := m.bufferQueue.whileNextWith sendPacket arrivals { m with bufferQueue := [] }
  { r.1 with accepted := r.1.accepted ++ r.2 }

def update (tick : Tick) (m : ClientSocketMgr) : Except Fault ClientSocketMgr :=
  if m.stopped then .ok m
  else do
    let m ← m.expiresFromNow
    let m ← m.asyncWait .update
    match m.clientSocket with
    | none => return m
    | some c =>
      let (session, result) := c.session.update tick.writeSome
      if !result then
        let m := { m with clientSocket := some { c with session := session.closeSocket } }
        m.reset.connectToServer 3
      else
        let m := { m with clientSocket := some { c with session := session } }
        if m.bufferQueue.isEmpty then return m
        else return m.drain tick.arrivals

/-- `Initialize`.  A timer that is replaced is destroyed, which completes its waits. -/
def initializeMgr (env : Env) (resolve : List UInt8 → Option IpAddress) (m : ClientSocketMgr) :
    Except Fault ClientSocketMgr :=
  if !env.config.serverEnable then .ok m
  else
    let waiting := m.updateTimer.elim [] (·.waiting)
    let m := { m with updateTimer := some ⟨[]⟩, ready := m.ready ++ waiting }
    match resolve env.config.serverHost with
    | none => .ok m
    | some address => { m with address := some address }.connectToServer 1

def addPacketToQueue (m : ClientSocketMgr) (packet : DiscordPacket) : ClientSocketMgr :=
  { m with bufferQueue := m.bufferQueue.addPacket packet, accepted := m.accepted ++ [packet] }

/-- The calls of `Disconnect` by the constructor of `ClientSocket`, for an incomplete
configuration.  `_clientSocket` is then still the former socket. -/
def constructSocket (env : Env) (m : ClientSocketMgr) : Except Fault ClientSocketMgr :=
  if (ClientSession.new env).disconnectCalled then m.disconnect else .ok m

/-- What the connect continuation does once it is connected. -/
def startSocket (env : Env) (m : ClientSocketMgr) : Except Fault ClientSocketMgr := do
  let m ← m.constructSocket env
  let clientSocket ← ClientSocket.begin env
  let m := { m.reset with clientSocket := some clientSocket }
  let m ← m.expiresFromNow
  m.asyncWait .update

/-- The loop of the connect continuation.  `connected i` tells whether the `i`-th attempt
succeeds; one that throws is followed by the next. -/
def connectLoop (env : Env) (address : IpAddress) :
    (connected : Nat → Bool) → Nat → ClientSocketMgr → Except Fault ClientSocketMgr
  | _, 0, m => m.disconnect
  | connected, n + 1, m => do
    let _ ← m.timer
    let m := { m with connects := m.connects ++ [⟨address, env.config.serverPort⟩] }
    if connected 0 then m.startSocket env
    else connectLoop env address (fun i => connected (i + 1)) n m

/-- The continuation of `ConnectToServer`. -/
def connect (env : Env) (connected : Nat → Bool) (reconnectCount : UInt32)
    (m : ClientSocketMgr) : Except Fault ClientSocketMgr :=
  if m.hasOpenSocket then .ok m
  else
    match m.address with
    | none => .ok m
    | some address => connectLoop env address connected reconnectCount.toNat m

/-! ### What can happen -/

/-- The socket of the manager, or the former socket with a number. -/
def socket? (m : ClientSocketMgr) : Option Nat → Option ClientSocket
  | none => m.clientSocket
  | some k => m.retired[k]?

def setSocket (m : ClientSocketMgr) (c : ClientSocket) : Option Nat → ClientSocketMgr
  | none => { m with clientSocket := some c }
  | some k => { m with retired := m.retired.set k c }

/-- An event of a socket.  When it called `Disconnect`, the part of that call which concerns
the socket is in `ClientSession.disconnectManager`. -/
def socketEvent (env : Env) (e : Endian) (which : Option Nat) (event : ClientSocket.Event)
    (m : ClientSocketMgr) : Except Fault ClientSocketMgr :=
  match m.socket? which with
  | none => .ok m
  | some c => do
    let c ← c.handle env e event
    if c.session.disconnectCalled then (m.setSocket c which).disconnect
    else .ok (m.setSocket c which)

/-- The timer expires. -/
def timerExpires (m : ClientSocketMgr) : ClientSocketMgr :=
  match m.updateTimer with
  | none => m
  | some timer => { m with updateTimer := some ⟨[]⟩, ready := m.ready ++ timer.waiting }

def runHandler (env : Env) (tick : Tick) (connected : Nat → Bool) (m : ClientSocketMgr) :
    TimerHandler → Except Fault ClientSocketMgr
  | .update => m.update tick
  | .connect reconnectCount => m.connect env connected reconnectCount

/-- The public functions, and what the `io_context` runs.  The readings of the clock are
those of the action. -/
inductive Act where
  | initializeMgr (resolve : List UInt8 → Option IpAddress)
  | connectToServer (reconnectCount : UInt32)
  | disconnect
  | update (tick : Tick)
  | addPacketToQueue (packet : DiscordPacket)
  | timerExpires
  /-- The `i`-th of the queued handlers. -/
  | runHandler (i : Nat) (clock : Nat → Int64) (tick : Tick) (connected : Nat → Bool)
  | socketEvent (which : Option Nat) (clock : Nat → Int64) (event : ClientSocket.Event)

/-- The first handler runs; the kernel takes every byte, and every connection succeeds. -/
def Act.runNext : Act :=
  .runHandler 0 Int64.ofNat ⟨fun _ => .accepted, []⟩ fun _ => true

/-- `Initialize` and what follows from it, up to the first socket. -/
def Act.connected : List Act :=
  [.initializeMgr fun _ => some 0x7F000001, .timerExpires, .runNext]

def step (env : Env) (e : Endian) (m : ClientSocketMgr) : Act → Except Fault ClientSocketMgr
  | .initializeMgr resolve => m.initializeMgr env resolve
  | .connectToServer reconnectCount => m.connectToServer reconnectCount
  | .disconnect => m.disconnect
  | .update tick => m.update tick
  | .addPacketToQueue packet => .ok (m.addPacketToQueue packet)
  | .timerExpires => .ok m.timerExpires
  | .runHandler i clock tick connected =>
    match m.ready[i]? with
    | none => .ok m
    | some handler =>
      { m with ready := m.ready.eraseIdx i }.runHandler { env with clock := clock } tick connected
        handler
  | .socketEvent which clock event => m.socketEvent { env with clock := clock } e which event

/-! ### What the functions do when they return -/

variable {env : Env} {e : Endian} {m t : ClientSocketMgr} {handler : TimerHandler}

/-- The timer with one wait, and the waits before it completed. -/
def rearmed (m : ClientSocketMgr) (timer : DeadlineTimer) (handler : TimerHandler) :
    ClientSocketMgr :=
  { m with updateTimer := some ⟨[handler]⟩, ready := m.ready ++ timer.waiting }

theorem timer_ok {timer : DeadlineTimer} (h : m.timer = .ok timer) :
    m.updateTimer = some timer := by
  rw [ClientSocketMgr.timer] at h
  split at h
  · rename_i ht
    cases h
    exact ht
  · cases h

theorem cancel_ok (h : m.cancel = .ok t) : ∃ timer, m.updateTimer = some timer ∧
    t = { m with updateTimer := some ⟨[]⟩, ready := m.ready ++ timer.waiting } := by
  obtain ⟨timer, ht, hr⟩ := bind_ok h
  cases hr
  exact ⟨timer, timer_ok ht, rfl⟩

theorem rearm_ok (h : (m.expiresFromNow >>= asyncWait handler) = .ok t) :
    ∃ timer, m.updateTimer = some timer ∧ t = m.rearmed timer handler := by
  obtain ⟨m₁, h₁, h⟩ := bind_ok h
  obtain ⟨timer, ht, rfl⟩ := cancel_ok h₁
  cases h
  exact ⟨timer, ht, rfl⟩

theorem connectToServer_ok {n : UInt32} (h : m.connectToServer n = .ok t) :
    ∃ timer, m.updateTimer = some timer ∧ t = m.rearmed timer (.connect n) := by
  obtain ⟨m₁, h₁, h⟩ := bind_ok h
  obtain ⟨timer, ht, rfl⟩ := cancel_ok h₁
  obtain ⟨timer', ht', rfl⟩ := rearm_ok h
  cases ht'
  exact ⟨timer, ht, by rw [rearmed, rearmed, List.append_nil]⟩

theorem disconnect_ok (h : m.disconnect = .ok t) : ∃ timer, m.updateTimer = some timer ∧
    t = { m with
      stopped := true
      updateTimer := some ⟨[]⟩
      ready := m.ready ++ timer.waiting
      clientSocket := none
      retired := m.retired ++ m.clientSocket.toList.map fun c => c.closeIfOpen.letGo } := by
  obtain ⟨m₁, h₁, h⟩ := bind_ok h
  obtain ⟨timer, ht, rfl⟩ := cancel_ok h₁
  cases h
  refine ⟨timer, ht, ?_⟩
  cases m.clientSocket <;> simp [reset]

theorem foldl_sendPacket (ps : List DiscordPacket) (c : ClientSocket)
    (h : m.clientSocket = some c) : ps.foldl sendPacket m =
      { m with clientSocket := some { c with session := { c.session with
        bufferQueue := c.session.bufferQueue ++ ps } } } := by
  induction ps generalizing m c with
  | nil =>
    rw [List.append_nil, ← h]
    rfl
  | cons p ps ih =>
    have hp : m.sendPacket p =
        { m with clientSocket := some { c with session := c.session.addPacketToQueue p } } := by
      rw [sendPacket, h]
    rw [List.foldl_cons, hp, ih _ rfl]
    dsimp only [ClientSession.addPacketToQueue, PacketQueue.addPacket]
    rw [List.append_assoc, List.singleton_append]

/-- The packets of the queue go to the socket, those that arrive meanwhile included. -/
theorem drain_eq (arrivals : List (List DiscordPacket)) {c : ClientSocket}
    (h : m.clientSocket = some c) : ∃ arrived, m.drain arrivals =
      { m with
        clientSocket := some { c with session := { c.session with
          bufferQueue := c.session.bufferQueue ++ (m.bufferQueue ++ arrived) } }
        bufferQueue := []
        accepted := m.accepted ++ arrived } := by
  refine ⟨(m.bufferQueue.whileNextWith sendPacket arrivals { m with bufferQueue := [] }).2, ?_⟩
  unfold drain
  dsimp only
  rw [PacketQueue.whileNextWith_eq, PacketQueue.whileNext_eq_foldl,
    foldl_sendPacket (m := { m with bufferQueue := [] }) _ c h]

/-- **What `Update` does.**  Nothing once stopped.  Else it waits again; then it lets go of a
socket that is closed and connects anew, or gives the queue to a socket that is open. -/
theorem update_cases {tick : Tick} (h : m.update tick = .ok t) :
    (m.stopped = true ∧ t = m) ∨
    m.stopped = false ∧ ∃ timer, m.updateTimer = some timer ∧
      ((m.clientSocket = none ∧ t = m.rearmed timer .update) ∨
      (∃ c, m.clientSocket = some c ∧ c.session.socket.closed = true ∧
        t = { m with
          updateTimer := some ⟨[.connect 3]⟩
          ready := m.ready ++ timer.waiting ++ [.update]
          clientSocket := none
          retired := m.retired ++
            [{ c with session := (c.session.update tick.writeSome).1.closeSocket }.letGo] }) ∨
      (∃ c arrived, m.clientSocket = some c ∧ c.session.socket.closed = false ∧
        t = { m.rearmed timer .update with
          clientSocket := some { c with session := { (c.session.update tick.writeSome).1 with
            bufferQueue := (c.session.update tick.writeSome).1.bufferQueue ++
              (m.bufferQueue ++ arrived) } }
          bufferQueue := []
          accepted := m.accepted ++ arrived })) := by
  rw [update] at h
  by_cases hs : m.stopped = true
  · rw [if_pos hs] at h
    cases h
    exact .inl ⟨hs, rfl⟩
  · rw [if_neg hs] at h
    obtain ⟨m₁, h₁, h⟩ := bind_ok h
    obtain ⟨m₂, h₂, h⟩ := bind_ok h
    obtain ⟨timer, ht, hm₂⟩ := rearm_ok (m := m) (t := m₂) (by rw [h₁]; exact h₂)
    have hcs : m₂.clientSocket = m.clientSocket := by rw [hm₂]; rfl
    refine .inr ⟨by simpa using hs, timer, ht, ?_⟩
    rw [hcs] at h
    cases hc : m.clientSocket with
    | none =>
      rw [hc] at h
      cases h
      exact .inl ⟨rfl, hm₂⟩
    | some c =>
      rw [hc] at h
      dsimp only at h
      rw [ClientSession.update_snd] at h
      cases hclosed : c.session.socket.closed with
      | true =>
        rw [hclosed] at h
        obtain ⟨timer', ht', rfl⟩ := connectToServer_ok h
        subst hm₂
        cases ht'
        exact .inr (.inl ⟨c, rfl, hclosed, rfl⟩)
      | false =>
        rw [hclosed] at h
        subst hm₂
        refine .inr (.inr ?_)
        rw [Bool.not_false, Bool.not_true, if_neg (by decide)] at h
        split at h
        · rename_i he
          have hq : m.bufferQueue = [] := List.isEmpty_iff.mp he
          cases h
          refine ⟨c, [], rfl, hclosed, ?_⟩
          rw [hq, List.append_nil, List.append_nil, List.append_nil, ← hq]
          rfl
        · cases h
          obtain ⟨arrived, hd⟩ := drain_eq tick.arrivals
            (m := { m.rearmed timer .update with
              clientSocket := some { c with session := (c.session.update tick.writeSome).1 } }) rfl
          exact ⟨c, arrived, rfl, hclosed, hd⟩

theorem initializeMgr_cases {resolve : List UInt8 → Option IpAddress}
    (h : m.initializeMgr env resolve = .ok t) :
    (env.config.serverEnable = false ∧ t = m) ∨
    env.config.serverEnable = true ∧ ∃ m₁, m₁ = { m with
        updateTimer := some ⟨[]⟩
        ready := m.ready ++ m.updateTimer.elim [] (·.waiting) } ∧
      ((resolve env.config.serverHost = none ∧ t = m₁) ∨
      ∃ address, resolve env.config.serverHost = some address ∧
        t = { m₁ with address := some address }.rearmed ⟨[]⟩ (.connect 1)) := by
  rw [initializeMgr] at h
  cases he : env.config.serverEnable with
  | false =>
    rw [he] at h
    cases h
    exact .inl ⟨rfl, rfl⟩
  | true =>
    rw [he, if_neg (by decide)] at h
    refine .inr ⟨rfl, _, rfl, ?_⟩
    cases hr : resolve env.config.serverHost with
    | none =>
      rw [hr] at h
      cases h
      exact .inl ⟨rfl, rfl⟩
    | some address =>
      rw [hr] at h
      obtain ⟨timer, ht, rfl⟩ := connectToServer_ok h
      cases ht
      exact .inr ⟨address, rfl, rfl⟩

/-- A new socket takes the place of the former one, which `Disconnect` has taken away already
when the configuration is incomplete. -/
theorem startSocket_ok (h : m.startSocket env = .ok t) :
    ∃ m₁ c timer, (m₁ = m ∨ m.disconnect = .ok m₁) ∧ ClientSocket.begin env = .ok c ∧
      m₁.updateTimer = some timer ∧
      t = { m₁.reset with clientSocket := some c }.rearmed timer .update := by
  obtain ⟨m₁, h₁, h⟩ := bind_ok h
  obtain ⟨c, hc, h⟩ := bind_ok h
  obtain ⟨timer, ht, rfl⟩ := rearm_ok h
  refine ⟨m₁, c, timer, ?_, hc, ht, rfl⟩
  rw [constructSocket] at h₁
  split at h₁
  · exact .inr h₁
  · cases h₁
    exact .inl rfl

theorem connectLoop_cases {address : IpAddress} : ∀ (n : Nat) (connected : Nat → Bool)
    (m : ClientSocketMgr), connectLoop env address connected n m = .ok t →
    ∃ connects, { m with connects := m.connects ++ connects }.disconnect = .ok t ∨
      { m with connects := m.connects ++ connects }.startSocket env = .ok t := by
  intro n
  induction n with
  | zero =>
    intro connected m h
    exact ⟨[], .inl (by rw [List.append_nil]; exact h)⟩
  | succ n ih =>
    intro connected m h
    obtain ⟨timer, -, h⟩ := bind_ok h
    dsimp only at h
    split at h
    · exact ⟨_, .inr h⟩
    · obtain ⟨connects, hc⟩ := ih _ _ h
      rw [List.append_assoc] at hc
      exact ⟨_, hc⟩

/-- **What the connect continuation does.**  Nothing when there is an open socket or no
address.  Else it makes a new socket or, when no attempt succeeds, gives up for good. -/
theorem connect_cases {connected : Nat → Bool} {n : UInt32}
    (h : m.connect env connected n = .ok t) :
    (m.hasOpenSocket = true ∨ m.address = none) ∧ t = m ∨
    m.hasOpenSocket = false ∧ m.address ≠ none ∧ ∃ connects,
      ({ m with connects := m.connects ++ connects }.disconnect = .ok t ∨
        { m with connects := m.connects ++ connects }.startSocket env = .ok t) := by
  rw [connect] at h
  cases ho : m.hasOpenSocket with
  | true =>
    rw [ho] at h
    cases h
    exact .inl ⟨.inl rfl, rfl⟩
  | false =>
    rw [ho, if_neg (by decide)] at h
    split at h
    · rename_i ha
      cases h
      exact .inl ⟨.inr ha, rfl⟩
    · rename_i ha
      exact .inr ⟨rfl, by rw [ha]; simp, connectLoop_cases _ _ _ h⟩

theorem socketEvent_cases {which : Option Nat} {event : ClientSocket.Event}
    (h : m.socketEvent env e which event = .ok t) :
    (m.socket? which = none ∧ t = m) ∨
    ∃ c d, m.socket? which = some c ∧ c.handle env e event = .ok d ∧
      ((m.setSocket d which).disconnect = .ok t ∨ t = m.setSocket d which) := by
  rw [socketEvent] at h
  cases hs : m.socket? which with
  | none =>
    rw [hs] at h
    cases h
    exact .inl ⟨rfl, rfl⟩
  | some c =>
    rw [hs] at h
    obtain ⟨d, hd, h⟩ := bind_ok h
    refine .inr ⟨c, d, rfl, hd, ?_⟩
    split at h
    · exact .inl h
    · cases h
      exact .inr rfl

/-! ### The stop -/

theorem startSocket_stopped (h : m.startSocket env = .ok t) (hs : m.stopped = true) :
    t.stopped = true := by
  obtain ⟨m₁, c, timer, hm, -, -, rfl⟩ := startSocket_ok h
  rcases hm with rfl | hd
  · exact hs
  · obtain ⟨timer, -, rfl⟩ := disconnect_ok hd
    rfl

theorem update_stopped {tick : Tick} (h : m.update tick = .ok t) (hs : m.stopped = true) :
    t.stopped = true := by
  rcases update_cases h with ⟨-, rfl⟩ | ⟨hn, -⟩
  · exact hs
  · rw [hs] at hn
    cases hn

theorem connect_stopped {connected : Nat → Bool} {n : UInt32}
    (h : m.connect env connected n = .ok t) (hs : m.stopped = true) : t.stopped = true := by
  rcases connect_cases h with ⟨-, rfl⟩ | ⟨-, -, connects, hd | hst⟩
  · exact hs
  · obtain ⟨timer, -, rfl⟩ := disconnect_ok hd
    rfl
  · exact startSocket_stopped hst hs

/-- **Nothing takes a stop back.** -/
theorem step_stopped {a : Act} (h : m.step env e a = .ok t) (hs : m.stopped = true) :
    t.stopped = true := by
  cases a with
  | initializeMgr resolve =>
    rcases initializeMgr_cases h with ⟨-, rfl⟩ | ⟨-, m₁, rfl, ⟨-, rfl⟩ | ⟨address, -, rfl⟩⟩ <;>
      exact hs
  | connectToServer n =>
    obtain ⟨timer, -, rfl⟩ := connectToServer_ok h
    exact hs
  | disconnect =>
    obtain ⟨timer, -, rfl⟩ := disconnect_ok h
    rfl
  | update tick => exact update_stopped h hs
  | addPacketToQueue p => cases h; exact hs
  | timerExpires =>
    cases h
    rw [timerExpires]
    split <;> exact hs
  | runHandler i clock tick connected =>
    rw [step] at h
    split at h
    · cases h
      exact hs
    · rename_i handler hi
      cases handler with
      | update => exact update_stopped h hs
      | connect n => exact connect_stopped h hs
  | socketEvent which clock event =>
    rcases socketEvent_cases h with ⟨-, rfl⟩ | ⟨c, d, -, -, hd | rfl⟩
    · exact hs
    · obtain ⟨timer, -, rfl⟩ := disconnect_ok hd
      rfl
    · cases which <;> exact hs

end ClientSocketMgr

end WarheadDiscord
