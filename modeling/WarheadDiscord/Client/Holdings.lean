import WarheadDiscord.Client.ClientSocketMgr

/-!
# What the manager holds

The sockets and the packets of the manager, without the timer and what waits on it.
From here a step is one of few things: it works with the socket it has (`Works`), or
it parts with the socket, if there is one, and perhaps starts another (`Parts`,
`Starts`).

* `Drops`: the steps that part with a socket and do not stop.
* `step_effect`: **what a step can do** to the holdings.
* `Kept`, `step_kept`: what every socket keeps, whatever the manager does with it.
-/

namespace WarheadDiscord

open Lib

/-- `_clientSocket->CloseSocket()`. -/
def ClientSocket.close (c : ClientSocket) : ClientSocket :=
  { c with session := c.session.closeSocket }

structure Holdings where
  retired : List ClientSocket
  clientSocket : Option ClientSocket
  bufferQueue : PacketQueue DiscordPacket
  accepted : List DiscordPacket

namespace Holdings

/-- All the sockets that there were, in order. -/
def sockets (h : Holdings) : List ClientSocket := h.retired ++ h.clientSocket.toList

/-- An event of one of the sockets, or none. -/
inductive Event (e : Endian) (h : Holdings) : Holdings → Prop
  | none : Event e h h
  | current {env : Env} {event : ClientSocket.Event} {c d : ClientSocket} :
      h.clientSocket = some c → c.handle env e event = .ok d →
      Event e h { h with clientSocket := some d }
  | former {env : Env} {event : ClientSocket.Event} {k : Nat} {c d : ClientSocket} :
      h.retired[k]? = some c → c.handle env e event = .ok d →
      Event e h { h with retired := h.retired.set k d }

/-- What happens while the socket stays. -/
inductive Works (e : Endian) (h : Holdings) : Holdings → Prop
  | event {h' : Holdings} : Event e h h' → Works e h h'
  | accept (packet : DiscordPacket) :
      Works e h { h with
        bufferQueue := h.bufferQueue ++ [packet], accepted := h.accepted ++ [packet] }
  | tick {c : ClientSocket} (w : Nat → Nat → WriteResult) (arrived : List DiscordPacket) :
      h.clientSocket = some c → c.session.socket.closed = false →
      Works e h { h with
        clientSocket := some { c with session := { (c.session.update w).1 with
          bufferQueue := (c.session.update w).1.bufferQueue ++ (h.bufferQueue ++ arrived) } }
        bufferQueue := []
        accepted := h.accepted ++ arrived }

/-- The socket is closed and let go, with a last tick if it was closed before. -/
inductive Parts (h : Holdings) : Holdings → Prop
  | none : h.clientSocket = none → Parts h h
  | plain {c : ClientSocket} : h.clientSocket = some c →
      Parts h { h with clientSocket := .none, retired := h.retired ++ [c.close.letGo] }
  | tick {c : ClientSocket} (w : Nat → Nat → WriteResult) :
      h.clientSocket = some c → c.session.socket.closed = true →
      Parts h { h with
        clientSocket := .none
        retired := h.retired ++ [ClientSocket.close ⟨c.read, (c.session.update w).1⟩ |>.letGo] }

/-- A new socket. -/
def Starts (h h' : Holdings) : Prop :=
  h.clientSocket = none ∧ ∃ env c, ClientSocket.begin env = .ok c ∧
    h' = { h with clientSocket := some c }

end Holdings

namespace ClientSocketMgr

variable {env : Env} {e : Endian} {m t : ClientSocketMgr}

def holdings (m : ClientSocketMgr) : Holdings :=
  ⟨m.retired, m.clientSocket, m.bufferQueue, m.accepted⟩

/-- The socket of the manager is closed. -/
def socketClosed (m : ClientSocketMgr) : Bool := m.clientSocket.any (·.session.socket.closed)

/-- The steps that part with the socket, unless they end in `Disconnect`: a tick that finds it
closed, and a connect continuation that goes on to connect. -/
def Drops (m : ClientSocketMgr) : Act → Bool
  | .update _ => !m.stopped && m.socketClosed
  | .runHandler i _ _ _ =>
    match m.ready[i]? with
    | some .update => !m.stopped && m.socketClosed
    | some (.connect _) => !m.hasOpenSocket && m.address.isSome
    | none => false
  | _ => false

end ClientSocketMgr

/-! ### What a step can do -/

namespace ClientSocket

variable {env : Env} {e : Endian} {c d : ClientSocket}

theorem close_of_closed (h : c.session.socket.closed = true) : c.close = c := by
  rw [close, ClientSession.closeSocket, Socket.closeSocket, if_pos h]

theorem closeIfOpen_eq (h : c.session.Inv) : c.closeIfOpen = c.close := by
  rw [closeIfOpen, h.isOpen_eq]
  cases hc : c.session.socket.closed with
  | true => exact (close_of_closed hc).symm
  | false => rfl

@[simp] theorem close_closed (c : ClientSocket) : c.close.session.socket.closed = true :=
  ClientSession.closeSocket_closed _

theorem Inv.unflag (h : Inv e c) :
    Inv e { c with session := { c.session with disconnectCalled := false } } :=
  ⟨⟨h.session.closing, h.session.held⟩, h.waits, h.asks⟩

theorem handle_inv {event : Event} (h : Inv e c) (hd : c.handle env e event = .ok d) :
    Inv e d :=
  step_inv h.unflag hd

theorem handle_received {event : Event} (h : Inv e c) (hd : c.handle env e event = .ok d) :
    ClientSession.Received c.session d.session :=
  ClientSession.Received.trans (t := { c.session with disconnectCalled := false })
    (.of_eq rfl rfl id) (step_received event h.unflag hd)

end ClientSocket

namespace ClientSocketMgr

variable {env : Env} {e : Endian} {m t : ClientSocketMgr}

theorem disconnect_parts (hi : ∀ c, m.clientSocket = some c → ClientSocket.Inv e c)
    (h : m.disconnect = .ok t) : t.stopped = true ∧ Holdings.Parts m.holdings t.holdings := by
  obtain ⟨timer, -, rfl⟩ := disconnect_ok h
  refine ⟨rfl, ?_⟩
  cases hc : m.clientSocket with
  | none =>
    rw [holdings, holdings]
    dsimp only
    rw [hc, Option.toList_none, List.map_nil, List.append_nil]
    exact .none rfl
  | some c =>
    rw [holdings, holdings]
    dsimp only
    rw [hc, Option.toList_some, List.map_singleton,
      ClientSocket.closeIfOpen_eq (hi c hc).session]
    exact .plain rfl

theorem startSocket_parts (hi : ∀ c, m.clientSocket = some c → ClientSocket.Inv e c)
    (ho : m.hasOpenSocket = false) (h : m.startSocket env = .ok t) :
    ∃ h', Holdings.Parts m.holdings h' ∧ Holdings.Starts h' t.holdings := by
  obtain ⟨m₁, c, timer, hm, hc, -, rfl⟩ := startSocket_ok h
  refine ⟨m₁.reset.holdings, ?_, rfl, env, c, hc, rfl⟩
  rcases hm with rfl | hd
  · rw [reset, holdings, holdings]
    dsimp only
    cases hs : m₁.clientSocket with
    | none =>
      rw [Option.toList_none, List.map_nil, List.append_nil]
      exact .none rfl
    | some s =>
      have hclosed : s.session.socket.closed = true := by
        rw [hasOpenSocket, hs, Option.any_some, (hi s hs).session.isOpen_eq] at ho
        simpa using ho
      rw [Option.toList_some, List.map_singleton, ← ClientSocket.close_of_closed hclosed]
      exact .plain (by rw [ClientSocket.close_of_closed hclosed])
  · have hp := (disconnect_parts hi hd).2
    obtain ⟨timer, -, rfl⟩ := disconnect_ok hd
    rw [reset, holdings]
    dsimp only
    rw [Option.toList_none, List.map_nil, List.append_nil]
    exact hp

theorem update_effect {tick : Tick} (h : m.update tick = .ok t) :
    (!m.stopped && m.socketClosed) = false ∧ Holdings.Works e m.holdings t.holdings ∨
    (!m.stopped && m.socketClosed) = true ∧ Holdings.Parts m.holdings t.holdings := by
  rcases update_cases h with ⟨hs, rfl⟩ | ⟨hs, timer, -, hcases⟩
  · exact .inl ⟨by rw [hs]; rfl, .event .none⟩
  · rw [hs, socketClosed]
    rcases hcases with ⟨hn, rfl⟩ | ⟨c, hc, hclosed, rfl⟩ | ⟨c, arrived, hc, hopen, rfl⟩
    · exact .inl ⟨by rw [hn]; rfl, .event .none⟩
    · exact .inr ⟨by rw [hc, Option.any_some, hclosed]; rfl, .tick tick.writeSome hc hclosed⟩
    · exact .inl ⟨by rw [hc, Option.any_some, hopen]; rfl,
        .tick tick.writeSome arrived hc hopen⟩

theorem connect_effect {connected : Nat → Bool} {n : UInt32}
    (hi : ∀ c, m.clientSocket = some c → ClientSocket.Inv e c)
    (h : m.connect env connected n = .ok t) :
    (!m.hasOpenSocket && m.address.isSome) = false ∧ t = m ∨
    (!m.hasOpenSocket && m.address.isSome) = true ∧ ∃ h', Holdings.Parts m.holdings h' ∧
      (t.holdings = h' ∨ Holdings.Starts h' t.holdings) := by
  rcases connect_cases h with ⟨ho | ha, rfl⟩ | ⟨ho, ha, connects, hd | hs⟩
  · exact .inl ⟨by rw [ho]; rfl, rfl⟩
  · exact .inl ⟨by rw [ha, Option.isSome_none, Bool.and_false], rfl⟩
  · refine .inr ⟨by rw [ho, Option.isSome_iff_ne_none.mpr ha]; rfl, _, ?_, .inl rfl⟩
    exact (disconnect_parts (m := { m with connects := m.connects ++ connects }) hi hd).2
  · refine .inr ⟨by rw [ho, Option.isSome_iff_ne_none.mpr ha]; rfl, ?_⟩
    obtain ⟨h', hp, hst⟩ :=
      startSocket_parts (m := { m with connects := m.connects ++ connects }) hi ho hs
    exact ⟨h', hp, .inr hst⟩

theorem setSocket_event {which : Option Nat} {event : ClientSocket.Event} {c d : ClientSocket}
    (hc : m.socket? which = some c) (hd : c.handle env e event = .ok d) :
    Holdings.Event e m.holdings (m.setSocket d which).holdings := by
  cases which with
  | none => exact .current hc hd
  | some k => exact .former hc hd

/-- **What a step can do.**  It works with the socket, or it parts with it after a last
event.  The latter only when it is one that drops or when it stops. -/
theorem step_effect {a : Act} (hi : ∀ c, m.clientSocket = some c → ClientSocket.Inv e c)
    (h : m.step env e a = .ok t) :
    m.Drops a = false ∧ Holdings.Works e m.holdings t.holdings ∨
    (m.Drops a = true ∨ t.stopped = true) ∧ ∃ h₁ h₂, Holdings.Event e m.holdings h₁ ∧
      Holdings.Parts h₁ h₂ ∧ (t.holdings = h₂ ∨ Holdings.Starts h₂ t.holdings) := by
  cases a with
  | initializeMgr resolve =>
    refine .inl ⟨rfl, ?_⟩
    rcases initializeMgr_cases h with ⟨-, rfl⟩ | ⟨-, m₁, rfl, ⟨-, rfl⟩ | ⟨address, -, rfl⟩⟩ <;>
      exact .event .none
  | connectToServer n =>
    obtain ⟨timer, -, rfl⟩ := connectToServer_ok h
    exact .inl ⟨rfl, .event .none⟩
  | disconnect =>
    obtain ⟨hs, hp⟩ := disconnect_parts hi h
    exact .inr ⟨.inr hs, _, _, .none, hp, .inl rfl⟩
  | update tick =>
    rcases update_effect h with ⟨hd, hw⟩ | ⟨hd, hp⟩
    · exact .inl ⟨hd, hw⟩
    · exact .inr ⟨.inl hd, _, _, .none, hp, .inl rfl⟩
  | addPacketToQueue p =>
    cases h
    exact .inl ⟨rfl, .accept p⟩
  | timerExpires =>
    cases h
    refine .inl ⟨rfl, ?_⟩
    rw [timerExpires]
    split <;> exact .event .none
  | runHandler i clock tick connected =>
    rw [step] at h
    rw [Drops]
    cases hr : m.ready[i]? with
    | none =>
      rw [hr] at h
      cases h
      exact .inl ⟨rfl, .event .none⟩
    | some handler =>
      rw [hr] at h
      cases handler with
      | update =>
        rcases update_effect h with ⟨hd, hw⟩ | ⟨hd, hp⟩
        · exact .inl ⟨hd, hw⟩
        · exact .inr ⟨.inl hd, _, _, .none, hp, .inl rfl⟩
      | connect n =>
        rcases connect_effect (m := { m with ready := m.ready.eraseIdx i }) hi h with
          ⟨hd, rfl⟩ | ⟨hd, h', hp, hst⟩
        · exact .inl ⟨hd, .event .none⟩
        · exact .inr ⟨.inl hd, _, h', .none, hp, hst⟩
  | socketEvent which clock event =>
    rcases socketEvent_cases h with ⟨-, rfl⟩ | ⟨c, d, hc, hd, hstop | rfl⟩
    · exact .inl ⟨rfl, .event .none⟩
    · have hi' : ∀ c, (m.setSocket d which).clientSocket = some c → ClientSocket.Inv e c := by
        intro c' hc'
        cases which with
        | none =>
          cases hc'
          exact ClientSocket.handle_inv (hi c hc) hd
        | some k => exact hi c' hc'
      obtain ⟨hs, hp⟩ := disconnect_parts hi' hstop
      exact .inr ⟨.inr hs, _, _, setSocket_event hc hd, hp, .inl rfl⟩
    · exact .inl ⟨rfl, .event (setSocket_event hc hd)⟩

end ClientSocketMgr

/-! ### What every socket keeps -/

/-- A property of sockets that no manager breaks: it holds at the start, every action keeps
it, and so does letting go of a closed socket. -/
structure Kept (e : Endian) (P : ClientSocket → Prop) : Prop where
  inv : ∀ {c}, P c → ClientSocket.Inv e c
  start : ∀ {env c}, ClientSocket.begin env = .ok c → P c
  step : ∀ env {c d a}, P c → ClientSocket.step env e c a = .ok d → P d
  unflag : ∀ {c}, P c → P { c with session := { c.session with disconnectCalled := false } }
  letGo : ∀ {c}, P c → c.session.socket.closed = true → P c.letGo

namespace Kept

variable {env : Env} {e : Endian} {P : ClientSocket → Prop} {c d : ClientSocket} {h h' : Holdings}

theorem update (hP : Kept e P) (hc : P c) (w : Nat → Nat → WriteResult) :
    P { c with session := (c.session.update w).1 } :=
  hP.step .sample (a := .update w) hc rfl

theorem close (hP : Kept e P) (hc : P c) : P c.close :=
  hP.step .sample (a := .closeSocket) hc rfl

theorem enqueue (hP : Kept e P) (ps : List DiscordPacket) (hc : P c) :
    P { c with session := { c.session with bufferQueue := c.session.bufferQueue ++ ps } } := by
  induction ps generalizing c with
  | nil => rw [List.append_nil]; exact hc
  | cons p ps ih =>
    have hp := ih (hP.step .sample (a := .addPacketToQueue p) hc rfl)
    dsimp only [ClientSession.addPacketToQueue, PacketQueue.addPacket] at hp
    rw [List.append_assoc, List.singleton_append] at hp
    exact hp

theorem event (hP : Kept e P) (hall : ∀ c ∈ h.sockets, P c) (he : Holdings.Event e h h') :
    ∀ c ∈ h'.sockets, P c := by
  have hstep : ∀ {env : Env} {event : ClientSocket.Event} {c d : ClientSocket}, P c →
      c.handle env e event = .ok d → P d := fun hc hd => hP.step _ (hP.unflag hc) hd
  intro x hx
  cases he with
  | none => exact hall x hx
  | current hc hd =>
    rcases List.mem_append.mp hx with hx | hx
    · exact hall x (List.mem_append_left _ hx)
    · obtain rfl := List.mem_singleton.mp hx
      refine hstep (hall _ (List.mem_append_right _ ?_)) hd
      rw [hc]
      exact List.mem_singleton_self _
  | former hc hd =>
    rcases List.mem_append.mp hx with hx | hx
    · rcases List.mem_or_eq_of_mem_set hx with hx | rfl
      · exact hall x (List.mem_append_left _ hx)
      · exact hstep (hall _ (List.mem_append_left _ (List.mem_of_getElem? hc))) hd
    · exact hall x (List.mem_append_right _ hx)

theorem works (hP : Kept e P) (hall : ∀ c ∈ h.sockets, P c) (hw : Holdings.Works e h h') :
    ∀ c ∈ h'.sockets, P c := by
  cases hw with
  | event he => exact hP.event hall he
  | accept p => exact hall
  | tick w arrived hc hopen =>
    intro x hx
    rcases List.mem_append.mp hx with hx | hx
    · exact hall x (List.mem_append_left _ hx)
    · obtain rfl := List.mem_singleton.mp hx
      refine hP.enqueue _ (hP.update (hall _ (List.mem_append_right _ ?_)) w)
      rw [hc]
      exact List.mem_singleton_self _

theorem parts (hP : Kept e P) (hall : ∀ c ∈ h.sockets, P c) (hp : Holdings.Parts h h') :
    ∀ c ∈ h'.sockets, P c := by
  have hcur : ∀ c, h.clientSocket = some c → P c := by
    intro c hc
    refine hall c (List.mem_append_right _ ?_)
    rw [hc]
    exact List.mem_singleton_self _
  intro x hx
  cases hp with
  | none _ => exact hall x hx
  | plain hc =>
    rw [Holdings.sockets, Option.toList_none, List.append_nil] at hx
    rcases List.mem_append.mp hx with hx | hx
    · exact hall x (List.mem_append_left _ hx)
    · obtain rfl := List.mem_singleton.mp hx
      exact hP.letGo (hP.close (hcur _ hc)) (ClientSocket.close_closed _)
  | tick w hc hclosed =>
    rw [Holdings.sockets, Option.toList_none, List.append_nil] at hx
    rcases List.mem_append.mp hx with hx | hx
    · exact hall x (List.mem_append_left _ hx)
    · obtain rfl := List.mem_singleton.mp hx
      exact hP.letGo (hP.close (hP.update (hcur _ hc) w)) (ClientSocket.close_closed _)

theorem starts (hP : Kept e P) (hall : ∀ c ∈ h.sockets, P c) (hs : Holdings.Starts h h') :
    ∀ c ∈ h'.sockets, P c := by
  obtain ⟨-, env, c, hc, rfl⟩ := hs
  intro x hx
  rcases List.mem_append.mp hx with hx | hx
  · exact hall x (List.mem_append_left _ hx)
  · obtain rfl := List.mem_singleton.mp hx
    exact hP.start hc

end Kept

namespace ClientSocketMgr

variable {env : Env} {e : Endian} {m t : ClientSocketMgr} {P : ClientSocket → Prop}

theorem mem_sockets {c : ClientSocket} (h : m.clientSocket = some c) : c ∈ m.holdings.sockets := by
  refine List.mem_append_right _ ?_
  rw [holdings, h]
  exact List.mem_singleton_self _

/-- **Every socket keeps what no action of a socket breaks.** -/
theorem step_kept {a : Act} (hP : Kept e P) (hall : ∀ c ∈ m.holdings.sockets, P c)
    (h : m.step env e a = .ok t) : ∀ c ∈ t.holdings.sockets, P c := by
  rcases step_effect (fun c hc => hP.inv (hall c (mem_sockets hc))) h with
    ⟨-, hw⟩ | ⟨-, h₁, h₂, he, hp, hs⟩
  · exact hP.works hall hw
  · have hall₂ := hP.parts (hP.event hall he) hp
    rcases hs with hs | hs
    · rw [hs]
      exact hall₂
    · exact hP.starts hall₂ hs

theorem run_kept {acts : List Act} (hP : Kept e P) (h : run (step env e) new acts = .ok m) :
    ∀ c ∈ m.holdings.sockets, P c :=
  run_invariant (I := fun m => ∀ c ∈ m.holdings.sockets, P c) (fun _ _ _ hall hs =>
    step_kept hP hall hs) acts new m (fun _ hx => absurd hx List.not_mem_nil) h

end ClientSocketMgr

end WarheadDiscord
