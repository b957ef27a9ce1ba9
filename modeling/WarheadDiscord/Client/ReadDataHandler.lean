import WarheadDiscord.Client.SendPacket

/-!
# What a received frame does to the session

`Reaction` is what `ReadDataHandler` makes of a frame.  It depends on the frame and
on whether the session is authenticated, and on nothing else (`reaction`);
`readDataHandler_eq` is the statement that the code does this, with every state that
it leaves behind.

Six things can happen.  A frame is answered (`accepts`, `pongs`), it ends the session
(`refuses`, `disconnects`), it makes the handler throw, or it is the rejection of the
login: then the manager is told to disconnect, and yet the result is `Ok`.
-/

namespace WarheadDiscord

open Lib

inductive Reaction where
  /-- The payload is too short, or the response code has no name. -/
  | throws (fault : Fault)
  /-- Not a message for a client. -/
  | refuses
  /-- A message that the state of the session does not allow. -/
  | disconnects
  /-- A response to the login other than `Ok`. -/
  | rejects
  /-- The response `Ok`. -/
  | accepts
  /-- A `SERVER_SEND_PONG`. -/
  | pongs
  deriving DecidableEq, Repr

/-- What `ReadDataHandler` makes of a frame. -/
def reaction (authed : Bool) (f : Frame) : Reaction :=
  match DiscordCode.ofValue f.opcode with
  | some .serverSendAuthResponse =>
    if authed then .disconnects
    else
      match f.payload with
      | [] => .throws (.byteBufferPosition false 0 1 0)
      | code :: _ =>
        if 8 < code.toNat then .throws (.outOfRange "value")
        else if code = 0 then .accepts
        else .rejects
  | some .serverSendPong =>
    if !authed then .disconnects
    else if f.payload.length < 8 then .throws (.byteBufferPosition false 0 8 f.payload.length)
    else .pongs
  | _ => .refuses

theorem reaction_true_ne_accepts (f : Frame) : reaction true f ≠ .accepts := by
  unfold reaction
  split
  · rw [if_pos rfl]; nofun
  · rw [if_neg (by decide)]
    split <;> nofun
  · nofun

/-! ### The same, said of the bytes -/

namespace Frame

/-- The frame gets past the switch, to one of the two handlers. -/
def handled (authed : Bool) (f : Frame) : Bool :=
  match DiscordCode.ofValue f.opcode with
  | some .serverSendAuthResponse => !authed
  | some .serverSendPong => authed
  | _ => false

/-- The payload is one that the handler of the opcode can read. -/
def wellFormed (f : Frame) : Bool :=
  match DiscordCode.ofValue f.opcode with
  | some .serverSendAuthResponse =>
    match f.payload with
    | [] => false
    | code :: _ => code.toNat ≤ 8
  | some .serverSendPong => 8 ≤ f.payload.length
  | _ => true

/-- A response to the login with the code `Ok`. -/
def isAcceptance (f : Frame) : Bool :=
  DiscordCode.ofValue f.opcode == some .serverSendAuthResponse && f.payload.head? == some 0

/-- A response to the login with another code. -/
def isRejection (f : Frame) : Bool :=
  DiscordCode.ofValue f.opcode == some .serverSendAuthResponse && f.payload.head? != some 0

end Frame

variable {authed : Bool} {f : Frame}

theorem reaction_of_not_handled (h : f.handled authed = false) :
    reaction authed f = .refuses ∨ reaction authed f = .disconnects := by
  rw [Frame.handled] at h
  rw [reaction]
  generalize DiscordCode.ofValue f.opcode = code at h ⊢
  rcases code with _ | c
  · exact .inl rfl
  · cases c with
    | serverSendAuthResponse =>
      dsimp only at h ⊢
      rw [if_pos (by simpa using h)]
      exact .inr rfl
    | serverSendPong =>
      dsimp only at h ⊢
      rw [if_pos (by simpa using h)]
      exact .inr rfl
    | _ => exact .inl rfl

/-- **A frame that a handler cannot read makes it throw**, -/
theorem reaction_of_not_wellFormed (h : f.handled authed = true) (hw : f.wellFormed = false) :
    ∃ fault, reaction authed f = .throws fault := by
  rw [Frame.handled] at h
  rw [Frame.wellFormed] at hw
  rw [reaction]
  generalize DiscordCode.ofValue f.opcode = code at h hw ⊢
  rcases code with _ | c
  · cases h
  · cases c with
    | serverSendAuthResponse =>
      dsimp only at h hw ⊢
      rw [if_neg (by simpa using h)]
      cases hp : f.payload with
      | nil => exact ⟨_, rfl⟩
      | cons code rest =>
        rw [hp] at hw
        have h8 : ¬ code.toNat ≤ 8 := by simpa using hw
        exact ⟨_, if_pos (by omega)⟩
    | serverSendPong =>
      dsimp only at h hw ⊢
      have h8 : ¬ 8 ≤ f.payload.length := by simpa using hw
      rw [if_neg (by simpa using h), if_pos (by omega)]
      exact ⟨_, rfl⟩
    | _ => cases h

/-- **and the others are accepted, rejected or answered.** -/
theorem reaction_of_wellFormed (h : f.handled authed = true) (hw : f.wellFormed = true) :
    (f.isAcceptance = true ∧ f.isRejection = false ∧ authed = false ∧
        reaction authed f = .accepts) ∨
      (f.isAcceptance = false ∧ f.isRejection = true ∧ authed = false ∧
        reaction authed f = .rejects) ∨
      (f.isAcceptance = false ∧ f.isRejection = false ∧ authed = true ∧
        reaction authed f = .pongs) := by
  rw [Frame.handled] at h
  rw [Frame.wellFormed] at hw
  rw [reaction, Frame.isAcceptance, Frame.isRejection]
  generalize DiscordCode.ofValue f.opcode = code at h hw ⊢
  rcases code with _ | c
  · cases h
  · cases c with
    | serverSendAuthResponse =>
      dsimp only at h hw ⊢
      have ha : authed = false := by simpa using h
      rw [if_neg (by rw [ha]; decide)]
      cases hp : f.payload with
      | nil => rw [hp] at hw; cases hw
      | cons code rest =>
        rw [hp] at hw
        have h8 : code.toNat ≤ 8 := by simpa using hw
        dsimp only
        rw [if_neg (by omega)]
        by_cases h0 : code = 0
        · rw [if_pos h0, h0]
          exact .inl ⟨rfl, rfl, ha, rfl⟩
        · rw [if_neg h0]
          exact .inr (.inl ⟨by simpa using h0, by simpa using h0, ha, rfl⟩)
    | serverSendPong =>
      dsimp only at h hw ⊢
      have h8 : 8 ≤ f.payload.length := by simpa using hw
      rw [if_neg (by simpa using h), if_neg (by omega)]
      exact .inr (.inr ⟨rfl, rfl, h, rfl⟩)
    | _ => cases h

namespace ClientSession

/-- The frame goes into the history. -/
def dispatch (s : ClientSession) (f : Frame) : ClientSession :=
  { s with dispatched := s.dispatched ++ [⟨f, s.socket.closed⟩] }

/-- The packet of `SendPingMessage`. -/
def pingPacket (timeNow latency : Int64) : DiscordPacket :=
  { ByteBuffer.new.extend (toLE 8 timeNow.toUInt64.toNat ++ toLE 8 latency.toUInt64.toNat) with
    opcode := DiscordCode.clientSendPing.value }

/-- What `HandleAuthResponce` does for the code `Ok`. -/
def authenticate (env : Env) (s : ClientSession) : ClientSession :=
  let r := { s with authed := true }.now env
  r.2.sendPacket .session (pingPacket r.1 s.latency)

/-- What `HandlePong` does for a payload that is long enough. -/
def pong (env : Env) (payload : List UInt8) (s : ClientSession) : ClientSession :=
  let r := s.now env
  { r.2 with latency := r.1 - (UInt64.ofNat (ofLE (payload.take 8))).toInt64 }

variable (env : Env) (s : ClientSession)

theorem sendPingMessage_eq : s.sendPingMessage env =
    .ok ((s.now env).2.sendPacket .session (pingPacket (s.now env).1 s.latency)) := by
  have hw := (ByteBuffer.appends_writeInt64 (s.now env).1).then
    (ByteBuffer.appends_writeInt64 s.latency)
  have hs := DiscordPacket.stream_new hw DiscordCode.clientSendPing.value (by
    simp only [List.length_append, toLE_length]
    decide)
  have hb : s.sendPingMessage env =
      ((DiscordPacket.new DiscordCode.clientSendPing.value).stream (·.writeInt64 (s.now env).1) >>=
        fun p => p.stream (·.writeInt64 s.latency)) >>=
      fun p => .ok ((s.now env).2.sendPacket .session p) := by
    rw [bind_assoc]
    rfl
  rw [hb, DiscordPacket.stream_bind, hs]
  rfl

/-- `LogOpcode` never ends the handler: what its argument throws ends in the log. -/
theorem logOpcode_eq (opcode : UInt16) : logOpcode opcode = .ok () := by
  rw [logOpcode, getOpcodeNameForLoggingImpl]
  split
  · rw [EnumUtils.discordCodeToString]
    split <;> rfl
  · rfl

theorem handleAuthResponce_cons (opcode : UInt16) (code : UInt8) (payload : List UInt8) :
    s.handleAuthResponce env (Frame.packet ⟨opcode, code :: payload⟩) =
      if 8 < code.toNat then .error (.outOfRange "value")
      else if code = 0 then .ok ((s.now env).2.authenticate env)
      else .ok (s.now env).2.disconnectManager := by
  have hread : (Frame.packet ⟨opcode, code :: payload⟩).toByteBuffer.readUInt8 =
      .ok (code, ⟨1, 0, code :: payload⟩) := by
    rw [ByteBuffer.readUInt8, ByteBuffer.readBytes_of_le (by simp [Frame.packet, ByteBuffer.size])]
    simp [Frame.packet, ofLE]
  rw [handleAuthResponce, hread]
  dsimp only [Bind.bind, Except.bind]
  by_cases h : 8 < code.toNat
  · rw [if_pos h, EnumUtils.authResponseToString_error h]
  · obtain ⟨text, ht⟩ := (EnumUtils.authResponseToString_ok_iff code).mpr (by omega)
    rw [if_neg h, ht]
    dsimp only
    by_cases h0 : code = 0
    · have hok : ¬ DiscordAuthResponseCodes.ofValue code ≠ some .ok := by
        rw [ne_eq, not_not, DiscordAuthResponseCodes.ofValue_eq_ok_iff, h0]
      rw [if_pos h0, if_neg hok, sendPingMessage_eq]
      rfl
    · rw [if_neg h0, if_pos (by rw [ne_eq, DiscordAuthResponseCodes.ofValue_eq_ok_iff]; exact h0)]
      rfl

theorem handlePong_eq (f : Frame) : s.handlePong env f.packet =
    if f.payload.length < 8 then .error (.byteBufferPosition false 0 8 f.payload.length)
    else .ok (s.pong env f.payload) := by
  rw [handlePong, ByteBuffer.readInt64]
  by_cases h : f.payload.length < 8
  · rw [if_pos h, ByteBuffer.readBytes_eq_error (by change f.payload.length < 0 + 8; omega)]
    rfl
  · rw [if_neg h, ByteBuffer.readBytes_of_le (by change 0 + 8 ≤ f.payload.length; omega)]
    rfl

theorem readDataHandler_switch (f : Frame) : s.readDataHandler env f.packet =
    match DiscordCode.ofValue f.opcode with
    | some .serverSendAuthResponse =>
      if s.authed then .ok ((s.dispatch f).disconnectManager, .error)
      else
        match (s.dispatch f).handleAuthResponce env f.packet with
        | .ok t => .ok (t, .ok)
        | .error fault => .error fault
    | some .serverSendPong =>
      if !s.authed then .ok ((s.dispatch f).disconnectManager, .error)
      else
        match (s.dispatch f).handlePong env f.packet with
        | .ok t => .ok (t, .ok)
        | .error fault => .error fault
    | _ => .ok (s.dispatch f, .error) := by
  have hop : f.packet.opcode = f.opcode := rfl
  rw [readDataHandler, logOpcode_eq, hop]
  rcases DiscordCode.ofValue f.opcode with _ | c
  · rfl
  · cases c with
    | serverSendAuthResponse =>
      by_cases h : s.authed = true
      · refine Eq.trans (if_pos h) (Eq.trans ?_ (if_pos h).symm)
        rfl
      · refine Eq.trans (if_neg h) (Eq.trans ?_ (if_neg h).symm)
        show ((s.dispatch f).handleAuthResponce env f.packet >>= _) = _
        rcases (s.dispatch f).handleAuthResponce env f.packet with fault | t <;> rfl
    | serverSendPong =>
      by_cases h : (!s.authed) = true
      · refine Eq.trans (if_pos h) (Eq.trans ?_ (if_pos h).symm)
        rfl
      · refine Eq.trans (if_neg h) (Eq.trans ?_ (if_neg h).symm)
        show ((s.dispatch f).handlePong env f.packet >>= _) = _
        rcases (s.dispatch f).handlePong env f.packet with fault | t <;> rfl
    | _ => rfl

/-- **What a received frame does to the session.** -/
theorem readDataHandler_eq (f : Frame) : s.readDataHandler env f.packet =
    match reaction s.authed f with
    | .throws fault => .error fault
    | .refuses => .ok (s.dispatch f, .error)
    | .disconnects => .ok ((s.dispatch f).disconnectManager, .error)
    | .rejects => .ok (((s.dispatch f).now env).2.disconnectManager, .ok)
    | .accepts => .ok (((s.dispatch f).now env).2.authenticate env, .ok)
    | .pongs => .ok ((s.dispatch f).pong env f.payload, .ok) := by
  obtain ⟨opcode, payload⟩ := f
  rw [readDataHandler_switch, reaction]
  dsimp only
  rcases DiscordCode.ofValue opcode with _ | c
  · rfl
  · cases c with
    | serverSendAuthResponse =>
      dsimp only
      by_cases ha : s.authed = true
      · rw [if_pos ha, if_pos ha]
      · rw [if_neg ha, if_neg ha]
        cases payload with
        | nil => rfl
        | cons code payload =>
          rw [handleAuthResponce_cons]
          by_cases h8 : 8 < code.toNat
          · rw [if_pos h8]
            dsimp only
            rw [if_pos h8]
          · by_cases h0 : code = 0
            · rw [if_neg h8, if_pos h0]
              dsimp only
              rw [if_neg h8, if_pos h0]
            · rw [if_neg h8, if_neg h0]
              dsimp only
              rw [if_neg h8, if_neg h0]
    | serverSendPong =>
      dsimp only
      rw [handlePong_eq]
      by_cases ha : (!s.authed) = true
      · rw [if_pos ha, if_pos ha]
      · rw [if_neg ha, if_neg ha]
        by_cases h8 : payload.length < 8
        · rw [if_pos h8, if_pos h8]
        · rw [if_neg h8, if_neg h8]
    | _ => rfl

variable {env s}

theorem sendPacket_authed (origin : Origin) (s : ClientSession) (p : DiscordPacket) :
    (s.sendPacket origin p).authed = s.authed := by
  cases h : s.isOpen with
  | false => rw [sendPacket_of_closed h]
  | true => rw [sendPacket_of_open h]

/-- A frame that no handler sees has the result `Error`; -/
theorem readDataHandler_of_not_handled (env : Env) {f : Frame} (h : f.handled s.authed = false) :
    ∃ t, s.readDataHandler env f.packet = .ok (t, .error) ∧ t.authed = s.authed ∧
      t.dispatched = s.dispatched ++ [⟨f, s.socket.closed⟩] := by
  rw [readDataHandler_eq]
  rcases reaction_of_not_handled h with hr | hr
  · rw [hr]; exact ⟨_, rfl, rfl, rfl⟩
  · rw [hr]; exact ⟨_, rfl, rfl, rfl⟩

/-- a handler that cannot read its frame throws, -/
theorem readDataHandler_of_not_wellFormed (env : Env) {f : Frame} (h : f.handled s.authed = true)
    (hw : f.wellFormed = false) : ∃ fault, s.readDataHandler env f.packet = .error fault := by
  obtain ⟨fault, hr⟩ := reaction_of_not_wellFormed h hw
  rw [readDataHandler_eq, hr]
  exact ⟨fault, rfl⟩

/-- and the others end with `Ok`. -/
theorem readDataHandler_of_wellFormed (env : Env) {f : Frame} (h : f.handled s.authed = true)
    (hw : f.wellFormed = true) :
    ∃ t, s.readDataHandler env f.packet = .ok (t, .ok) ∧
      t.authed = (s.authed || f.isAcceptance) := by
  rw [readDataHandler_eq]
  rcases reaction_of_wellFormed h hw with ⟨ha, -, hs, hr⟩ | ⟨ha, -, hs, hr⟩ | ⟨ha, -, hs, hr⟩
  · rw [hr]
    refine ⟨_, rfl, ?_⟩
    rw [authenticate, sendPacket_authed, ha, Bool.or_true]
    rfl
  · rw [hr, ha, Bool.or_false]
    exact ⟨_, rfl, rfl⟩
  · rw [hr, ha, Bool.or_false]
    exact ⟨_, rfl, rfl⟩

end ClientSession

end WarheadDiscord
