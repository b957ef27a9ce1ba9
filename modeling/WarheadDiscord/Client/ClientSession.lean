import WarheadDiscord.Client.DiscordPacket
import WarheadDiscord.Common.PacketQueue
import WarheadDiscord.Shared.Socket

/-!
# `ClientSocket`: the session

What a `ClientSocket` does with the packets it receives and the packets it is
given to send.  The buffers from which the received packets are cut are in
`ReadSide.lean`; nothing here touches them.

`sClientSocketMgr->Disconnect()` is called from inside the handlers.  Of the
manager a session knows one thing, whether it is the manager's `_clientSocket`
(`held`); `disconnectManager` is what the call does to the session, and
`disconnectCalled` tells the manager to do the rest.

`written` and `dispatched` are history: the packets that `sendPacket` put into the
write queue, with their origin, and the frames that `readDataHandler` was given,
each with what `_closed` was then.
-/

namespace WarheadDiscord

open Lib

/-- The options that the client reads. -/
structure DiscordConfig where
  serverEnable : Bool
  serverHost : List UInt8
  serverPort : UInt16
  accountName : List UInt8
  accountKey : List UInt8
  serverID : Int64
  deriving DecidableEq, Repr

/-- The generated `revision.h`. -/
structure GitRevision where
  companyNameStr : List UInt8
  fileVersionStr : List UInt8
  deriving DecidableEq, Repr

/-- What the program finds around it.  `clock` gives the readings of
`steady_clock::now()` in microseconds, in the order in which a session takes them. -/
structure Env where
  config : DiscordConfig
  revision : GitRevision
  clock : Nat → Int64

/-- A configuration with which a session starts. -/
def Env.sample : Env where
  config := ⟨true, "localhost".toUTF8.toList, 1000, "name".toUTF8.toList, "key".toUTF8.toList, 1⟩
  revision := ⟨"WarheadCore".toUTF8.toList, "1.0".toUTF8.toList⟩
  clock n := Int64.ofNat n

def warheadDiscordVersion : UInt32 := 100000

/-- Whether a packet was made by the session itself or came through the queues. -/
inductive Origin where
  | session
  | application
  deriving DecidableEq, Repr

structure Written where
  origin : Origin
  packet : DiscordPacket
  deriving DecidableEq, Repr

structure Dispatch where
  frame : Frame
  closed : Bool
  deriving DecidableEq, Repr

structure ClientSession where
  socket : Socket
  authed : Bool
  accountName : List UInt8
  accountKey : List UInt8
  serverID : Int64
  startTime : Int64
  latency : Int64
  bufferQueue : PacketQueue DiscordPacket
  clockReads : Nat
  held : Bool
  disconnectCalled : Bool
  written : List Written
  dispatched : List Dispatch
  deriving DecidableEq, Repr

/-- `ClientSocket::ReadDataHandlerResult`. -/
inductive ReadDataHandlerResult where
  | ok
  | error
  | waitingForQuery
  deriving DecidableEq, Repr

/-- A `LOG_*` macro: exceptions from its own arguments end in the log. -/
def logMessage (text : Except Fault String) : Except Fault Unit :=
  match text with
  | .ok _ => .ok ()
  | .error f => if f.what.isSome then .ok () else .error f

namespace ClientSession

def isOpen (s : ClientSession) : Bool := s.socket.isOpen

def closeSocket (s : ClientSession) : ClientSession := { s with socket := s.socket.closeSocket }

/-- `steady_clock::now()`. -/
def now (env : Env) (s : ClientSession) : Int64 × ClientSession :=
  (env.clock s.clockReads, { s with clockReads := s.clockReads + 1 })

/-- `sClientSocketMgr->Disconnect()`, as far as it concerns this socket. -/
def disconnectManager (s : ClientSession) : ClientSession :=
  { s with
    socket := if s.held && s.socket.isOpen then s.socket.closeSocket else s.socket
    held := false
    disconnectCalled := true }

/-- The constructor `ClientSocket(tcp::socket&&)`. -/
def new (env : Env) : ClientSession :=
  let s : ClientSession :=
    { socket := .new
      authed := false
      accountName := env.config.accountName
      accountKey := env.config.accountKey
      serverID := env.config.serverID
      startTime := 0
      latency := 0
      bufferQueue := []
      clockReads := 0
      held := false
      disconnectCalled := false
      written := []
      dispatched := [] }
  let s := if s.serverID = 0 then s.disconnectManager.closeSocket else s
  let s := if s.accountName = [] then s.disconnectManager.closeSocket else s
  if s.accountKey = [] then s.disconnectManager.closeSocket else s

/-! ### Sending -/

/-- `ClientSocket::SendPacket`, on the write side.  The first buffer is given away
empty when the packet does not fit, and is left without storage. -/
def queueFrame (socket : Socket) (packet : DiscordPacket) : Socket :=
  let buffer := MessageBuffer.new
  let header := packet.header
  let moved := buffer.getRemainingSpace < packet.size + header.getHeaderLength
  let socket := if moved then socket.queuePacket buffer else socket
  let buffer := if moved then buffer.moveFrom.2 else buffer
  if buffer.getRemainingSpace ≥ packet.size + header.getHeaderLength then
    let buffer := buffer.write header.header
    let buffer := if !packet.empty then buffer.write packet.storage else buffer
    if buffer.getActiveSize > 0 then socket.queuePacket buffer else socket
  else
    let packetBuffer := MessageBuffer.ofSize (packet.size + header.getHeaderLength)
    let packetBuffer := packetBuffer.write header.header
    let packetBuffer := if !packet.empty then packetBuffer.write packet.storage else packetBuffer
    let socket := socket.queuePacket packetBuffer
    if buffer.getActiveSize > 0 then socket.queuePacket buffer else socket

/-- `ClientSocket::SendPacket`. -/
def sendPacket (origin : Origin) (s : ClientSession) (packet : DiscordPacket) : ClientSession :=
  if !s.isOpen then s
  else
    { s with
      socket := queueFrame s.socket packet
      written := s.written ++ [⟨origin, packet⟩] }

def addPacketToQueue (s : ClientSession) (packet : DiscordPacket) : ClientSession :=
  { s with bufferQueue := s.bufferQueue.addPacket packet }

def sendPingMessage (env : Env) (s : ClientSession) : Except Fault ClientSession := do
  let (timeNow, s) := s.now env
  let packetPing := DiscordPacket.new DiscordCode.clientSendPing.value
  let packetPing ← packetPing.stream (·.writeInt64 timeNow)
  let packetPing ← packetPing.stream (·.writeInt64 s.latency)
  return s.sendPacket .session packetPing

/-- The packet that `SendAuthSession` builds. -/
def authSessionPacket (env : Env) (s : ClientSession) : Except Fault DiscordPacket := do
  let packet := DiscordPacket.new DiscordCode.clientAuthSession.value
  let packet ← packet.stream (·.writeString s.accountName)
  let packet ← packet.stream (·.writeString s.accountKey)
  let packet ← packet.stream (·.writeString env.revision.companyNameStr)
  let packet ← packet.stream (·.writeString env.revision.fileVersionStr)
  let packet ← packet.stream (·.writeUInt32 warheadDiscordVersion)
  packet.stream (·.writeInt64 s.serverID)

/-- `SendAuthSession`, up to the `AsyncRead` at its end. -/
def sendAuthSession (env : Env) (s : ClientSession) : Except Fault ClientSession := do
  let packet ← s.authSessionPacket env
  let s := s.sendPacket .session packet
  let (startTime, s) := s.now env
  return { s with startTime := startTime }

/-- `ClientSocket::Update`. -/
def update (writeSome : Nat → Nat → WriteResult) (s : ClientSession) : ClientSession × Bool :=
  let s :=
    if s.authed then
      s.bufferQueue.whileNext (sendPacket .application) { s with bufferQueue := [] }
    else s
  let r := s.socket.update writeSome
  ({ s with socket := r.1 }, r.2)

/-! ### Receiving -/

def handleAuthResponce (env : Env) (packet : DiscordPacket) (s : ClientSession) :
    Except Fault ClientSession := do
  let (_, s) := s.now env
  let (code, _) ← packet.toByteBuffer.readUInt8
  let _codeString ← EnumUtils.authResponseToString code
  if DiscordAuthResponseCodes.ofValue code ≠ some .ok then return s.disconnectManager
  sendPingMessage env { s with authed := true }

def handlePong (env : Env) (packet : DiscordPacket) (s : ClientSession) :
    Except Fault ClientSession := do
  let (timePacket, _) ← packet.toByteBuffer.readInt64
  let (timeNow, s) := s.now env
  return { s with latency := timeNow - timePacket }

def getOpcodeNameForLoggingImpl (opcode : UInt16) : Except Fault String := do
  let digits := (Nat.toDigits 16 opcode.toNat).map Char.toUpper
  let hex := String.ofList (List.replicate (4 - digits.length) '0' ++ digits)
  if opcode < numOpcodeHandlers then
    let text ← EnumUtils.discordCodeToString opcode
    return "[" ++ text.title ++ " 0x" ++ hex ++ " (" ++ toString opcode.toNat ++ ")]"
  return "[INVALID OPCODE 0x" ++ hex ++ " (" ++ toString opcode.toNat ++ ")]"

def logOpcode (opcode : UInt16) : Except Fault Unit :=
  logMessage (getOpcodeNameForLoggingImpl opcode)

/-- `ReadDataHandler`, from the received packet on. -/
def readDataHandler (env : Env) (packet : DiscordPacket) (s : ClientSession) :
    Except Fault (ClientSession × ReadDataHandlerResult) := do
  let s := { s with dispatched := s.dispatched ++ [⟨packet.frame, s.socket.closed⟩] }
  logOpcode packet.opcode
  match DiscordCode.ofValue packet.opcode with
  | some .serverSendAuthResponse =>
    if s.authed then return (s.disconnectManager, .error)
    return (← handleAuthResponce env packet s, .ok)
  | some .serverSendPong =>
    if !s.authed then return (s.disconnectManager, .error)
    return (← handlePong env packet s, .ok)
  | _ => return (s, .error)

end ClientSession

end WarheadDiscord
