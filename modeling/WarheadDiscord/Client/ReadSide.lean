import WarheadDiscord.Client.ClientSession

/-!
# `ClientSocket`: the read side

`async_read_some` fills the read buffer; `readHandler` cuts the bytes of the read
buffer into headers and payloads, each of which may arrive in several reads.  What
is done with a complete packet is an argument, `DataHandler`, so that the framing
can be looked at for every handler at once; `ClientSession.readDataHandler` is the
one that the program uses.

`readPending` says that an `async_read_some` is outstanding.  `handed` is history:
the frames that the data handler was given.
-/

namespace WarheadDiscord

open Lib

/-- `ReadDataHandler`, from the received packet on. -/
abbrev DataHandler :=
  DiscordPacket → ClientSession → Except Fault (ClientSession × ReadDataHandlerResult)

structure ReadSide where
  readBuffer : MessageBuffer
  headerBuffer : MessageBuffer
  packetBuffer : MessageBuffer
  readPending : Bool
  handed : List Frame
  deriving DecidableEq, Repr

def readBlockSize : Nat := 4096

/-- How far `receiveHeader` got. -/
inductive HeaderState where
  | incomplete
  | malformed
  | complete
  deriving DecidableEq, Repr

namespace ReadSide

/-- The buffers as the constructors of `Socket` and `ClientSocket` leave them. -/
def new : ReadSide where
  readBuffer := MessageBuffer.new.resize readBlockSize
  headerBuffer := MessageBuffer.new.resize DiscordClientPktHeader.sizeOf
  packetBuffer := .new
  readPending := false
  handed := []

def asyncRead (isOpen : Bool) (r : ReadSide) : ReadSide :=
  if !isOpen then r
  else { r with readBuffer := r.readBuffer.normalize.ensureFreeSpace, readPending := true }

/-- `ReadHeaderHandler`: the header is rewritten in place, in the order of the host
and with the size of the payload alone. -/
def readHeaderHandler (e : Endian) (r : ReadSide) : Except Fault (ReadSide × Bool) :=
  if r.headerBuffer.getActiveSize ≠ DiscordClientPktHeader.sizeOf then
    .error (.assertion "_headerBuffer.GetActiveSize() == sizeof(DiscordClientPktHeader)")
  else
    let bytes := r.headerBuffer.fromReadPointer DiscordClientPktHeader.sizeOf
    let size := endianConvertReverse e (bytes.take 4)
    let cmd := endianConvert e (bytes.drop 4)
    let header : DiscordClientPktHeader :=
      ⟨UInt32.ofNat (hostLoad e size), UInt16.ofNat (hostLoad e cmd)⟩
    let store (field : List UInt8) : MessageBuffer :=
      { r.headerBuffer with
        storage := overwrite r.headerBuffer.storage r.headerBuffer.rpos (field ++ cmd) }
    if !header.isValidSize || !header.isValidOpcode then
      .ok ({ r with headerBuffer := store size }, false)
    else
      let payloadSize := header.size - 2
      .ok ({ r with
        headerBuffer := store (hostStore e 4 payloadSize.toNat)
        packetBuffer := r.packetBuffer.resize payloadSize.toNat }, true)

/-- The first part of a round of `ReadHandler`. -/
def receiveHeader (e : Endian) (r : ReadSide) : Except Fault (ReadSide × HeaderState) :=
  if r.headerBuffer.getRemainingSpace > 0 then
    let readHeaderSize := min r.readBuffer.getActiveSize r.headerBuffer.getRemainingSpace
    let r :=
      { r with
        headerBuffer := r.headerBuffer.write (r.readBuffer.fromReadPointer readHeaderSize)
        readBuffer := r.readBuffer.readCompleted readHeaderSize }
    if r.headerBuffer.getRemainingSpace > 0 then
      if r.readBuffer.getActiveSize ≠ 0 then .error (.assertion "packet.GetActiveSize() == 0")
      else .ok (r, .incomplete)
    else
      match r.readHeaderHandler e with
      | .error f => .error f
      | .ok (r, valid) => .ok (r, if valid then .complete else .malformed)
  else .ok (r, .complete)

/-- The second part of a round of `ReadHandler`.  True says that the payload is complete. -/
def receivePayload (r : ReadSide) : Except Fault (ReadSide × Bool) :=
  if r.packetBuffer.getRemainingSpace > 0 then
    let readDataSize := min r.readBuffer.getActiveSize r.packetBuffer.getRemainingSpace
    let r :=
      { r with
        packetBuffer := r.packetBuffer.write (r.readBuffer.fromReadPointer readDataSize)
        readBuffer := r.readBuffer.readCompleted readDataSize }
    if r.packetBuffer.getRemainingSpace > 0 then
      if r.readBuffer.getActiveSize ≠ 0 then .error (.assertion "packet.GetActiveSize() == 0")
      else .ok (r, false)
    else .ok (r, true)
  else .ok (r, true)

/-- The packet with which `ReadDataHandler` begins: the opcode of the rewritten
header, and the payload buffer moved out. -/
def takePacket (e : Endian) (r : ReadSide) : DiscordPacket × ReadSide :=
  let opcode := UInt16.ofNat (hostLoad e ((r.headerBuffer.fromReadPointer 6).drop 4))
  let moved := DiscordPacket.ofMessageBuffer opcode r.packetBuffer
  (moved.1, { r with packetBuffer := moved.2, handed := r.handed ++ [moved.1.frame] })

/-- The rounds of `ReadHandler`, and the `AsyncRead` behind them. -/
def readHandlerLoop (e : Endian) (handler : DataHandler) :
    Nat → ReadSide → ClientSession → Except Fault (ReadSide × ClientSession)
  | 0, _, _ => .error .outOfFuel
  | fuel + 1, r, s =>
    if r.readBuffer.getActiveSize > 0 then
      match r.receiveHeader e with
      | .error f => .error f
      | .ok (r, .incomplete) => .ok (r.asyncRead s.isOpen, s)
      | .ok (r, .malformed) => .ok (r, s.closeSocket)
      | .ok (r, .complete) =>
        match r.receivePayload with
        | .error f => .error f
        | .ok (r, false) => .ok (r.asyncRead s.isOpen, s)
        | .ok (r, true) =>
          match handler (r.takePacket e).1 s with
          | .error f => .error f
          | .ok (s, result) =>
            let r := { (r.takePacket e).2 with headerBuffer := r.headerBuffer.reset }
            match result with
            | .ok => readHandlerLoop e handler fuel r s
            | .waitingForQuery => .ok (r, s)
            | .error => .ok (r, s.closeSocket)
    else .ok (r.asyncRead s.isOpen, s)

/-- `ReadHandler`.  Every round takes a byte off the read buffer. -/
def readHandler (e : Endian) (handler : DataHandler) (r : ReadSide) (s : ClientSession) :
    Except Fault (ReadSide × ClientSession) :=
  readHandlerLoop e handler (r.readBuffer.getActiveSize + 1) r s

/-- `ReadHandlerInternal` after a read without an error: the kernel has put the bytes
behind the write pointer. -/
def readHandlerInternal (e : Endian) (handler : DataHandler) (transferred : List UInt8)
    (r : ReadSide) (s : ClientSession) : Except Fault (ReadSide × ClientSession) :=
  readHandler e handler
    { r with readBuffer := r.readBuffer.write transferred, readPending := false } s

/-- `ReadHandlerInternal` after a read with an error. -/
def readHandlerError (r : ReadSide) (s : ClientSession) : ReadSide × ClientSession :=
  ({ r with readPending := false }, s.closeSocket)

end ReadSide

end WarheadDiscord
