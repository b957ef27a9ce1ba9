import WarheadDiscord.Shared.ByteBuffer
import WarheadDiscord.Shared.DiscordPacketHeader

/-!
# Packets and frames

A `DiscordPacket` is a byte buffer with an opcode.  On the wire a packet is a
frame: the header of `DiscordPacketHeader` and the content.
-/

namespace WarheadDiscord

open Lib

structure DiscordPacket extends ByteBuffer where
  opcode : UInt16
  deriving DecidableEq, Repr

namespace DiscordPacket

/-- `DiscordPacket(uint16 opcode, size_t res)`. -/
def new (opcode : UInt16) : DiscordPacket := { ByteBuffer.new with opcode := opcode }

/-- `DiscordPacket(uint16 opcode, MessageBuffer&& buffer)`: the packet, and what is
left of `buffer`. -/
def ofMessageBuffer (opcode : UInt16) (buffer : MessageBuffer) : DiscordPacket × MessageBuffer :=
  ({ (ByteBuffer.ofMessageBuffer buffer).1 with opcode := opcode },
    (ByteBuffer.ofMessageBuffer buffer).2)

/-- `packet << value`, for the `write` of the type of the value. -/
def stream (write : ByteBuffer → Except Fault ByteBuffer) (p : DiscordPacket) :
    Except Fault DiscordPacket :=
  match write p.toByteBuffer with
  | .ok b => .ok { b with opcode := p.opcode }
  | .error e => .error e

end DiscordPacket

/-- An opcode and a payload, as they travel. -/
structure Frame where
  opcode : UInt16
  payload : List UInt8
  deriving DecidableEq, Repr

/-- The packet that a received frame becomes. -/
def Frame.packet (f : Frame) : DiscordPacket :=
  { rpos := 0, wpos := 0, storage := f.payload, opcode := f.opcode }

/-- What the receiver of a packet sees of it. -/
def DiscordPacket.frame (p : DiscordPacket) : Frame := ⟨p.opcode, p.storage⟩

@[simp] theorem Frame.packet_frame (f : Frame) : f.packet.frame = f := rfl

/-- The header that the first six bytes of a frame say. -/
def headerOf (bytes : List UInt8) : DiscordClientPktHeader :=
  ⟨UInt32.ofNat (ofBE (bytes.take 4)), UInt16.ofNat (ofLE ((bytes.drop 4).take 2))⟩

theorem headerOf_append {xs : List UInt8} (h : 6 ≤ xs.length) (ys : List UInt8) :
    headerOf (xs ++ ys) = headerOf xs := by
  rw [headerOf, headerOf, List.take_append_of_le_length (by omega),
    List.drop_append_of_le_length (by omega),
    List.take_append_of_le_length (by rw [List.length_drop]; omega)]

theorem headerOf_cmd_toNat (bytes : List UInt8) :
    (headerOf bytes).cmd.toNat = ofLE ((bytes.drop 4).take 2) := by
  have hlt := ofLE_lt ((bytes.drop 4).take 2)
  have hlen : ((bytes.drop 4).take 2).length ≤ 2 := List.length_take_le ..
  have hpow : 256 ^ ((bytes.drop 4).take 2).length ≤ 256 ^ 2 :=
    Nat.pow_le_pow_right (by omega) hlen
  rw [headerOf, UInt16.toNat_ofNat']
  exact Nat.mod_eq_of_lt (Nat.lt_of_lt_of_le hlt hpow)

theorem headerOf_size_toNat (bytes : List UInt8) :
    (headerOf bytes).size.toNat = ofBE (bytes.take 4) := by
  have hlt := ofBE_lt (bytes.take 4)
  have hlen : (bytes.take 4).length ≤ 4 := List.length_take_le ..
  have hpow : 256 ^ (bytes.take 4).length ≤ 256 ^ 4 := Nat.pow_le_pow_right (by omega) hlen
  rw [headerOf, UInt32.toNat_ofNat']
  exact Nat.mod_eq_of_lt (Nat.lt_of_lt_of_le hlt hpow)

/-- The header of a frame as `SendPacket` builds it, for a payload of any length. -/
def DiscordPacket.header (p : DiscordPacket) : DiscordServerPktHeader :=
  .new (UInt32.ofNat (p.size + 2)) p.opcode

/-- The bytes of a packet on the wire. -/
def DiscordPacket.wire (p : DiscordPacket) : List UInt8 := p.header.header ++ p.storage

/-- **The reader finds in a written header the opcode, and the size modulo `2 ^ 32`.** -/
theorem headerOf_wire (p : DiscordPacket) (ys : List UInt8) :
    headerOf (p.wire ++ ys) = ⟨UInt32.ofNat (p.size + 2), p.opcode⟩ := by
  have hlen : p.header.header.length = 6 := DiscordServerPktHeader.header_length _ _
  have h4 : (toBE 4 (UInt32.ofNat (p.size + 2)).toNat).length = 4 := toBE_length _ _
  rw [DiscordPacket.wire, List.append_assoc, headerOf_append (by omega), DiscordPacket.header,
    DiscordServerPktHeader.header_eq, headerOf, List.take_append_of_le_length (by omega),
    List.take_of_length_le (by omega), List.drop_append_of_le_length (by omega),
    List.drop_of_length_le (by omega), List.nil_append, List.take_of_length_le (by simp),
    ofBE_toBE (UInt32.toNat_lt _), ofLE_toLE (UInt16.toNat_lt _), UInt32.ofNat_toNat,
    UInt16.ofNat_toNat]

end WarheadDiscord
