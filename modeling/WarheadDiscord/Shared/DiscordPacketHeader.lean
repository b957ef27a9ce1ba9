import WarheadDiscord.Common.ByteConverter
import WarheadDiscord.Shared.DiscordSharedDefines

/-!
# Packet headers

The writer fills six bytes by shifts (`DiscordServerPktHeader`); the reader lays
a packed struct over six bytes (`DiscordClientPktHeader`).  In both the size
comes first, most significant byte first, and the opcode follows, least
significant byte first.  `DiscordServerPktHeader.header_eq` says so of the writer.
-/

namespace WarheadDiscord

open Lib

/-- What the writer puts in front of a payload. -/
structure DiscordServerPktHeader where
  size : UInt32
  header : List UInt8
  deriving DecidableEq, Repr

namespace DiscordServerPktHeader

/-- `DiscordServerPktHeader(uint32 size, uint16 cmd)`. -/
def new (size : UInt32) (cmd : UInt16) : DiscordServerPktHeader where
  size := size
  header :=
    [((0xFF : UInt32) &&& (size >>> 24)).toUInt8, ((0xFF : UInt32) &&& (size >>> 16)).toUInt8,
      ((0xFF : UInt32) &&& (size >>> 8)).toUInt8, ((0xFF : UInt32) &&& size).toUInt8,
      ((0xFF : UInt16) &&& cmd).toUInt8, ((0xFF : UInt16) &&& (cmd >>> 8)).toUInt8]

/-- `sizeof(header)`, the size of the array. -/
def getHeaderLength (_ : DiscordServerPktHeader) : Nat := 4 + 2

theorem header_length (size : UInt32) (cmd : UInt16) :
    (new size cmd).header.length = (new size cmd).getHeaderLength := rfl

private theorem mask_toUInt8 (n : Nat) : (0xFF &&& n) % 2 ^ 8 = n % 2 ^ 8 := by
  have h : (0xFF &&& n) = n % 2 ^ 8 := by
    rw [Nat.and_comm]
    exact Nat.and_two_pow_sub_one_eq_mod n 8
  rw [h, Nat.mod_mod]

theorem byte_of_size (x k : UInt32) (hk : k.toNat < 32) :
    ((0xFF : UInt32) &&& (x >>> k)).toUInt8 = UInt8.ofNat (x.toNat / 2 ^ k.toNat) := by
  apply UInt8.toNat_inj.mp
  rw [UInt32.toNat_toUInt8, UInt32.toNat_and, UInt32.toNat_shiftRight, Nat.mod_eq_of_lt hk,
    Nat.shiftRight_eq_div_pow, UInt8.toNat_ofNat']
  exact mask_toUInt8 _

theorem byte_of_cmd (x k : UInt16) (hk : k.toNat < 16) :
    ((0xFF : UInt16) &&& (x >>> k)).toUInt8 = UInt8.ofNat (x.toNat / 2 ^ k.toNat) := by
  apply UInt8.toNat_inj.mp
  rw [UInt16.toNat_toUInt8, UInt16.toNat_and, UInt16.toNat_shiftRight, Nat.mod_eq_of_lt hk,
    Nat.shiftRight_eq_div_pow, UInt8.toNat_ofNat']
  exact mask_toUInt8 _

/-- **The header is the size in big-endian and the opcode in little-endian order.** -/
theorem header_eq (size : UInt32) (cmd : UInt16) :
    (new size cmd).header = toBE 4 size.toNat ++ toLE 2 cmd.toNat := by
  have s0 : ((0xFF : UInt32) &&& size).toUInt8 = UInt8.ofNat size.toNat := by
    have h := byte_of_size size 0 (by decide)
    rwa [UInt32.shiftRight_zero, UInt32.toNat_zero, Nat.pow_zero, Nat.div_one] at h
  have c0 : ((0xFF : UInt16) &&& cmd).toUInt8 = UInt8.ofNat cmd.toNat := by
    have h := byte_of_cmd cmd 0 (by decide)
    rwa [UInt16.shiftRight_zero, UInt16.toNat_zero, Nat.pow_zero, Nat.div_one] at h
  have hs : toBE 4 size.toNat =
      [UInt8.ofNat (size.toNat / 2 ^ 24), UInt8.ofNat (size.toNat / 2 ^ 16),
        UInt8.ofNat (size.toNat / 2 ^ 8), UInt8.ofNat size.toNat] := by
    simp only [toBE, toLE, Nat.div_div_eq_div_mul]
    rfl
  rw [new, byte_of_size size 24 (by decide), byte_of_size size 16 (by decide),
    byte_of_size size 8 (by decide), s0, c0, byte_of_cmd cmd 8 (by decide), hs]
  rfl

end DiscordServerPktHeader

/-- What the reader finds in front of a payload, in the order of the host. -/
structure DiscordClientPktHeader where
  size : UInt32
  cmd : UInt16
  deriving DecidableEq, Repr

namespace DiscordClientPktHeader

/-- `sizeof(DiscordClientPktHeader)` of the packed struct. -/
def sizeOf : Nat := 4 + 2

def isValidSize (h : DiscordClientPktHeader) : Bool := 2 ≤ h.size && h.size < 10000

def isValidOpcode (h : DiscordClientPktHeader) : Bool := h.cmd < numOpcodeHandlers

theorem isValidSize_iff (h : DiscordClientPktHeader) :
    h.isValidSize ↔ 2 ≤ h.size.toNat ∧ h.size.toNat < 10000 := by
  rw [isValidSize, Bool.and_eq_true, decide_eq_true_iff, decide_eq_true_iff,
    UInt32.le_iff_toNat_le, UInt32.lt_iff_toNat_lt]
  rfl

theorem isValidOpcode_iff (h : DiscordClientPktHeader) : h.isValidOpcode ↔ h.cmd.toNat < 8 := by
  rw [isValidOpcode, decide_eq_true_iff, UInt16.lt_iff_toNat_lt]
  rfl

end DiscordClientPktHeader

end WarheadDiscord
