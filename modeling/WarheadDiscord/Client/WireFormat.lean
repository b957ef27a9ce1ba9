import WarheadDiscord.Client.DiscordPacket
import WarheadDiscord.Lib.Framing

/-!
# The wire format

What the bytes of a connection mean, independently of how they are received: a
frame is six bytes of header and a payload of the size that the header says, less
the two bytes of the opcode; a header with a size or an opcode out of range ends
the stream.

* `discordFormat`: the format, as an instance of `Lib.Format`.
* `discordFormat_writes`: the frames that `SendPacket` writes are read back.
-/

namespace WarheadDiscord

open Lib

/-- A header that the reader lets through. -/
def goodHeader (bytes : List UInt8) : Bool :=
  (headerOf bytes).isValidSize && (headerOf bytes).isValidOpcode

/-- The size of the payload that a header announces. -/
def payloadSize (bytes : List UInt8) : Nat := (headerOf bytes).size.toNat - 2

/-- A header that is let through is told by its opcode and the size of its payload. -/
theorem goodHeader_ext {h h' : List UInt8} (h6 : h.length = 6) (h6' : h'.length = 6)
    (hg : goodHeader h = true) (hg' : goodHeader h' = true)
    (hs : payloadSize h = payloadSize h') (hc : (headerOf h).cmd = (headerOf h').cmd) : h = h' := by
  have hsize : ∀ b : List UInt8, goodHeader b = true → 2 ≤ (headerOf b).size.toNat := by
    intro b hb
    rw [goodHeader, Bool.and_eq_true] at hb
    exact ((DiscordClientPktHeader.isValidSize_iff _).mp hb.1).1
  have h2 := hsize h hg
  have h2' := hsize h' hg'
  have htake : h.take 4 = h'.take 4 := by
    refine ofBE_inj (by rw [List.length_take, List.length_take, h6, h6']) ?_
    rw [← headerOf_size_toNat, ← headerOf_size_toNat]
    rw [payloadSize, payloadSize] at hs
    omega
  have hdrop : h.drop 4 = h'.drop 4 := by
    refine ofLE_inj (by rw [List.length_drop, List.length_drop, h6, h6']) ?_
    have hcmd := congrArg UInt16.toNat hc
    rw [headerOf_cmd_toNat, headerOf_cmd_toNat,
      List.take_of_length_le (by rw [List.length_drop]; omega),
      List.take_of_length_le (by rw [List.length_drop]; omega)] at hcmd
    exact hcmd
  rw [← List.take_append_drop 4 h, htake, hdrop, List.take_append_drop]

/-- What the front of a connection shows. -/
def lookFrame (bytes : List UInt8) : Look UInt8 Frame :=
  if bytes.length < 6 then .more
  else if !goodHeader bytes then .bad
  else if bytes.length < 6 + payloadSize bytes then .more
  else .frame ⟨(headerOf bytes).cmd, (bytes.drop 6).take (payloadSize bytes)⟩
    (bytes.drop (6 + payloadSize bytes))

variable {bytes rest : List UInt8} {f : Frame}

theorem lookFrame_of_short (h : bytes.length < 6) : lookFrame bytes = .more := by
  rw [lookFrame, if_pos h]

theorem lookFrame_of_bad (h : 6 ≤ bytes.length) (hg : goodHeader bytes = false) :
    lookFrame bytes = .bad := by
  rw [lookFrame, if_neg (by omega), if_pos (by rw [hg]; rfl)]

theorem lookFrame_of_good (h : 6 ≤ bytes.length) (hg : goodHeader bytes = true) :
    lookFrame bytes =
      if bytes.length < 6 + payloadSize bytes then .more
      else .frame ⟨(headerOf bytes).cmd, (bytes.drop 6).take (payloadSize bytes)⟩
        (bytes.drop (6 + payloadSize bytes)) := by
  rw [lookFrame, if_neg (by omega), if_neg (by rw [hg]; decide)]

theorem goodHeader_append (h : 6 ≤ bytes.length) (ys : List UInt8) :
    goodHeader (bytes ++ ys) = goodHeader bytes := by
  rw [goodHeader, goodHeader, headerOf_append h]

theorem payloadSize_append (h : 6 ≤ bytes.length) (ys : List UInt8) :
    payloadSize (bytes ++ ys) = payloadSize bytes := by
  rw [payloadSize, payloadSize, headerOf_append h]

theorem lookFrame_eq_frame (h : lookFrame bytes = .frame f rest) :
    6 ≤ bytes.length ∧ goodHeader bytes = true ∧ 6 + payloadSize bytes ≤ bytes.length ∧
      f = ⟨(headerOf bytes).cmd, (bytes.drop 6).take (payloadSize bytes)⟩ ∧
      rest = bytes.drop (6 + payloadSize bytes) := by
  rw [lookFrame] at h
  split at h
  · cases h
  · split at h
    · cases h
    · split at h
      · cases h
      · rename_i h6 hg hp
        cases h
        exact ⟨by omega, by simpa using hg, by omega, rfl, rfl⟩

theorem lookFrame_append (h : lookFrame bytes = .frame f rest) (ys : List UInt8) :
    lookFrame (bytes ++ ys) = .frame f (rest ++ ys) := by
  obtain ⟨h6, hg, hp, rfl, rfl⟩ := lookFrame_eq_frame h
  have hlen : 6 + payloadSize bytes ≤ (bytes ++ ys).length := by
    rw [List.length_append]; omega
  rw [lookFrame_of_good (by rw [List.length_append]; omega) (by rw [goodHeader_append h6, hg]),
    payloadSize_append h6, headerOf_append h6, if_neg (by omega),
    List.drop_append_of_le_length (by omega), List.drop_append_of_le_length (by omega),
    List.take_append_of_le_length (by rw [List.length_drop]; omega)]

theorem lookFrame_rest_lt {ys : List UInt8} (h : lookFrame bytes = .more)
    (hf : lookFrame (bytes ++ ys) = .frame f rest) : rest.length < ys.length := by
  obtain ⟨h6, hg, hp, -, rfl⟩ := lookFrame_eq_frame hf
  rw [List.length_append] at h6 hp
  rw [List.length_drop, List.length_append]
  by_contra hle
  have hs : 6 ≤ bytes.length := by omega
  rw [goodHeader_append hs] at hg
  rw [payloadSize_append hs] at hle hp
  rw [lookFrame_of_good hs hg, if_neg (by omega)] at h
  cases h

/-- **The wire format.** -/
def discordFormat : Format UInt8 Frame where
  look := lookFrame
  shorter h := by
    obtain ⟨h6, -, -, -, rfl⟩ := lookFrame_eq_frame h
    rw [List.length_drop]
    omega
  frame_append h ys := lookFrame_append h ys
  bad_append {xs} h ys := by
    rw [lookFrame] at h
    split at h
    · cases h
    · rename_i h6
      split at h
      · rename_i hg
        refine lookFrame_of_bad (by rw [List.length_append]; omega) ?_
        rw [goodHeader_append (by omega)]
        simpa using hg
      · split at h <;> cases h

/-- The packets that the reader's header check lets through. -/
def DiscordPacket.Sendable (p : DiscordPacket) : Prop := p.opcode.toNat < 8 ∧ p.size ≤ 9997

theorem headerOf_wire_valid {p : DiscordPacket} (h : p.Sendable) (ys : List UInt8) :
    goodHeader (p.wire ++ ys) = true ∧ payloadSize (p.wire ++ ys) = p.size := by
  have hsize : (UInt32.ofNat (p.size + 2)).toNat = p.size + 2 := by
    have h2 := h.2
    rw [UInt32.toNat_ofNat']
    exact Nat.mod_eq_of_lt (by omega)
  have h2 := h.2
  rw [goodHeader, payloadSize, headerOf_wire, hsize]
  refine ⟨?_, by omega⟩
  rw [Bool.and_eq_true, DiscordClientPktHeader.isValidSize_iff,
    DiscordClientPktHeader.isValidOpcode_iff, hsize]
  exact ⟨⟨by omega, by omega⟩, h.1⟩

/-- **The reader's format reads back every packet that fits it.** -/
theorem lookFrame_wire {p : DiscordPacket} (h : p.Sendable) (ys : List UInt8) :
    lookFrame (p.wire ++ ys) = .frame p.frame ys := by
  obtain ⟨hg, hp⟩ := headerOf_wire_valid h ys
  have hh : p.header.header.length = 6 := DiscordServerPktHeader.header_length _ _
  have hl : p.wire.length = 6 + p.size := by
    rw [DiscordPacket.wire, List.length_append, hh]
    rfl
  have hdrop : (p.wire ++ ys).drop 6 = p.storage ++ ys := by
    rw [DiscordPacket.wire, List.append_assoc, List.drop_append_of_le_length (by omega),
      List.drop_of_length_le (by omega), List.nil_append]
  rw [lookFrame_of_good (by rw [List.length_append]; omega) hg, hp,
    if_neg (by rw [List.length_append]; omega), ← List.drop_drop, hdrop, headerOf_wire]
  have hs : p.storage.length = p.size := rfl
  rw [← hs, List.take_left', List.drop_left']
  · rfl
  · rfl
  · rfl

/-- The bytes of a frame. -/
def Frame.wire (f : Frame) : List UInt8 := f.packet.wire

theorem discordFormat_writes : discordFormat.Writes (fun f => f.packet.Sendable) Frame.wire :=
  fun _ h ys => lookFrame_wire h ys

end WarheadDiscord
