import WarheadDiscord.Client.ReadDataHandler
import WarheadDiscord.Common.Timer

/-!
# The latency

`HandlePong` subtracts a time that the server sends from the current time, both 64 bit signed.
Nothing checks the time that is sent.

* `sub_spec`: when the difference of two such numbers is exact and not negative.
* `latency_iff`: for which times the latency is one.
-/

namespace WarheadDiscord.ClientSession

open Lib Time

/-- The signed subtraction `a - b` overflows. -/
def Overflows (a b : Int64) : Prop := a.toInt - b.toInt < -2 ^ 63 ∨ 2 ^ 63 ≤ a.toInt - b.toInt

/-- The payload of a pong with the time `timePacket`. -/
def pongPayload (timePacket : Int64) (rest : List UInt8) : List UInt8 :=
  toLE 8 timePacket.toUInt64.toNat ++ rest

/-- **A difference that is not negative, without an overflow.** -/
theorem sub_spec (now timePacket : Int64) :
    (¬ Overflows now timePacket ∧ 0 ≤ now - timePacket) ↔
      timePacket.toInt ≤ now.toInt ∧ now.toInt - timePacket.toInt < 2 ^ 63 := by
  have hlow := now.le_toInt
  rw [Int64.le_iff_toInt_le, Int64.toInt_sub, Int64.toInt_zero, Overflows]
  constructor
  · rintro ⟨hfits, hnonneg⟩
    rw [Int.bmod_eq_of_le (by omega) (by omega)] at hnonneg
    omega
  · rintro ⟨hle, hlt⟩
    rw [Int.bmod_eq_of_le (by omega) (by omega)]
    omega

theorem toInt_sub_of_spec {now timePacket : Int64} (hle : timePacket.toInt ≤ now.toInt)
    (hlt : now.toInt - timePacket.toInt < 2 ^ 63) :
    (now - timePacket).toInt = now.toInt - timePacket.toInt := by
  rw [Int64.toInt_sub, Int.bmod_eq_of_le (by omega) (by omega)]

variable (env : Env) (s : ClientSession)

theorem handlePong_pongPayload (opcode : UInt16) (timePacket : Int64) (rest : List UInt8) :
    s.handlePong env (Frame.packet ⟨opcode, pongPayload timePacket rest⟩) =
      .ok { (s.now env).2 with latency := (s.now env).1 - timePacket } := by
  have hlen : ¬ (pongPayload timePacket rest).length < 8 := by
    rw [pongPayload, List.length_append, toLE_length]
    omega
  have htake : (pongPayload timePacket rest).take 8 = toLE 8 timePacket.toUInt64.toNat :=
    List.take_left' (toLE_length _ _)
  have htime : (UInt64.ofNat (ofLE (toLE 8 timePacket.toUInt64.toNat))).toInt64 = timePacket := by
    rw [ofLE_toLE timePacket.toUInt64.toNat_lt, UInt64.ofNat_toNat]
    rfl
  rw [handlePong_eq, if_neg hlen, pong, htake, htime]

/-- **When a pong gives a latency.**  For every session, every time that a pong carries and every
reading of the clock: `HandlePong` returns and changes nothing but the latency and the number of
readings.  Its subtraction does not overflow and the latency is not negative exactly when the
time is not in the future and less than `2 ^ 63` microseconds ago.  Then the latency is the exact
difference, and the units of `ToTimeString` make it up. -/
theorem latency_iff (opcode : UInt16) (timePacket : Int64) (rest : List UInt8) :
    ∃ s', s.handlePong env (Frame.packet ⟨opcode, pongPayload timePacket rest⟩) = .ok s' ∧
      s' = { (s.now env).2 with latency := s'.latency } ∧
      ((¬ Overflows (s.now env).1 timePacket ∧ 0 ≤ s'.latency) ↔
        timePacket.toInt ≤ (s.now env).1.toInt ∧
          (s.now env).1.toInt - timePacket.toInt < 2 ^ 63) ∧
      (¬ Overflows (s.now env).1 timePacket ∧ 0 ≤ s'.latency →
        s'.latency.toInt = (s.now env).1.toInt - timePacket.toInt ∧
        ((timeUnits s'.latency).total : Int) = s'.latency.toInt) := by
  have hhandle := s.handlePong_pongPayload env opcode timePacket rest
  have hspec := sub_spec (s.now env).1 timePacket
  refine ⟨_, hhandle, rfl, hspec, fun hgood => ?_⟩
  obtain ⟨hle, hlt⟩ := hspec.mp hgood
  exact ⟨toInt_sub_of_spec hle hlt, timeUnits_total hgood.2⟩

theorem sub_spec_of_echo {now timePacket : Int64} (h0 : 0 ≤ timePacket) (hle : timePacket ≤ now) :
    ¬ Overflows now timePacket ∧ 0 ≤ now - timePacket := by
  have h0 : 0 ≤ timePacket.toInt := Int64.le_iff_toInt_le.mp h0
  have hle := Int64.le_iff_toInt_le.mp hle
  have hlt := now.toInt_lt
  exact (sub_spec now timePacket).mpr ⟨hle, by omega⟩

/-- **A time in the future gives a negative latency, and the smallest number overflows.** -/
theorem latency_negative : ∃ s', (new Env.sample).handlePong Env.sample
      (Frame.packet ⟨7, pongPayload 5 []⟩) = .ok s' ∧ ¬ 0 ≤ s'.latency ∧
    Overflows ((new Env.sample).now Env.sample).1 Int64.minValue := by
  refine ⟨_, (new Env.sample).handlePong_pongPayload Env.sample 7 5 [], ?_, ?_⟩
  · decide +kernel
  · right
    decide +kernel

end WarheadDiscord.ClientSession
