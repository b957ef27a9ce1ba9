import WarheadDiscord.Lib.Outcome
import WarheadDiscord.Lib.SizeT
import WarheadDiscord.Shared.ByteBuffer

/-!
# The bounds checks of `ByteBuffer`

`read_skip`, `read` and `put` with the positions in `size_t`, for arguments of any size, and
with every `memcpy` checked against the storage.

* `checked_cases`: what a check of `pos + n` lets through.
* `boundsChecks_iff`: for which arguments the four checks are sound.
-/

namespace WarheadDiscord.ByteBuffer

open Lib

/-- What `put` copies: `cnt` bytes, or a null pointer. -/
structure Source where
  cnt : UInt64
  bytes : Option (List UInt8)
  length_eq : ∀ bs ∈ bytes, bs.length = cnt.toNat

namespace SizeT

/-- `pos + n`. -/
def endOf (pos n : Nat) : Nat := wrapAdd (2 ^ 64) pos n

/-- `memcpy` of `n` bytes from `&_storage[pos]`. -/
def load (b : ByteBuffer) (pos n : Nat) : Except Fault (List UInt8) :=
  if pos + n ≤ b.size then .ok ((b.storage.drop pos).take n)
  else .error (.undefinedBehaviour "read out of bounds")

/-- `memcpy` to `&_storage[pos]`. -/
def store (b : ByteBuffer) (pos : Nat) (src : List UInt8) : Except Fault ByteBuffer :=
  if pos + src.length ≤ b.size then .ok { b with storage := overwrite b.storage pos src }
  else .error (.undefinedBehaviour "write out of bounds")

/-- `read_skip(size_t skip)`. -/
def readSkip (b : ByteBuffer) (skip : UInt64) : Except Fault ByteBuffer :=
  if endOf b.rpos skip.toNat > b.size then
    .error (.byteBufferPosition false b.rpos skip.toNat b.size)
  else .ok { b with rpos := endOf b.rpos skip.toNat }

/-- `read<T>(size_t pos)` for a type of `n` bytes. -/
def readAt (b : ByteBuffer) (n pos : UInt64) : Except Fault (List UInt8) :=
  if endOf pos.toNat n.toNat > b.size then
    .error (.byteBufferPosition false pos.toNat n.toNat b.size)
  else load b pos.toNat n.toNat

/-- `read(uint8* dest, size_t len)`: the bytes of `dest`, and the buffer. -/
def read (b : ByteBuffer) (len : UInt64) : Except Fault (List UInt8 × ByteBuffer) :=
  if endOf b.rpos len.toNat > b.size then
    .error (.byteBufferPosition false b.rpos len.toNat b.size)
  else
    match load b b.rpos len.toNat with
    | .ok dest => .ok (dest, { b with rpos := endOf b.rpos len.toNat })
    | .error e => .error e

/-- `put(size_t pos, uint8 const* src, size_t cnt)`. -/
def put (b : ByteBuffer) (pos : UInt64) (src : Source) : Except Fault ByteBuffer :=
  if ¬ endOf pos.toNat src.cnt.toNat ≤ b.size then .error (.assertion "pos + cnt <= size()")
  else
    match src.bytes with
    | none => .error (.assertion "src")
    | some bytes =>
      if src.cnt = 0 then .error (.assertion "cnt") else store b pos.toNat bytes

end SizeT

/-! ### One check -/

/-- An exception that names the position, or an assertion. -/
def Reported : Fault → Prop
  | .byteBufferPosition .. => True
  | .assertion _ => True
  | _ => False

variable {b : ByteBuffer} {pos n : Nat}

/-- **What a check lets through**: what ends in the content, and what wraps to a position in it. -/
theorem checked_spec (hp : pos < 2 ^ 64) (hn : n < 2 ^ 64) :
    SizeT.endOf pos n ≤ b.size ↔
      pos + n ≤ b.size ∨ (2 ^ 64 ≤ pos + n ∧ pos + n - 2 ^ 64 ≤ b.size) :=
  wrapAdd_le_iff hp hn

/-- An end position that is in the content has not wrapped. -/
theorem endOf_eq (hs : b.size < 2 ^ 64) (h : pos + n ≤ b.size) : SizeT.endOf pos n = pos + n :=
  wrapAdd_of_lt (by omega)

/-- The argument wraps to a position in the content. -/
def Wraps (b : ByteBuffer) (pos n : Nat) : Prop := 2 ^ 64 ≤ pos + n ∧ pos + n - 2 ^ 64 ≤ b.size

/-- From a position of the content, every argument that wraps comes back into it. -/
theorem wraps_of_rpos (hr : b.rpos ≤ b.size) (hn : n < 2 ^ 64) :
    Wraps b b.rpos n ↔ 2 ^ 64 ≤ b.rpos + n := by
  rw [Wraps]
  omega

/-- **A check has one of three results**: the end is in the content, or it wraps to a position in
it, or the check says no. -/
theorem checked_cases (hs : b.size < 2 ^ 64) (hp : pos < 2 ^ 64) (hn : n < 2 ^ 64) :
    (SizeT.endOf pos n ≤ b.size ∧ pos + n ≤ b.size ∧ ¬ Wraps b pos n) ∨
      (SizeT.endOf pos n ≤ b.size ∧ ¬ pos + n ≤ b.size ∧ Wraps b pos n) ∨
      (b.size < SizeT.endOf pos n ∧ ¬ Wraps b pos n) := by
  have hcheck := checked_spec (b := b) hp hn
  rw [← Wraps] at hcheck
  rcases Nat.lt_or_ge b.size (SizeT.endOf pos n) with hlt | hle
  · exact .inr (.inr ⟨hlt, fun hw => Nat.not_le.mpr hlt (hcheck.mpr (.inr hw))⟩)
  · by_cases hfit : pos + n ≤ b.size
    · refine .inl ⟨hle, hfit, fun hw => ?_⟩
      have := hw.1
      omega
    · exact .inr (.inl ⟨hle, hfit, (hcheck.mp hle).resolve_left hfit⟩)

/-! ### The operations -/

section Operations

variable (hs : b.size < 2 ^ 64)

include hs

theorem readAt_sound_iff (k p : UInt64) :
    Ends Reported (fun _ => p.toNat + k.toNat ≤ b.size) (SizeT.readAt b k p) ↔
      ¬ Wraps b p.toNat k.toNat := by
  rw [SizeT.readAt]
  rcases checked_cases hs p.toNat_lt k.toNat_lt with ⟨hle, hfit, hw⟩ | ⟨hle, hfit, hw⟩ | ⟨hlt, hw⟩
  · rw [if_neg (Nat.not_lt.mpr hle), SizeT.load, if_pos hfit]
    exact iff_of_true hfit hw
  · rw [if_neg (Nat.not_lt.mpr hle), SizeT.load, if_neg hfit]
    exact iff_of_false id (not_not.mpr hw)
  · rw [if_pos hlt]
    exact iff_of_true trivial hw

theorem put_sound_iff (p : UInt64) (src : Source) :
    Ends Reported (fun _ => p.toNat + src.cnt.toNat ≤ b.size) (SizeT.put b p src) ↔
      ¬ (Wraps b p.toNat src.cnt.toNat ∧ src.bytes ≠ none) := by
  obtain ⟨cnt, bytes, hlen⟩ := src
  rw [SizeT.put]
  dsimp only
  rcases checked_cases hs p.toNat_lt cnt.toNat_lt with ⟨hle, hfit, hw⟩ | ⟨hle, hfit, hw⟩ | ⟨hlt, hw⟩
  · rw [if_neg (not_not.mpr hle)]
    have hsound : ¬ (Wraps b p.toNat cnt.toNat ∧ bytes ≠ none) := fun h => hw h.1
    cases bytes with
    | none => exact iff_of_true trivial hsound
    | some bytes =>
      have hlen : bytes.length = cnt.toNat := hlen bytes rfl
      dsimp only
      split
      · exact iff_of_true trivial hsound
      · rw [SizeT.store, if_pos (by omega)]
        exact iff_of_true hfit hsound
  · rw [if_neg (not_not.mpr hle)]
    cases bytes with
    | none => exact iff_of_true trivial (by simp)
    | some bytes =>
      have hlen : bytes.length = cnt.toNat := hlen bytes rfl
      -- An end that wraps has a count that is not zero.
      have hcnt : cnt ≠ 0 := by
        rintro rfl
        have h1 := hw.1
        have h2 := p.toNat_lt
        rw [UInt64.toNat_zero] at h1
        omega
      dsimp only
      rw [if_neg hcnt, SizeT.store, if_neg (by omega)]
      exact iff_of_false id (not_not.mpr ⟨hw, by simp⟩)
  · rw [if_pos (Nat.not_le.mpr hlt)]
    exact iff_of_true trivial fun h => hw h.1

variable (hr : b.rpos ≤ b.size)

include hr

theorem readSkip_sound_iff (skip : UInt64) :
    Ends Reported (fun b' => b.rpos + skip.toNat ≤ b.size ∧ b.rpos ≤ b'.rpos ∧ b'.rpos ≤ b'.size)
      (SizeT.readSkip b skip) ↔ b.rpos + skip.toNat < 2 ^ 64 := by
  rw [← not_le, ← wraps_of_rpos hr skip.toNat_lt, SizeT.readSkip]
  rcases checked_cases hs (Nat.lt_of_le_of_lt hr hs) skip.toNat_lt with
    ⟨hle, hfit, hw⟩ | ⟨hle, hfit, hw⟩ | ⟨hlt, hw⟩
  · rw [if_neg (Nat.not_lt.mpr hle)]
    have hend := endOf_eq hs hfit
    exact iff_of_true ⟨hfit, by dsimp only; omega, hle⟩ hw
  · rw [if_neg (Nat.not_lt.mpr hle)]
    exact iff_of_false (fun h => hfit h.1) (not_not.mpr hw)
  · rw [if_pos hlt]
    exact iff_of_true trivial hw

theorem read_sound_iff (len : UInt64) :
    Ends Reported
        (fun r => b.rpos + len.toNat ≤ b.size ∧ b.rpos ≤ r.2.rpos ∧ r.2.rpos ≤ r.2.size)
      (SizeT.read b len) ↔ b.rpos + len.toNat < 2 ^ 64 := by
  rw [← not_le, ← wraps_of_rpos hr len.toNat_lt, SizeT.read]
  rcases checked_cases hs (Nat.lt_of_le_of_lt hr hs) len.toNat_lt with
    ⟨hle, hfit, hw⟩ | ⟨hle, hfit, hw⟩ | ⟨hlt, hw⟩
  · rw [if_neg (Nat.not_lt.mpr hle), SizeT.load, if_pos hfit]
    have hend := endOf_eq hs hfit
    exact iff_of_true ⟨hfit, by dsimp only; omega, hle⟩ hw
  · rw [if_neg (Nat.not_lt.mpr hle), SizeT.load, if_neg hfit]
    exact iff_of_false id (not_not.mpr hw)
  · rw [if_pos hlt]
    exact iff_of_true trivial hw

end Operations

/-- Where nothing wraps this is the reader on natural numbers. -/
theorem read_eq_readBytes (len : UInt64) (h : b.rpos + len.toNat < 2 ^ 64) :
    SizeT.read b len = b.readBytes len.toNat := by
  have hend : SizeT.endOf b.rpos len.toNat = b.rpos + len.toNat := wrapAdd_of_lt h
  rw [SizeT.read, hend]
  by_cases hfit : b.rpos + len.toNat ≤ b.size
  · rw [if_neg (by omega), SizeT.load, if_pos hfit, readBytes_of_le hfit]
  · rw [if_pos (by omega), readBytes_eq_error (by omega)]

/-- **When the bounds checks are sound.**  For every buffer with its read position in the content
and every argument: a success means that the exact end position is in the content, everything
else is an exception or an assertion, and `read_skip` and `read` move the read position forward
inside the content.  This holds exactly for the end positions that do not wrap, or, where the
position is an argument, do not wrap to a position of the content. -/
theorem boundsChecks_iff (hs : b.size < 2 ^ 64) (hr : b.rpos ≤ b.size) :
    (∀ skip : UInt64, Ends Reported
        (fun b' => b.rpos + skip.toNat ≤ b.size ∧ b.rpos ≤ b'.rpos ∧ b'.rpos ≤ b'.size)
        (SizeT.readSkip b skip) ↔ b.rpos + skip.toNat < 2 ^ 64) ∧
    (∀ len : UInt64, Ends Reported
        (fun r => b.rpos + len.toNat ≤ b.size ∧ b.rpos ≤ r.2.rpos ∧ r.2.rpos ≤ r.2.size)
        (SizeT.read b len) ↔ b.rpos + len.toNat < 2 ^ 64) ∧
    (∀ n p : UInt64, Ends Reported (fun _ => p.toNat + n.toNat ≤ b.size) (SizeT.readAt b n p) ↔
        ¬ Wraps b p.toNat n.toNat) ∧
    (∀ (p : UInt64) (src : Source), Ends Reported (fun _ => p.toNat + src.cnt.toNat ≤ b.size)
        (SizeT.put b p src) ↔ ¬ (Wraps b p.toNat src.cnt.toNat ∧ src.bytes ≠ none)) :=
  ⟨readSkip_sound_iff hs hr, read_sound_iff hs hr, readAt_sound_iff hs, put_sound_iff hs⟩

/-- A buffer of four bytes, of which one was read. -/
theorem boundsChecks_iff_four : Ends Reported
    (fun b' => 1 + 3 ≤ 4 ∧ 1 ≤ b'.rpos ∧ b'.rpos ≤ b'.size)
    (SizeT.readSkip ⟨1, 4, [1, 2, 3, 4]⟩ 3) :=
  ((boundsChecks_iff (b := ⟨1, 4, [1, 2, 3, 4]⟩) (by decide) (by decide)).1 3).mpr (by decide)

/-- **`read_skip` of the largest `size_t` goes one byte back.** -/
theorem readSkip_goes_back :
    SizeT.readSkip ⟨1, 4, [1, 2, 3, 4]⟩ 0xffffffffffffffff = .ok ⟨0, 4, [1, 2, 3, 4]⟩ ∧
    SizeT.read ⟨1, 4, [1, 2, 3, 4]⟩ 0xffffffffffffffff =
      .error (.undefinedBehaviour "read out of bounds") := by
  decide

end WarheadDiscord.ByteBuffer
