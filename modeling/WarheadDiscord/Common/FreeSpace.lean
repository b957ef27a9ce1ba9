import WarheadDiscord.Common.MessageBuffer
import WarheadDiscord.Lib.SizeT

/-!
# The space that a read is given

`AsyncRead` calls `Normalize` and `EnsureFreeSpace` and then reads into what
`GetRemainingSpace` offers.  Here the sizes are computed in `size_t`.

* `normalize_full_iff`: a buffer is full after `Normalize` when all of its storage is active.
* `grown_le_iff`: the new size is not above the old one for the sizes 0 and 1, and for those
  whose triple wraps.
* `ensureFreeSpace_iff`: when there is space afterwards, and the content is kept.
-/

namespace WarheadDiscord.MessageBuffer

open Lib

namespace SizeT

def getRemainingSpace (b : MessageBuffer) : Nat := wrapSub (2 ^ 64) b.storage.length b.wpos

/-- `_storage.size() * 3 / 2`. -/
def grown (size : Nat) : Nat := wrapMul (2 ^ 64) size 3 / 2

def ensureFreeSpace (b : MessageBuffer) : MessageBuffer :=
  if getRemainingSpace b = 0 then b.resize (grown b.storage.length) else b

/-- The buffer that `AsyncRead` reads into. -/
def prepareRead (b : MessageBuffer) : MessageBuffer := ensureFreeSpace b.normalize

/-- There is space to read into, and the content is the same. -/
def Prepared (b : MessageBuffer) : Prop :=
  0 < getRemainingSpace (prepareRead b) ∧ (prepareRead b).active = b.active

end SizeT

open SizeT

variable {b : MessageBuffer} {size : Nat}

/-! ### The sizes -/

theorem Valid.getRemainingSpace_eq (h : b.Valid) (hs : b.storage.length < 2 ^ 64) :
    SizeT.getRemainingSpace b = b.getRemainingSpace :=
  wrapSub_of_le hs h.wpos_le

theorem grown_of_lt (h : size * 3 < 2 ^ 64) : grown size = size * 3 / 2 := by
  rw [grown, wrapMul_of_lt h]

/-- **When the storage does not grow.** -/
theorem grown_le_iff (hs : size < 2 ^ 64) : grown size ≤ size ↔ size < 2 ∨ 2 ^ 64 ≤ size * 3 := by
  by_cases h : size * 3 < 2 ^ 64
  · rw [grown_of_lt h]
    omega
  · have hmod : wrapMul (2 ^ 64) size 3 < 2 * size := by
      have hq : 1 ≤ size * 3 / 2 ^ 64 := Nat.div_pos (by omega) (by decide)
      rw [wrapMul]
      omega
    rw [grown]
    omega

/-- On sizes that can be tripled this is `EnsureFreeSpace` on natural numbers. -/
theorem Valid.ensureFreeSpace_eq (h : b.Valid) (hs : b.storage.length * 3 < 2 ^ 64) :
    SizeT.ensureFreeSpace b = b.ensureFreeSpace := by
  rw [SizeT.ensureFreeSpace, MessageBuffer.ensureFreeSpace, h.getRemainingSpace_eq (by omega),
    grown_of_lt hs]

/-- A storage that grows has at least two bytes, and its size has not wrapped. -/
theorem lt_grown_iff (hs : size < 2 ^ 64) : size < grown size ↔ 2 ≤ size ∧ size * 3 < 2 ^ 64 := by
  rw [← not_le, grown_le_iff hs]
  omega

/-! ### Full buffers -/

/-- **A buffer is full after `Normalize` when all of its storage is active.** -/
theorem Valid.normalize_full_iff (h : b.Valid) :
    b.normalize.getRemainingSpace = 0 ↔ b.wpos - b.rpos = b.storage.length := by
  have h2 := h.wpos_le
  rw [MessageBuffer.getRemainingSpace, h.normalize_storage_length, normalize_wpos]
  omega

theorem active_resize (h : b.wpos ≤ b.storage.length) (hn : b.wpos ≤ size) :
    (b.resize size).active = b.active := by
  rw [active_eq_drop, active_eq_drop]
  show ((resizeStorage b.storage size).take b.wpos).drop b.rpos = _
  rw [resizeStorage_take hn h]

theorem active_resize_length_le (b : MessageBuffer) (size : Nat) :
    (b.resize size).active.length ≤ size := by
  rw [active_eq_drop, List.length_drop, List.length_take]
  have hlen : (b.resize size).storage.length = size := resizeStorage_length b.storage size
  omega

section Prepare

variable (h : b.Valid) (hs : b.storage.length < 2 ^ 64)

include h hs

theorem prepareRead_of_free (hfree : b.wpos - b.rpos < b.storage.length) :
    prepareRead b = b.normalize := by
  have hlen := h.normalize_storage_length
  have hne : SizeT.getRemainingSpace b.normalize ≠ 0 := by
    rw [h.normalize.getRemainingSpace_eq (by omega), Ne, h.normalize_full_iff]
    omega
  rw [prepareRead, SizeT.ensureFreeSpace, if_neg hne]

theorem prepareRead_of_full (hfull : b.wpos - b.rpos = b.storage.length) :
    prepareRead b = b.normalize.resize (grown b.storage.length) := by
  have hlen := h.normalize_storage_length
  have h0 : SizeT.getRemainingSpace b.normalize = 0 := by
    rw [h.normalize.getRemainingSpace_eq (by omega), h.normalize_full_iff]
    exact hfull
  rw [prepareRead, SizeT.ensureFreeSpace, if_pos h0, hlen]

theorem prepared_of_full (hfull : b.wpos - b.rpos = b.storage.length) :
    Prepared b ↔ b.storage.length < grown b.storage.length := by
  have hw : b.normalize.wpos = b.storage.length := by rw [normalize_wpos, hfull]
  have hlen := h.normalize_storage_length
  have hactive := h.active_normalize
  have hcontent : b.active.length = b.storage.length := by
    rw [h.active_length, getActiveSize, hfull]
  have hsize : grown b.storage.length < 2 ^ 64 := by
    have := Nat.mod_lt (b.storage.length * 3) (show 0 < 2 ^ 64 by decide)
    rw [grown, wrapMul]
    omega
  rw [Prepared, prepareRead_of_full h hs hfull]
  constructor
  · rintro ⟨hpos, hsame⟩
    have hle : b.storage.length ≤ grown b.storage.length :=
      calc b.storage.length = (b.normalize.resize (grown b.storage.length)).active.length := by
            rw [hsame, hcontent]
        _ ≤ grown b.storage.length := active_resize_length_le _ _
    rcases Nat.lt_or_eq_of_le hle with hlt | heq
    · exact hlt
    · -- The space is the difference of two equal sizes.
      rw [SizeT.getRemainingSpace] at hpos
      have hzero : wrapSub (2 ^ 64) (b.normalize.resize (grown b.storage.length)).storage.length
          (b.normalize.resize (grown b.storage.length)).wpos = 0 := by
        have hl : (b.normalize.resize (grown b.storage.length)).storage.length =
            grown b.storage.length := resizeStorage_length _ _
        have hw' : (b.normalize.resize (grown b.storage.length)).wpos = b.storage.length := hw
        rw [hl, hw', wrapSub_of_le hsize hle]
        omega
      omega
  · intro hlt
    constructor
    · have hl : (b.normalize.resize (grown b.storage.length)).storage.length =
          grown b.storage.length := resizeStorage_length _ _
      have hw' : (b.normalize.resize (grown b.storage.length)).wpos = b.storage.length := hw
      rw [SizeT.getRemainingSpace, hl, hw', wrapSub_of_le hsize (by omega)]
      omega
    · rw [active_resize (by omega) (by omega), hactive]

/-- **When a read gets space.**  For every buffer whose positions are in order, `Normalize` and
`EnsureFreeSpace` leave space to read into and keep the content, exactly when some of the storage
is not active or the storage has at least two bytes and can be tripled in `size_t`. -/
theorem ensureFreeSpace_iff : Prepared b ↔
    b.wpos - b.rpos < b.storage.length ∨ 2 ≤ b.storage.length ∧ b.storage.length * 3 < 2 ^ 64 := by
  have h2 := h.wpos_le
  by_cases hfull : b.wpos - b.rpos = b.storage.length
  · rw [prepared_of_full h hs hfull, lt_grown_iff hs]
    omega
  · have hfree : b.wpos - b.rpos < b.storage.length := by omega
    have hlen := h.normalize_storage_length
    have hpos : 0 < SizeT.getRemainingSpace b.normalize := by
      have hne := mt h.normalize_full_iff.mp hfull
      rw [h.normalize.getRemainingSpace_eq (by omega)]
      omega
    rw [Prepared, prepareRead_of_free h hs hfree]
    exact iff_of_true ⟨hpos, h.active_normalize⟩ (.inl hfree)

end Prepare

/-- A full buffer of two bytes: one of them was read, or none. -/
theorem ensureFreeSpace_iff_two : Prepared ⟨2, 1, [7, 8]⟩ ∧ Prepared ⟨2, 0, [7, 8]⟩ :=
  ⟨(ensureFreeSpace_iff (b := ⟨2, 1, [7, 8]⟩) ⟨by decide, by decide⟩ (by decide)).mpr
      (.inl (by decide)),
    (ensureFreeSpace_iff (b := ⟨2, 0, [7, 8]⟩) ⟨by decide, by decide⟩ (by decide)).mpr
      (.inr (by decide))⟩

/-- **A buffer whose storage was moved out, and one that was made with size 1 and filled, get
no space.** -/
theorem ensureFreeSpace_small : ¬ Prepared (ofSize 0) ∧ ¬ Prepared ((ofSize 1).move.2) ∧
    ¬ Prepared ((ofSize 1).write [7]) := by
  have hdec : SizeT.getRemainingSpace (prepareRead (ofSize 0)) = 0 ∧
      SizeT.getRemainingSpace (prepareRead ((ofSize 1).move.2)) = 0 ∧
      SizeT.getRemainingSpace (prepareRead ((ofSize 1).write [7])) = 0 := by
    decide
  obtain ⟨h0, h1, h2⟩ := hdec
  refine ⟨fun h => ?_, fun h => ?_, fun h => ?_⟩
  · exact absurd h.1 (by omega)
  · exact absurd h.1 (by omega)
  · exact absurd h.1 (by omega)

end WarheadDiscord.MessageBuffer
