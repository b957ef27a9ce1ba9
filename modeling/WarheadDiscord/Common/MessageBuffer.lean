import Mathlib.Data.List.Basic
import Mathlib.Tactic.Common

/-!
# `MessageBuffer`

A vector of bytes with a read position and a write position.  The bytes between
the two, `active`, are what the buffer holds: written and not yet read.

Positions are natural numbers here.  On a `Valid` buffer, `rpos ≤ wpos` and
`wpos ≤ storage.length`, the two differences that the code takes in `size_t` do
not wrap, so nothing is lost by this.

* `active_write`, `active_readCompleted`: writing adds behind, reading takes
  away in front.
* `active_normalize`: this moves the storage and leaves what the buffer holds.
* `Filled`: a buffer that collects bytes from its front on, and is read when full.
-/

namespace WarheadDiscord

structure MessageBuffer where
  wpos : Nat
  rpos : Nat
  storage : List UInt8
  deriving DecidableEq, Repr

/-- `std::vector<uint8>::resize`: cut off, or filled up with zeros. -/
def resizeStorage (storage : List UInt8) (bytes : Nat) : List UInt8 :=
  storage.take bytes ++ List.replicate (bytes - storage.length) 0

/-- `memcpy` and `memmove` to a position of the storage, for data that fits. -/
def overwrite (storage : List UInt8) (pos : Nat) (data : List UInt8) : List UInt8 :=
  storage.take pos ++ data ++ storage.drop (pos + data.length)

namespace MessageBuffer

/-- `MessageBuffer()`. -/
def new : MessageBuffer := ⟨0, 0, resizeStorage [] 4096⟩

/-- `MessageBuffer(std::size_t initialSize)`. -/
def ofSize (initialSize : Nat) : MessageBuffer := ⟨0, 0, resizeStorage [] initialSize⟩

def reset (b : MessageBuffer) : MessageBuffer := { b with wpos := 0, rpos := 0 }

def resize (b : MessageBuffer) (bytes : Nat) : MessageBuffer :=
  { b with storage := resizeStorage b.storage bytes }

/-- `bytes` bytes from the read pointer on. -/
def fromReadPointer (b : MessageBuffer) (bytes : Nat) : List UInt8 :=
  (b.storage.drop b.rpos).take bytes

def readCompleted (b : MessageBuffer) (bytes : Nat) : MessageBuffer :=
  { b with rpos := b.rpos + bytes }

def writeCompleted (b : MessageBuffer) (bytes : Nat) : MessageBuffer :=
  { b with wpos := b.wpos + bytes }

def getActiveSize (b : MessageBuffer) : Nat := b.wpos - b.rpos

def getRemainingSpace (b : MessageBuffer) : Nat := b.storage.length - b.wpos

def getBufferSize (b : MessageBuffer) : Nat := b.storage.length

def normalize (b : MessageBuffer) : MessageBuffer :=
  if b.rpos ≠ 0 then
    { wpos := b.wpos - b.rpos
      rpos := 0
      storage :=
        if b.rpos ≠ b.wpos then overwrite b.storage 0 (b.fromReadPointer b.getActiveSize)
        else b.storage }
  else b

def ensureFreeSpace (b : MessageBuffer) : MessageBuffer :=
  if b.getRemainingSpace = 0 then b.resize (b.storage.length * 3 / 2) else b

def write (b : MessageBuffer) (data : List UInt8) : MessageBuffer :=
  if data.length ≠ 0 then
    { b with storage := overwrite b.storage b.wpos data }.writeCompleted data.length
  else b

/-- `Move()`: the storage, and the buffer it was moved out of. -/
def move (b : MessageBuffer) : List UInt8 × MessageBuffer := (b.storage, ⟨0, 0, []⟩)

/-- `MessageBuffer(MessageBuffer&& right)`: the new buffer, and what is left of `right`. -/
def moveFrom (right : MessageBuffer) : MessageBuffer × MessageBuffer :=
  (⟨right.wpos, right.rpos, right.move.1⟩, right.move.2)

/-- The bytes of `[rpos, wpos)`: what the buffer holds. -/
def active (b : MessageBuffer) : List UInt8 := b.fromReadPointer b.getActiveSize

/-- The positions are in order and inside the storage. -/
structure Valid (b : MessageBuffer) : Prop where
  rpos_le : b.rpos ≤ b.wpos
  wpos_le : b.wpos ≤ b.storage.length

end MessageBuffer

@[simp] theorem resizeStorage_length (storage : List UInt8) (bytes : Nat) :
    (resizeStorage storage bytes).length = bytes := by
  rw [resizeStorage, List.length_append, List.length_take, List.length_replicate]
  omega

theorem resizeStorage_take {storage : List UInt8} {bytes n : Nat} (hn : n ≤ bytes)
    (hs : n ≤ storage.length) : (resizeStorage storage bytes).take n = storage.take n := by
  rw [resizeStorage, List.take_append_of_le_length (by rw [List.length_take]; omega),
    List.take_take, Nat.min_eq_left hn]

theorem overwrite_length {storage data : List UInt8} {pos : Nat}
    (h : pos + data.length ≤ storage.length) :
    (overwrite storage pos data).length = storage.length := by
  rw [overwrite, List.length_append, List.length_append, List.length_take, List.length_drop]
  omega

theorem overwrite_take (storage data : List UInt8) {pos : Nat} (h : pos ≤ storage.length) :
    (overwrite storage pos data).take (pos + data.length) = storage.take pos ++ data := by
  have hl : (storage.take pos ++ data).length = pos + data.length := by
    rw [List.length_append, List.length_take, Nat.min_eq_left h]
  rw [overwrite, List.take_append_of_le_length (by omega), ← hl, List.take_length]

namespace MessageBuffer

variable {b : MessageBuffer} {data : List UInt8} {n : Nat}

/-! ### The empty buffers -/

@[simp] theorem new_getRemainingSpace : new.getRemainingSpace = 4096 := by
  rw [getRemainingSpace, new, resizeStorage_length, Nat.sub_zero]

@[simp] theorem ofSize_getRemainingSpace (n : Nat) : (ofSize n).getRemainingSpace = n := by
  rw [getRemainingSpace, ofSize, resizeStorage_length, Nat.sub_zero]

theorem new_valid : new.Valid := ⟨Nat.le_refl _, Nat.zero_le _⟩

theorem ofSize_valid (n : Nat) : (ofSize n).Valid := ⟨Nat.le_refl _, Nat.zero_le _⟩

theorem active_of_getActiveSize (h : b.getActiveSize = 0) : b.active = [] := by
  rw [active, h, fromReadPointer, List.take_zero]

@[simp] theorem new_active : new.active = [] := active_of_getActiveSize rfl

@[simp] theorem ofSize_active (n : Nat) : (ofSize n).active = [] := active_of_getActiveSize rfl

/-! ### What the operations do to the content -/

theorem Valid.active_length (h : b.Valid) : b.active.length = b.getActiveSize := by
  have h1 := h.rpos_le
  have h2 := h.wpos_le
  rw [active, fromReadPointer, getActiveSize, List.length_take, List.length_drop]
  omega

theorem Valid.active_eq_nil_iff (h : b.Valid) : b.active = [] ↔ b.getActiveSize = 0 := by
  rw [← h.active_length, List.length_eq_zero_iff]

/-- The content is the written part of the storage without the part that was read. -/
theorem active_eq_drop (b : MessageBuffer) : b.active = (b.storage.take b.wpos).drop b.rpos := by
  rw [active, fromReadPointer, getActiveSize, List.drop_take]

theorem fromReadPointer_eq (hn : n ≤ b.getActiveSize) :
    b.fromReadPointer n = b.active.take n := by
  rw [active, fromReadPointer, fromReadPointer, List.take_take, Nat.min_eq_left hn]

theorem Valid.write (h : b.Valid) (hd : data.length ≤ b.getRemainingSpace) :
    (b.write data).Valid := by
  have h1 := h.rpos_le
  have h2 := h.wpos_le
  rw [getRemainingSpace] at hd
  rw [MessageBuffer.write]
  split
  · refine ⟨?_, ?_⟩
    · show b.rpos ≤ b.wpos + data.length
      omega
    · show b.wpos + data.length ≤ (overwrite b.storage b.wpos data).length
      rw [overwrite_length (by omega)]
      omega
  · exact h

@[simp] theorem write_wpos (b : MessageBuffer) (data : List UInt8) :
    (b.write data).wpos = b.wpos + data.length := by
  unfold write
  split
  · rfl
  · omega

@[simp] theorem write_rpos (b : MessageBuffer) (data : List UInt8) :
    (b.write data).rpos = b.rpos := by
  rw [write]
  split <;> rfl

theorem Valid.write_storage_length (h : b.Valid) (hd : data.length ≤ b.getRemainingSpace) :
    (b.write data).storage.length = b.storage.length := by
  have h2 := h.wpos_le
  rw [getRemainingSpace] at hd
  rw [MessageBuffer.write]
  split
  · exact overwrite_length (by omega)
  · rfl

/-- **Writing adds the data behind what the buffer holds.** -/
theorem Valid.active_write (h : b.Valid) (data : List UInt8) :
    (b.write data).active = b.active ++ data := by
  have h1 := h.rpos_le
  have h2 := h.wpos_le
  rw [active_eq_drop, active_eq_drop, write_wpos, write_rpos]
  by_cases h0 : data.length = 0
  · rw [MessageBuffer.write, if_neg (by omega), List.length_eq_zero_iff.mp h0]
    simp
  · rw [MessageBuffer.write, if_pos h0]
    show ((overwrite b.storage b.wpos data).take (b.wpos + data.length)).drop b.rpos = _
    rw [overwrite_take _ _ h2, List.drop_append_of_le_length (by rw [List.length_take]; omega)]

/-- **Reading takes the bytes away in front.** -/
theorem active_readCompleted (b : MessageBuffer) (n : Nat) :
    (b.readCompleted n).active = b.active.drop n := by
  rw [active_eq_drop, active_eq_drop, List.drop_drop]
  rfl

theorem Valid.readCompleted (h : b.Valid) (hn : n ≤ b.getActiveSize) :
    (b.readCompleted n).Valid := by
  have h1 := h.rpos_le
  rw [getActiveSize] at hn
  exact ⟨by change b.rpos + n ≤ b.wpos; omega, h.wpos_le⟩

theorem Valid.active_normalize (h : b.Valid) : b.normalize.active = b.active := by
  unfold normalize
  split
  · split
    · have hlen : (b.fromReadPointer b.getActiveSize).length = b.wpos - b.rpos := h.active_length
      rw [active_eq_drop]
      show ((overwrite b.storage 0 _).take (b.wpos - b.rpos)).drop 0 = _
      have ht := overwrite_take b.storage
        (b.fromReadPointer b.getActiveSize) (Nat.zero_le _)
      rw [hlen, Nat.zero_add] at ht
      rw [ht]
      rfl
    · rename_i _ he
      have he : b.rpos = b.wpos := not_not.mp he
      rw [active_of_getActiveSize (b := b) (by rw [getActiveSize]; omega)]
      exact active_of_getActiveSize (by change b.wpos - b.rpos - 0 = 0; omega)
  · rfl

@[simp] theorem normalize_rpos (b : MessageBuffer) : b.normalize.rpos = 0 := by
  unfold normalize
  split
  · rfl
  · omega

@[simp] theorem normalize_wpos (b : MessageBuffer) : b.normalize.wpos = b.wpos - b.rpos := by
  unfold normalize
  split
  · rfl
  · omega

theorem Valid.normalize_storage_length (h : b.Valid) :
    b.normalize.storage.length = b.storage.length := by
  have h2 := h.wpos_le
  have hlen : (b.fromReadPointer b.getActiveSize).length = b.getActiveSize := h.active_length
  unfold normalize
  split
  · split
    · exact overwrite_length (by rw [hlen, getActiveSize]; omega)
    · rfl
  · rfl

theorem Valid.normalize (h : b.Valid) : b.normalize.Valid := by
  have h2 := h.wpos_le
  refine ⟨?_, ?_⟩
  · rw [normalize_rpos]; exact Nat.zero_le _
  · rw [h.normalize_storage_length, normalize_wpos]; omega

theorem ensureFreeSpace_of_pos (h : 0 < b.getRemainingSpace) : b.ensureFreeSpace = b := by
  rw [ensureFreeSpace, if_neg (by omega)]

/-! ### A buffer that is filled from the front

The buffers that collect a header or a payload are read only when they are full.
Until then their read position is `0`. -/

/-- A buffer of `n` bytes that has received `data` and was not read. -/
structure Filled (b : MessageBuffer) (n : Nat) (data : List UInt8) : Prop where
  valid : b.Valid
  rpos_eq : b.rpos = 0
  length_eq : b.storage.length = n
  active_eq : b.active = data

theorem Filled.wpos_eq (h : b.Filled n data) : b.wpos = data.length := by
  have hl := h.valid.active_length
  rw [h.active_eq, getActiveSize, h.rpos_eq] at hl
  omega

theorem Filled.length_le (h : b.Filled n data) : data.length ≤ n := by
  rw [← h.wpos_eq, ← h.length_eq]
  exact h.valid.wpos_le

theorem Filled.getRemainingSpace (h : b.Filled n data) :
    b.getRemainingSpace = n - data.length := by
  rw [MessageBuffer.getRemainingSpace, h.length_eq, h.wpos_eq]

theorem Filled.getActiveSize (h : b.Filled n data) : b.getActiveSize = data.length := by
  rw [← h.valid.active_length, h.active_eq]

theorem Filled.write (h : b.Filled n data) (more : List UInt8)
    (hn : data.length + more.length ≤ n) : (b.write more).Filled n (data ++ more) := by
  have hr : more.length ≤ b.getRemainingSpace := by rw [h.getRemainingSpace]; omega
  refine ⟨h.valid.write hr, ?_, ?_, ?_⟩
  · rw [write_rpos, h.rpos_eq]
  · rw [h.valid.write_storage_length hr, h.length_eq]
  · rw [h.valid.active_write, h.active_eq]

theorem Filled.fromReadPointer (h : b.Filled n data) (hn : data.length = n) :
    b.fromReadPointer n = data := by
  rw [← h.active_eq, active, h.getActiveSize, hn]

theorem Filled.overwrite (h : b.Filled n data) (hn : data.length = n) {other : List UInt8}
    (ho : other.length = n) :
    ({ b with storage := overwrite b.storage b.rpos other } : MessageBuffer).Filled n other := by
  have hs : WarheadDiscord.overwrite b.storage b.rpos other = other := by
    rw [WarheadDiscord.overwrite, h.rpos_eq, List.take_zero, List.nil_append, Nat.zero_add,
      List.drop_eq_nil_of_le (Nat.le_of_eq (h.length_eq.trans ho.symm)), List.append_nil]
  rw [hs]
  have hw : b.wpos = n := by rw [h.wpos_eq, hn]
  refine ⟨⟨?_, ?_⟩, h.rpos_eq, ho, ?_⟩
  · rw [h.rpos_eq]; exact Nat.zero_le _
  · exact Nat.le_of_eq (hw.trans ho.symm)
  · rw [active_eq_drop, h.rpos_eq, hw, List.drop_zero, ← ho, List.take_length]

theorem Filled.reset (h : b.Filled n data) : b.reset.Filled n [] :=
  ⟨⟨Nat.le_refl _, Nat.zero_le _⟩, rfl, h.length_eq, active_of_getActiveSize rfl⟩

theorem Filled.storage_eq (h : b.Filled n data) (hn : data.length = n) : b.storage = data := by
  have ha := h.active_eq
  rw [active_eq_drop, h.rpos_eq, List.drop_zero, h.wpos_eq, hn, ← h.length_eq,
    List.take_length] at ha
  exact ha

theorem filled_resize (hw : b.wpos = 0) (hr : b.rpos = 0) (n : Nat) : (b.resize n).Filled n [] := by
  refine ⟨⟨?_, ?_⟩, hr, resizeStorage_length _ _, active_of_getActiveSize ?_⟩
  · show b.rpos ≤ b.wpos
    omega
  · show b.wpos ≤ _
    omega
  · show b.wpos - b.rpos = 0
    omega

theorem Valid.filled_normalize (h : b.Valid) (h0 : b.active = []) :
    b.normalize.Filled b.storage.length [] :=
  ⟨h.normalize, normalize_rpos b, h.normalize_storage_length, by rw [h.active_normalize, h0]⟩

end MessageBuffer

end WarheadDiscord
