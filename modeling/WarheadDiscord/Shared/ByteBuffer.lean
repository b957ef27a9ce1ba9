import WarheadDiscord.Common.Fault
import WarheadDiscord.Common.MessageBuffer
import WarheadDiscord.Lib.Endian

/-!
# `ByteBuffer`

The content of a packet: a vector with a read and a write position.  Typed values
are little-endian in the storage.  `EndianConvert` makes this so on every host,
so they are read and written as such here.

* `readBytes_of_le`, `readBytes_eq_error`: reading `n` bytes succeeds when `n` bytes
  are left, and throws otherwise.
* `AtEnd.append_eq`: on a buffer whose write position is at its end, `append` adds
  the bytes behind the content.
* `Appends`, `Appends.then`: what a chain of `operator<<` appends, and when it ends in
  the assertion of `append`.
-/

namespace WarheadDiscord

open Lib

structure ByteBuffer where
  rpos : Nat
  wpos : Nat
  storage : List UInt8
  deriving DecidableEq, Repr

namespace ByteBuffer

/-- `ByteBuffer(size_t reserve)`: the capacity is not modelled. -/
def new : ByteBuffer := ⟨0, 0, []⟩

/-- `ByteBuffer(const char* buffer, std::size_t reserve)`.  The bytes are copied into memory that
is only reserved, so the vector stays empty. -/
def ofChars (_buffer : List UInt8) : ByteBuffer := ⟨0, 0, []⟩

/-- `ByteBuffer(ByteBuffer&& buf)`: the new buffer, and what is left of `buf`. -/
def moveFrom (buf : ByteBuffer) : ByteBuffer × ByteBuffer := (buf, ⟨0, 0, []⟩)

/-- `ByteBuffer(MessageBuffer&& buffer)`: the buffer, and what is left of `buffer`. -/
def ofMessageBuffer (buffer : MessageBuffer) : ByteBuffer × MessageBuffer :=
  (⟨0, 0, buffer.move.1⟩, buffer.move.2)

def size (b : ByteBuffer) : Nat := b.storage.length

def empty (b : ByteBuffer) : Bool := b.storage.isEmpty

/-- `read<T>()` for a type of `n` bytes: the bytes, and the buffer behind them. -/
def readBytes (b : ByteBuffer) (n : Nat) : Except Fault (List UInt8 × ByteBuffer) :=
  if b.rpos + n > b.size then .error (.byteBufferPosition false b.rpos n b.size)
  else .ok ((b.storage.drop b.rpos).take n, { b with rpos := b.rpos + n })

/-- `operator>>(uint8&)`. -/
def readUInt8 (b : ByteBuffer) : Except Fault (UInt8 × ByteBuffer) :=
  match b.readBytes 1 with
  | .ok (bs, b') => .ok (UInt8.ofNat (ofLE bs), b')
  | .error e => .error e

/-- `operator>>(int64&)`. -/
def readInt64 (b : ByteBuffer) : Except Fault (Int64 × ByteBuffer) :=
  match b.readBytes 8 with
  | .ok (bs, b') => .ok ((UInt64.ofNat (ofLE bs)).toInt64, b')
  | .error e => .error e

/-- `append(uint8 const* src, size_t cnt)`. -/
def append (b : ByteBuffer) (src : List UInt8) : Except Fault ByteBuffer :=
  if src.length = 0 then .error (.assertion "cnt")
  else if ¬ b.size < 10000000 then .error (.assertion "size() < 10000000")
  else
    let newSize := b.wpos + src.length
    let storage := if b.size < newSize then resizeStorage b.storage newSize else b.storage
    .ok { b with storage := overwrite storage b.wpos src, wpos := newSize }

/-- `contents()`. -/
def contents (b : ByteBuffer) : Except Fault (List UInt8) :=
  if b.empty then .error .byteBuffer else .ok b.storage

/-- `append(ByteBuffer const& buffer)`. -/
def appendBuffer (b buffer : ByteBuffer) : Except Fault ByteBuffer :=
  if buffer.wpos ≠ 0 then
    match buffer.contents with
    | .ok bytes => b.append (bytes.take buffer.wpos)
    | .error e => .error e
  else .ok b

def resize (b : ByteBuffer) (newsize : Nat) : ByteBuffer :=
  { storage := resizeStorage b.storage newsize, rpos := 0
    wpos := (resizeStorage b.storage newsize).length }

def clear (_b : ByteBuffer) : ByteBuffer := ⟨0, 0, []⟩

/-- `operator<<(uint32)`. -/
def writeUInt32 (b : ByteBuffer) (value : UInt32) : Except Fault ByteBuffer :=
  b.append (toLE 4 value.toNat)

/-- `operator<<(int64)`, in two's complement. -/
def writeInt64 (b : ByteBuffer) (value : Int64) : Except Fault ByteBuffer :=
  b.append (toLE 8 value.toUInt64.toNat)

/-- `operator<<(std::string_view)`: the bytes and a NUL behind them. -/
def writeString (b : ByteBuffer) (value : List UInt8) : Except Fault ByteBuffer :=
  if value.length ≠ 0 then
    match b.append value with
    | .ok b' => b'.append [0]
    | .error e => .error e
  else b.append [0]

/-! ### Reading -/

variable {b b' : ByteBuffer} {n : Nat} {bs src : List UInt8}

/-- **A read past the end throws, and the exception says where.** -/
theorem readBytes_eq_error (h : b.size < b.rpos + n) :
    b.readBytes n = .error (.byteBufferPosition false b.rpos n b.size) := by
  rw [readBytes, if_pos h]

theorem readBytes_of_le (h : b.rpos + n ≤ b.size) :
    b.readBytes n = .ok ((b.storage.drop b.rpos).take n, { b with rpos := b.rpos + n }) := by
  rw [readBytes, if_neg (by omega)]

/-! ### Appending -/

/-- The write position is at the end of the content. -/
def AtEnd (b : ByteBuffer) : Prop := b.wpos = b.storage.length

/-- The buffer with more content behind its own. -/
def extend (b : ByteBuffer) (src : List UInt8) : ByteBuffer :=
  { b with storage := b.storage ++ src, wpos := (b.storage ++ src).length }

theorem new_atEnd : new.AtEnd := rfl

theorem extend_atEnd (b : ByteBuffer) (src : List UInt8) : (b.extend src).AtEnd := rfl

@[simp] theorem extend_size (b : ByteBuffer) (src : List UInt8) :
    (b.extend src).size = b.size + src.length := List.length_append

theorem extend_extend (b : ByteBuffer) (xs ys : List UInt8) :
    (b.extend xs).extend ys = b.extend (xs ++ ys) := by
  rw [extend, extend, extend, List.append_assoc]

/-- **`append` adds the bytes behind the content**, when the content is below the
limit of the assertion. -/
theorem AtEnd.append_eq (h : b.AtEnd) (hs : src ≠ []) (hb : b.size < 10000000) :
    b.append src = .ok (b.extend src) := by
  have hne : src.length ≠ 0 := fun h0 => hs (List.length_eq_zero_iff.mp h0)
  have hw : b.wpos = b.storage.length := h
  have hgrow : b.size < b.wpos + src.length := by rw [size, hw]; omega
  have ht : overwrite (resizeStorage b.storage (b.wpos + src.length)) b.wpos src =
      b.storage ++ src := by
    have hl : (resizeStorage b.storage (b.wpos + src.length)).length = b.wpos + src.length :=
      resizeStorage_length _ _
    rw [overwrite, List.drop_eq_nil_of_le (by omega), List.append_nil,
      resizeStorage_take (by omega) (by omega), hw, List.take_length]
  rw [append, if_neg hne, if_neg (by omega)]
  dsimp only
  rw [if_pos hgrow, ht, extend, List.length_append, hw]

theorem append_eq_error (hs : src ≠ []) (hb : 10000000 ≤ b.size) :
    b.append src = .error (.assertion "size() < 10000000") := by
  have hne : src.length ≠ 0 := fun h0 => hs (List.length_eq_zero_iff.mp h0)
  rw [append, if_neg hne, if_pos (by omega)]

/-- One writer and then another. -/
def thenWrite (w₁ w₂ : ByteBuffer → Except Fault ByteBuffer) (b : ByteBuffer) :
    Except Fault ByteBuffer :=
  match w₁ b with
  | .ok b' => w₂ b'
  | .error e => .error e

/-- The writer appends `src`, the last `last` bytes of it in its last step. -/
structure Appends (w : ByteBuffer → Except Fault ByteBuffer) (src : List UInt8) (last : Nat) :
    Prop where
  last_pos : 0 < last
  last_le : last ≤ src.length
  ok : ∀ b : ByteBuffer, b.AtEnd → b.size + src.length < 10000000 + last → w b = .ok (b.extend src)
  error : ∀ b : ByteBuffer, b.AtEnd → 10000000 + last ≤ b.size + src.length →
    w b = .error (.assertion "size() < 10000000")

theorem appends_append (src : List UInt8) (hs : src ≠ []) :
    Appends (·.append src) src src.length where
  last_pos := List.length_pos_iff.mpr hs
  last_le := Nat.le_refl _
  ok _ hb hn := hb.append_eq hs (by omega)
  error _ _ hn := append_eq_error hs (by omega)

/-- **Writers compose.** -/
theorem Appends.then {w₁ w₂ : ByteBuffer → Except Fault ByteBuffer} {xs ys : List UInt8}
    {k l : Nat} (h₁ : Appends w₁ xs k) (h₂ : Appends w₂ ys l) :
    Appends (thenWrite w₁ w₂) (xs ++ ys) l := by
  have hk := h₁.last_pos
  have hl := h₂.last_le
  refine ⟨h₂.last_pos, by rw [List.length_append]; omega, fun b hb hn => ?_, fun b hb hn => ?_⟩
  · rw [List.length_append] at hn
    rw [thenWrite, h₁.ok b hb (by omega)]
    dsimp only
    rw [h₂.ok _ (extend_atEnd b xs) (by rw [extend_size]; omega), extend_extend]
  · rw [List.length_append] at hn
    rw [thenWrite]
    by_cases hx : b.size + xs.length < 10000000 + k
    · rw [h₁.ok b hb hx]
      exact h₂.error _ (extend_atEnd b xs) (by rw [extend_size]; omega)
    · rw [h₁.error b hb (by omega)]

theorem appends_writeUInt32 (value : UInt32) :
    Appends (·.writeUInt32 value) (toLE 4 value.toNat) 4 := by
  have hlen := toLE_length 4 value.toNat
  have h := appends_append (toLE 4 value.toNat) (List.length_pos_iff.mp (by omega))
  rw [hlen] at h
  exact h

theorem appends_writeInt64 (value : Int64) :
    Appends (·.writeInt64 value) (toLE 8 value.toUInt64.toNat) 8 := by
  have hlen := toLE_length 8 value.toUInt64.toNat
  have h := appends_append (toLE 8 value.toUInt64.toNat) (List.length_pos_iff.mp (by omega))
  rw [hlen] at h
  exact h

theorem appends_writeString (value : List UInt8) :
    Appends (·.writeString value) (value ++ [0]) 1 := by
  have hnul : Appends (·.append [0]) [0] 1 := appends_append [0] (by decide)
  by_cases hv : value = []
  · subst hv
    exact hnul
  · have hw : (fun b : ByteBuffer => b.writeString value) =
        thenWrite (·.append value) (·.append [0]) := by
      funext b
      rw [writeString, if_pos fun h0 => hv (List.length_eq_zero_iff.mp h0)]
      rfl
    rw [hw]
    exact (appends_append _ hv).then hnul

end ByteBuffer

end WarheadDiscord
